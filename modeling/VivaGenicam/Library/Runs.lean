import Mathlib.Tactic

/-!
The longest runs of consecutive numbers that have a property, each as its first and last
number, in ascending order. A property has one list of runs at most; the list for the
numbers below a bound follows the bound up one number at a time.
-/

namespace Library.Runs

/-- `runs` are the longest runs on which `p` holds, in ascending order. -/
structure Maximal (p : Nat → Prop) (runs : List (Nat × Nat)) : Prop where
  proper : ∀ run ∈ runs, run.1 ≤ run.2
  ascending : runs.Pairwise fun earlier later => earlier.2 < later.1
  covers : ∀ i, p i ↔ ∃ run ∈ runs, run.1 ≤ i ∧ i ≤ run.2
  longest : ∀ run ∈ runs, ¬ p (run.2 + 1) ∧ (run.1 = 0 ∨ ¬ p (run.1 - 1))

/-- The numbers below `n` that have `p`. -/
def Below (p : Nat → Prop) (n : Nat) (i : Nat) : Prop := i < n ∧ p i

namespace Maximal

variable {p : Nat → Prop} {runs : List (Nat × Nat)} {run : Nat × Nat}

theorem holds (h : Maximal p runs) (hrun : run ∈ runs) {i : Nat} (hfirst : run.1 ≤ i)
    (hlast : i ≤ run.2) : p i :=
  (h.covers i).mpr ⟨run, hrun, hfirst, hlast⟩

/-- Without its first run, a list is that of the numbers behind it. -/
theorem tail (h : Maximal p (run :: runs)) : Maximal (fun i => p i ∧ run.2 < i) runs where
  proper other hother := h.proper other (List.mem_cons_of_mem run hother)
  ascending := (List.pairwise_cons.mp h.ascending).2
  covers i := by
    have hbehind := (List.pairwise_cons.mp h.ascending).1
    constructor
    · rintro ⟨hi, hlt⟩
      obtain ⟨other, hother, hfirst, hlast⟩ := (h.covers i).mp hi
      rcases List.mem_cons.mp hother with rfl | hother
      · omega
      · exact ⟨other, hother, hfirst, hlast⟩
    · rintro ⟨other, hother, hfirst, hlast⟩
      have := hbehind other hother
      exact ⟨h.holds (List.mem_cons_of_mem run hother) hfirst hlast, by omega⟩
  longest other hother := by
    obtain ⟨hafter, hbefore⟩ := h.longest other (List.mem_cons_of_mem run hother)
    refine ⟨fun hp => hafter hp.1, ?_⟩
    rcases hbefore with hzero | hbefore
    · exact .inl hzero
    · exact .inr fun hp => hbefore hp.1

/-- The first run starts at the least number with the property. -/
theorem head_le (h : Maximal p (run :: runs)) {i : Nat} (hi : p i) : run.1 ≤ i := by
  obtain ⟨other, hother, hfirst, -⟩ := (h.covers i).mp hi
  rcases List.mem_cons.mp hother with rfl | hother
  · exact hfirst
  · have hproper := h.proper run List.mem_cons_self
    have hbehind := (List.pairwise_cons.mp h.ascending).1 other hother
    omega

theorem last_le {other : Nat × Nat} {others : List (Nat × Nat)} (h : Maximal p (run :: runs))
    (h' : Maximal p (other :: others)) (hsame : run.1 = other.1) : other.2 ≤ run.2 := by
  by_contra hlt
  have hproper := h.proper run List.mem_cons_self
  exact (h.longest run List.mem_cons_self).1
    (h'.holds List.mem_cons_self (by omega) (by omega))

theorem unique (h : Maximal p runs) {others : List (Nat × Nat)} (h' : Maximal p others) :
    runs = others := by
  induction runs generalizing p others with
  | nil =>
    cases others with
    | nil => rfl
    | cons other others =>
      have hother := h'.holds List.mem_cons_self le_rfl (h'.proper other List.mem_cons_self)
      obtain ⟨run, hrun, -⟩ := (h.covers _).mp hother
      cases hrun
  | cons run runs ih =>
    have hrun := h.holds List.mem_cons_self le_rfl (h.proper run List.mem_cons_self)
    cases others with
    | nil =>
      obtain ⟨other, hother, -⟩ := (h'.covers _).mp hrun
      cases hother
    | cons other others =>
      have hother := h'.holds List.mem_cons_self le_rfl (h'.proper other List.mem_cons_self)
      have hfirst : run.1 = other.1 := le_antisymm (h.head_le hother) (h'.head_le hrun)
      have hlast : run.2 = other.2 := le_antisymm (h'.last_le h hfirst.symm) (h.last_le h' hfirst)
      obtain rfl : run = other := Prod.ext hfirst hlast
      rw [ih h.tail h'.tail]

theorem congr (h : Maximal p runs) {q : Nat → Prop} (hpq : ∀ i, p i ↔ q i) : Maximal q runs := by
  obtain rfl : p = q := funext fun i => propext (hpq i)
  exact h

section

variable {n : Nat}

theorem zero : Maximal (Below p 0) [] where
  proper := by simp
  ascending := .nil
  covers := by simp [Below]
  longest := by simp

/-- A number without the property leaves the runs as they are. -/
theorem skip (h : Maximal (Below p n) runs) (hn : ¬ p n) : Maximal (Below p (n + 1)) runs := by
  apply h.congr
  intro i
  unfold Below
  constructor
  · exact fun hi => ⟨by omega, hi.2⟩
  · intro hi
    have hne : i ≠ n := fun heq => hn (heq ▸ hi.2)
    exact ⟨by omega, hi.2⟩

theorem lt_bound (h : Maximal (Below p n) runs) (hrun : run ∈ runs) : run.2 < n :=
  (h.holds hrun (h.proper run hrun) le_rfl).1

/-- A number with the property, behind one without it, is a run of its own. -/
theorem start (h : Maximal (Below p n) runs) (hn : p n) (hbefore : n = 0 ∨ ¬ p (n - 1)) :
    Maximal (Below p (n + 1)) (runs ++ [(n, n)]) where
  proper run hrun := by
    rcases List.mem_append.mp hrun with hrun | hrun
    · exact h.proper run hrun
    · rw [List.mem_singleton.mp hrun]
  ascending := by
    apply List.pairwise_append.mpr
    refine ⟨h.ascending, List.pairwise_singleton .., fun run hrun last hlast => ?_⟩
    rw [List.mem_singleton.mp hlast]
    exact h.lt_bound hrun
  covers i := by
    constructor
    · rintro ⟨hi, hp⟩
      by_cases hlt : i < n
      · obtain ⟨run, hrun, hin⟩ := (h.covers i).mp ⟨hlt, hp⟩
        exact ⟨run, List.mem_append_left _ hrun, hin⟩
      · exact ⟨(n, n), by simp, by dsimp only; omega⟩
    · rintro ⟨run, hrun, hfirst, hlast⟩
      rcases List.mem_append.mp hrun with hrun | hrun
      · have hi := h.holds hrun hfirst hlast
        exact ⟨Nat.lt_succ_of_lt hi.1, hi.2⟩
      · obtain rfl := List.mem_singleton.mp hrun
        obtain rfl : i = n := le_antisymm hlast hfirst
        exact ⟨Nat.lt_succ_self i, hn⟩
  longest run hrun := by
    rcases List.mem_append.mp hrun with hrun | hrun
    · obtain ⟨hafter, hold⟩ := h.longest run hrun
      have hlast := h.lt_bound hrun
      have hproper := h.proper run hrun
      refine ⟨fun hp => ?_, hold.imp_right fun hold hp => hold ⟨by omega, hp.2⟩⟩
      by_cases heq : run.2 + 1 = n
      · have hp' := (h.holds hrun hproper le_rfl).2
        rcases hbefore with hzero | hbefore
        · omega
        · exact hbefore (by rwa [show n - 1 = run.2 by omega])
      · exact hafter ⟨by omega, hp.2⟩
    · obtain rfl := List.mem_singleton.mp hrun
      refine ⟨fun hp => absurd hp.1 (by simp), hbefore.imp_right fun hbefore hp => hbefore hp.2⟩

/-- A number with the property, behind a run that ends there, belongs to it. -/
theorem extend {first : Nat} (h : Maximal (Below p (n + 1)) (runs ++ [(first, n)]))
    (hn : p (n + 1)) : Maximal (Below p (n + 2)) (runs ++ [(first, n + 1)]) where
  proper run hrun := by
    rcases List.mem_append.mp hrun with hrun | hrun
    · exact h.proper run (List.mem_append_left _ hrun)
    · rw [List.mem_singleton.mp hrun]
      have := h.proper (first, n) (by simp)
      exact Nat.le_succ_of_le this
  ascending := by
    obtain ⟨hruns, -, hbehind⟩ := List.pairwise_append.mp h.ascending
    refine List.pairwise_append.mpr ⟨hruns, List.pairwise_singleton .., fun run hrun last hlast => ?_⟩
    rw [List.mem_singleton.mp hlast]
    exact hbehind run hrun (first, n) (List.mem_singleton_self _)
  covers i := by
    constructor
    · rintro ⟨hi, hp⟩
      by_cases hlt : i < n + 1
      · obtain ⟨run, hrun, hfirst, hlast⟩ := (h.covers i).mp ⟨hlt, hp⟩
        rcases List.mem_append.mp hrun with hrun | hrun
        · exact ⟨run, List.mem_append_left _ hrun, hfirst, hlast⟩
        · obtain rfl := List.mem_singleton.mp hrun
          exact ⟨(first, n + 1), by simp, hfirst, by dsimp only at *; omega⟩
      · have hproper := h.proper (first, n) (by simp)
        exact ⟨(first, n + 1), by simp, by dsimp only at *; omega⟩
    · rintro ⟨run, hrun, hfirst, hlast⟩
      rcases List.mem_append.mp hrun with hrun | hrun
      · have hi := h.holds (List.mem_append_left _ hrun) hfirst hlast
        exact ⟨Nat.lt_succ_of_lt hi.1, hi.2⟩
      · obtain rfl := List.mem_singleton.mp hrun
        by_cases heq : i = n + 1
        · exact ⟨by omega, heq ▸ hn⟩
        · have hmem : (first, n) ∈ runs ++ [(first, n)] := by simp
          have hi := h.holds hmem hfirst (by dsimp only at *; omega)
          exact ⟨Nat.lt_succ_of_lt hi.1, hi.2⟩
  longest run hrun := by
    rcases List.mem_append.mp hrun with hrun | hrun
    · obtain ⟨hafter, hbefore⟩ := h.longest run (List.mem_append_left _ hrun)
      have hproper := h.proper run (List.mem_append_left _ hrun)
      have hfirst := h.proper (first, n) (by simp)
      have hbehind := (List.pairwise_append.mp h.ascending).2.2 run hrun (first, n) (by simp)
      refine ⟨fun hp => hafter ⟨?_, hp.2⟩, hbefore.imp_right fun hbefore hp => hbefore ⟨?_, hp.2⟩⟩
      · dsimp only at *
        omega
      · dsimp only at *
        omega
    · obtain rfl := List.mem_singleton.mp hrun
      obtain ⟨-, hbefore⟩ := h.longest (first, n) (by simp)
      have hproper := h.proper (first, n) (by simp)
      refine ⟨fun hp => absurd hp.1 (by simp), hbefore.imp_right fun hbefore hp => hbefore ⟨?_, hp.2⟩⟩
      dsimp only at *
      omega

end

end Maximal

end Library.Runs
