import Mathlib.Tactic

/-!
Everything reached from some starting points over a successor function: a
search that keeps what it has seen, in any discipline of its list of open
points, and the reflexive-transitive closure that it computes.
-/

namespace Library.Closure

variable {α : Type*} [DecidableEq α]

/-- Visits each open point once; `push` adds a point's successors to the others. -/
def search (push : List α → List α → List α) (next : α → List α) :
    Nat → List α → List α → List α
  | 0, _, seen => seen
  | _ + 1, [], seen => seen
  | fuel + 1, a :: todo, seen =>
    if a ∈ seen then search push next fuel todo seen
    else search push next fuel (push todo (next a)) (seen ++ [a])

/-- Adding points loses none and invents none. -/
structure Pushes (push : List α → List α → List α) : Prop where
  mem : ∀ todo more x, x ∈ push todo more ↔ x ∈ todo ∨ x ∈ more
  length : ∀ todo more, (push todo more).length = todo.length + more.length

/-- First in, first out. -/
def queue (todo more : List α) : List α := todo ++ more

/-- Last in, first out. -/
def stack (todo more : List α) : List α := more ++ todo

omit [DecidableEq α] in
theorem queue_pushes : Pushes (queue : List α → List α → List α) where
  mem _ _ _ := List.mem_append
  length _ _ := List.length_append

omit [DecidableEq α] in
theorem stack_pushes : Pushes (stack : List α → List α → List α) where
  mem _ _ _ := by rw [stack, List.mem_append, or_comm]
  length _ _ := by rw [stack, List.length_append, Nat.add_comm]

/-- The successors of the points of `points` still to be seen. -/
def weight (next : α → List α) (points seen : List α) : Nat :=
  ((points.filter (· ∉ seen)).map fun a => (next a).length).sum

theorem weight_cons (next : α → List α) (b : α) (points seen : List α) :
    weight next (b :: points) seen =
      (if b ∈ seen then 0 else (next b).length) + weight next points seen := by
  unfold weight
  by_cases hb : b ∈ seen <;> simp [hb]

theorem weight_seen_le (next : α → List α) (points seen : List α) (a : α) :
    weight next points (seen ++ [a]) ≤ weight next points seen := by
  induction points with
  | nil => exact Nat.le_refl _
  | cons b points ih =>
    rw [weight_cons, weight_cons]
    apply Nat.add_le_add _ ih
    split
    · exact Nat.zero_le _
    · rename_i hb
      rw [if_neg fun h => hb (List.mem_append_left _ h)]

/-- Seeing a point takes its successors off the weight. -/
theorem weight_seen {next : α → List α} {points seen : List α} {a : α}
    (hout : a ∉ points → next a = []) (ha : a ∉ seen) :
    weight next points (seen ++ [a]) + (next a).length ≤ weight next points seen := by
  by_cases hmem : a ∈ points
  · clear hout
    induction points with
    | nil => cases hmem
    | cons b points ih =>
      rw [weight_cons, weight_cons]
      by_cases hab : b = a
      · subst hab
        have hle := weight_seen_le next points seen b
        rw [if_pos (List.mem_append_right _ (List.mem_singleton_self b)), if_neg ha]
        omega
      · have hrest := ih ((List.mem_cons.mp hmem).resolve_left (Ne.symm hab))
        have hsame : b ∈ seen ++ [a] ↔ b ∈ seen := by simp [hab]
        simp only [hsame]
        omega
  · rw [hout hmem, List.length_nil]
    exact weight_seen_le next points seen a

/-- One point leads to another. -/
def Reaches (next : α → List α) : α → α → Prop :=
  Relation.ReflTransGen fun a b => b ∈ next a

section

variable {push : List α → List α → List α} {next : α → List α} {points : List α}

theorem subset_search (fuel : Nat) (todo : List α) {seen : List α} {a : α} (ha : a ∈ seen) :
    a ∈ search push next fuel todo seen := by
  induction fuel generalizing todo seen with
  | zero => exact ha
  | succ fuel ih =>
    cases todo with
    | nil => exact ha
    | cons b todo =>
      rw [search]
      split
      · exact ih todo ha
      · exact ih _ (List.mem_append_left _ ha)

variable (hpush : Pushes push)
include hpush

theorem search_sound (fuel : Nat) {todo seen : List α} {b : α}
    (hb : b ∈ search push next fuel todo seen) :
    b ∈ seen ∨ ∃ a ∈ todo, Reaches next a b := by
  induction fuel generalizing todo seen with
  | zero => exact .inl hb
  | succ fuel ih =>
    cases todo with
    | nil => exact .inl hb
    | cons a todo =>
      rw [search] at hb
      split at hb
      · rcases ih hb with h | ⟨c, hc, hreach⟩
        · exact .inl h
        · exact .inr ⟨c, List.mem_cons_of_mem a hc, hreach⟩
      · rcases ih hb with h | ⟨c, hc, hreach⟩
        · rcases List.mem_append.mp h with h | h
          · exact .inl h
          · obtain rfl := List.mem_singleton.mp h
            exact .inr ⟨b, List.mem_cons_self, .refl⟩
        · rcases (hpush.mem todo (next a) c).mp hc with hc | hc
          · exact .inr ⟨c, List.mem_cons_of_mem a hc, hreach⟩
          · exact .inr ⟨a, List.mem_cons_self, .head hc hreach⟩

variable (hout : ∀ a ∉ points, next a = [])
include hout

/-- With fuel enough, the open points are seen, and what the points seen lead to. -/
theorem search_closed {fuel : Nat} {todo seen : List α}
    (hfuel : todo.length + weight next points seen < fuel) :
    (∀ a ∈ todo, a ∈ search push next fuel todo seen) ∧
      ∀ a ∈ search push next fuel todo seen, a ∉ seen →
        ∀ b ∈ next a, b ∈ search push next fuel todo seen := by
  induction fuel generalizing todo seen with
  | zero => omega
  | succ fuel ih =>
    cases todo with
    | nil => exact ⟨nofun, fun a ha hnot => absurd ha hnot⟩
    | cons a todo =>
      rw [search]
      rw [List.length_cons] at hfuel
      split
      · rename_i ha
        obtain ⟨htodo, hclosed⟩ := @ih todo seen (by omega)
        refine ⟨fun b hb => ?_, hclosed⟩
        rcases List.mem_cons.mp hb with rfl | hb
        · exact subset_search fuel todo ha
        · exact htodo b hb
      · rename_i ha
        have hweight := weight_seen (hout a) ha
        obtain ⟨htodo, hclosed⟩ := @ih (push todo (next a)) (seen ++ [a])
          (by rw [hpush.length]; omega)
        have hseen : a ∈ search push next fuel (push todo (next a)) (seen ++ [a]) :=
          subset_search fuel _ (List.mem_append_right _ (List.mem_singleton_self a))
        constructor
        · intro b hb
          rcases List.mem_cons.mp hb with rfl | hb
          · exact hseen
          · exact htodo b ((hpush.mem _ _ b).mpr (.inl hb))
        · intro b hb hnot c hc
          by_cases hba : b = a
          · subst hba
            exact htodo c ((hpush.mem _ _ c).mpr (.inr hc))
          · exact hclosed b hb (by simp [hnot, hba]) c hc

end

/-- Everything reached from `start`; `points` has every point with successors. -/
def reach (push : List α → List α → List α) (next : α → List α) (points start : List α) :
    List α :=
  search push next (start.length + weight next points [] + 1) start []

variable {push : List α → List α → List α} {next : α → List α} {points start : List α}

theorem mem_reach (hpush : Pushes push) (hout : ∀ a ∉ points, next a = []) {b : α} :
    b ∈ reach push next points start ↔ ∃ a ∈ start, Reaches next a b := by
  obtain ⟨hstart, hclosed⟩ := search_closed hpush hout
    (Nat.lt_succ_self (start.length + weight next points []))
  constructor
  · intro hb
    exact (search_sound hpush _ hb).resolve_left List.not_mem_nil
  · rintro ⟨a, ha, hreach⟩
    induction hreach with
    | refl => exact hstart a ha
    | tail _ hstep ih => exact hclosed _ ih List.not_mem_nil _ hstep

end Library.Closure
