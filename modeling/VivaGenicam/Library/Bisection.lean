import Mathlib.Data.Nat.Log

/-!
Bisection between a number where a property holds and a larger one where it does
not. It ends at a boundary of the property, whatever the property; where that only
ever turns false, the boundary is the last number that has it.
-/

namespace Library.Bisection

variable (p : Nat → Bool)

def middle (lo hi : Nat) : Nat := lo + (hi - lo) / 2

variable {lo hi : Nat}

theorem lt_middle (h : 1 < hi - lo) : lo < middle lo hi := by
  unfold middle
  omega

theorem middle_lt (h : 1 < hi - lo) : middle lo hi < hi := by
  unfold middle
  omega

/-- Where the bisection of `lo` and `hi` ends. -/
def boundary (lo hi : Nat) : Nat :=
  if 1 < hi - lo then
    if p (middle lo hi) then boundary (middle lo hi) hi else boundary lo (middle lo hi)
  else lo
termination_by hi - lo
decreasing_by
  · have := lt_middle ‹1 < hi - lo›
    omega
  · have := middle_lt ‹1 < hi - lo›
    omega

/-- The numbers it asks about, in order. -/
def asked (lo hi : Nat) : List Nat :=
  if 1 < hi - lo then
    if p (middle lo hi) then middle lo hi :: asked (middle lo hi) hi
    else middle lo hi :: asked lo (middle lo hi)
  else []
termination_by hi - lo
decreasing_by
  · have := lt_middle ‹1 < hi - lo›
    omega
  · have := middle_lt ‹1 < hi - lo›
    omega

variable {p}

theorem boundary_spec (hlt : lo < hi) (hlo : p lo = true) (hhi : p hi = false) :
    lo ≤ boundary p lo hi ∧ boundary p lo hi < hi ∧
      p (boundary p lo hi) = true ∧ p (boundary p lo hi + 1) = false := by
  fun_induction boundary p lo hi with
  | case1 lo hi h hmid ih =>
    obtain ⟨hle, hlt, hholds⟩ := ih (middle_lt h) hmid hhi
    exact ⟨(lt_middle h).le.trans hle, hlt, hholds⟩
  | case2 lo hi h hmid ih =>
    obtain ⟨hle, hlt, hholds⟩ := ih (lt_middle h) hlo (by simpa using hmid)
    exact ⟨hle, hlt.trans (middle_lt h), hholds⟩
  | case3 lo hi h =>
    have hnext : hi = lo + 1 := by omega
    exact ⟨le_rfl, hlt, hlo, hnext ▸ hhi⟩

/-- Where the property only ever turns false, the boundary is the last to have it. -/
theorem le_boundary (hlt : lo < hi) (hlo : p lo = true) (hhi : p hi = false)
    (hdown : ∀ small large, small ≤ large → p large = true → p small = true) {n : Nat}
    (hn : p n = true) : n ≤ boundary p lo hi := by
  obtain ⟨-, -, -, hend⟩ := boundary_spec hlt hlo hhi
  by_contra hbeyond
  rw [hdown _ n (by omega) hn] at hend
  exact Bool.noConfusion hend

theorem length_asked (lo hi : Nat) : (asked p lo hi).length ≤ Nat.clog 2 (hi - lo) := by
  have hhalf : ∀ whole, 1 < whole →
      Nat.clog 2 whole = Nat.clog 2 ((whole + 1) / 2) + 1 := fun whole hwhole =>
    Nat.clog_of_two_le (by omega) hwhole
  fun_induction asked p lo hi with
  | case1 lo hi h hmid ih =>
    have : hi - middle lo hi ≤ (hi - lo + 1) / 2 := by unfold middle; omega
    rw [List.length_cons, hhalf _ h]
    exact Nat.succ_le_succ (ih.trans (Nat.clog_mono_right 2 this))
  | case2 lo hi h hmid ih =>
    have : middle lo hi - lo ≤ (hi - lo + 1) / 2 := by unfold middle; omega
    rw [List.length_cons, hhalf _ h]
    exact Nat.succ_le_succ (ih.trans (Nat.clog_mono_right 2 this))
  | case3 lo hi h => exact Nat.zero_le _

end Library.Bisection
