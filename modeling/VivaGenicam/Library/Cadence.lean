import Mathlib.Tactic

/-!
Events that follow a cadence: each waits for a deadline, and each moves the
deadline by a whole interval at least, past its own time. Few of them fit in a
window, and a steady source leaves no interval without one.
-/

namespace Library.Cadence

/-- From the deadline on: every event is at its deadline or later, and the next
deadline is after it and a whole interval after its own. -/
inductive Spaced (interval : Nat) : Nat → List Nat → Prop
  | nil (deadline : Nat) : Spaced interval deadline []
  | cons {deadline next time : Nat} {rest : List Nat} (hdue : deadline ≤ time)
      (hafter : time < next) (hnext : deadline + interval ≤ next)
      (hrest : Spaced interval next rest) : Spaced interval deadline (time :: rest)

/-- How many of the events are in the closed window. -/
def within (first last : Nat) (times : List Nat) : Nat :=
  times.countP fun time => first ≤ time ∧ time ≤ last

/-- Up to a time before the `count`-th deadline there are at most `count` events. -/
theorem Spaced.within_of_lt {interval deadline : Nat} {times : List Nat}
    (h : Spaced interval deadline times) {count last : Nat} (first : Nat)
    (hlast : last < deadline + count * interval) : within first last times ≤ count := by
  induction h generalizing count with
  | nil deadline => exact Nat.zero_le _
  | @cons deadline next time rest hdue hafter hnext hrest ih =>
    unfold within at ih ⊢
    rw [List.countP_cons]
    split
    · rename_i hin
      simp only [decide_eq_true_eq] at hin
      cases count with
      | zero => omega
      | succ count =>
        have hrest := @ih count (by
          rw [Nat.succ_mul] at hlast
          omega)
        omega
    · exact ih (by omega)

/-- A window as long as `count` intervals holds at most one event more. -/
theorem Spaced.within_le {interval deadline : Nat} {times : List Nat}
    (h : Spaced interval deadline times) (first count : Nat) :
    within first (first + count * interval) times ≤ count + 1 := by
  induction h with
  | nil deadline => exact Nat.zero_le _
  | @cons deadline next time rest hdue hafter hnext hrest ih =>
    rw [within, List.countP_cons]
    split
    · rename_i hin
      simp only [decide_eq_true_eq] at hin
      have hlast : first + count * interval < next + count * interval := by omega
      have hrest := hrest.within_of_lt first hlast
      rw [within] at hrest
      omega
    · exact ih

/-- The events fall one to an interval, in order, from the start on. -/
inductive Filling (interval : Nat) : Nat → List Nat → Prop
  | nil (start : Nat) : Filling interval start []
  | cons {start time : Nat} {rest : List Nat} (hdue : start ≤ time)
      (hbefore : time < start + interval) (hrest : Filling interval (start + interval) rest) :
      Filling interval start (time :: rest)

theorem Filling.get {interval start : Nat} {times : List Nat} (h : Filling interval start times)
    {index time : Nat} (htime : times[index]? = some time) :
    start + index * interval ≤ time ∧ time < start + (index + 1) * interval := by
  induction h generalizing index with
  | nil start => simp at htime
  | @cons start first rest hdue hbefore hrest ih =>
    cases index with
    | zero =>
      simp only [List.getElem?_cons_zero, Option.some.injEq] at htime
      subst htime
      omega
    | succ index =>
      rw [List.getElem?_cons_succ] at htime
      have := ih htime
      rw [Nat.succ_mul, Nat.succ_mul (index + 1)]
      omega

end Library.Cadence
