import VivaGenicam.Library.Cadence

/-!
When the viewer's next frame is drawn. Watched, frames follow deadlines an
interval apart; unwatched, the stored frame is still refreshed now and then.
Instants and durations are in nanoseconds.
-/

namespace VivaGenicam.Studio

open Library.Cadence

structure FramePacer where
  interval : Nat
  last : Option Nat
  next : Option Nat
deriving DecidableEq, Repr

/-- `Instant::checked_add`, for sums that an instant can hold. -/
def checkedAdd (instant duration : Nat) : Option Nat := some (instant + duration)

namespace FramePacer

/-- How often the stored frame is refreshed while nobody watches. -/
def unwatchedInterval : Nat := 1000000000

def new (interval : Nat) : FramePacer := ⟨interval, none, none⟩

/-- Whether a frame arriving at `now` should be drawn. -/
def isDue (pacer : FramePacer) (watched : Bool) (now : Nat) : Bool :=
  let byLast := pacer.last.all fun last =>
    (if watched then pacer.interval else max pacer.interval unwatchedInterval) ≤ now - last
  if watched then
    match pacer.next with
    | some next => next ≤ now
    | none => byLast
  else byLast

/-- A frame admitted at `now` was drawn. After a whole missed interval the cadence
starts anew. -/
def sent (pacer : FramePacer) (now : Nat) : FramePacer :=
  { pacer with
    next := ((pacer.next.filter fun next => next ≤ now ∧ now - next < pacer.interval).bind
      fun next => checkedAdd next pacer.interval).or (checkedAdd now pacer.interval)
    last := some now }

end FramePacer

/-- A frame's arrival, and whether a viewer is connected then. -/
structure Arrival where
  now : Nat
  watched : Bool
deriving DecidableEq, Repr

/-- The arrivals that are drawn: those due, and only those, are sent. -/
def drawn : FramePacer → List Arrival → List Arrival
  | _, [] => []
  | pacer, arrival :: rest =>
    if pacer.isDue arrival.watched arrival.now then
      arrival :: drawn (pacer.sent arrival.now) rest
    else drawn pacer rest

def times (arrivals : List Arrival) : List Nat := arrivals.map Arrival.now

variable {pacer : FramePacer}

namespace FramePacer

/-- What every pacer in use keeps: nothing was drawn yet, or the next deadline is
after the last draw, by an interval at most. -/
inductive Kept (interval : Nat) : FramePacer → Prop
  | fresh : Kept interval (new interval)
  | paced {last next : Nat} (hafter : last < next) (hwithin : next ≤ last + interval) :
      Kept interval ⟨interval, some last, some next⟩

variable {interval : Nat}

/-- The deadline a pacer holds its next draw to. -/
def deadline (pacer : FramePacer) : Nat := pacer.next.getD 0

theorem sent_new (now : Nat) :
    (new interval).sent now = ⟨interval, some now, some (now + interval)⟩ := rfl

variable {last now : Nat}

theorem sent_kept {next : Nat} (hdue : next ≤ now) (hsoon : now - next < interval) :
    sent ⟨interval, some last, some next⟩ now =
      ⟨interval, some now, some (next + interval)⟩ := by
  have hfilter : (some next).filter (fun next => decide (next ≤ now ∧ now - next < interval)) =
      some next := by
    rw [Option.filter_some, if_pos (by simpa using ⟨hdue, hsoon⟩)]
  rw [sent]
  dsimp only
  rw [hfilter]
  rfl

theorem sent_anew {next : Nat} (hmissed : ¬ (next ≤ now ∧ now - next < interval)) :
    sent ⟨interval, some last, some next⟩ now =
      ⟨interval, some now, some (now + interval)⟩ := by
  have hfilter : (some next).filter (fun next => decide (next ≤ now ∧ now - next < interval)) =
      none := by
    rw [Option.filter_some, if_neg (by simpa using hmissed)]
  rw [sent]
  dsimp only
  rw [hfilter]
  rfl

theorem Kept.sent {pacer : FramePacer} (h : Kept interval pacer) (hpos : 0 < interval)
    (now : Nat) :
    Kept interval (pacer.sent now) ∧ (pacer.sent now).last = some now ∧
      now < (pacer.sent now).deadline := by
  have hanew : Kept interval ⟨interval, some now, some (now + interval)⟩ :=
    .paced (by omega) le_rfl
  cases h with
  | fresh =>
    rw [sent_new]
    exact ⟨hanew, rfl, by simpa [deadline] using hpos⟩
  | @paced last next hafter hwithin =>
    by_cases hkept : next ≤ now ∧ now - next < interval
    · rw [sent_kept hkept.1 hkept.2]
      have hnext : now < next + interval := by omega
      exact ⟨.paced hnext (by omega), rfl, hnext⟩
    · rw [sent_anew hkept]
      exact ⟨hanew, rfl, by simpa [deadline] using hpos⟩

theorem Kept.deadline_sent (h : Kept interval pacer) (hdue : pacer.deadline ≤ now) :
    pacer.deadline + interval ≤ (pacer.sent now).deadline := by
  cases h with
  | fresh =>
    rw [sent_new]
    simp [deadline, new]
  | @paced last next hafter hwithin =>
    simp only [deadline, Option.getD_some] at hdue
    by_cases hsoon : now - next < interval
    · rw [sent_kept hdue hsoon]
      exact le_rfl
    · rw [sent_anew fun hkept => hsoon hkept.2]
      simpa [deadline] using hdue

theorem Kept.deadline_le (h : Kept interval pacer) (hpos : 0 < interval)
    {watched : Bool} (hdue : pacer.isDue watched now = true) :
    pacer.deadline ≤ now := by
  cases h with
  | fresh => exact Nat.zero_le _
  | @paced last next hafter hwithin =>
    cases watched with
    | true => simpa [isDue, deadline] using hdue
    | false =>
      simp only [isDue, deadline, Option.getD_some, Option.all_some, decide_eq_true_eq,
        Bool.false_eq_true, if_false] at hdue ⊢
      omega

theorem Kept.last_le (h : Kept interval pacer)
    (hlast : pacer.last = some last) (hdue : pacer.isDue false now = true) :
    last + max interval unwatchedInterval ≤ now := by
  cases h with
  | fresh => cases hlast
  | @paced last next hafter hwithin =>
    cases hlast
    have hsecond : 0 < unwatchedInterval := by decide
    simp only [isDue, Option.all_some, decide_eq_true_eq, Bool.false_eq_true, if_false] at hdue
    omega

end FramePacer

section Runs

variable {interval : Nat}

theorem drawn_spaced (hpos : 0 < interval) (hkept : pacer.Kept interval) (arrivals : List Arrival) :
    Spaced interval pacer.deadline (times (drawn pacer arrivals)) := by
  induction arrivals generalizing pacer with
  | nil => exact .nil _
  | cons arrival rest ih =>
    rw [drawn]
    split
    · rename_i hdue
      obtain ⟨hsent, -, hafter⟩ := hkept.sent hpos arrival.now
      have hreached := hkept.deadline_le hpos hdue
      exact .cons hreached hafter (hkept.deadline_sent hreached) (ih hsent)
    · exact ih hkept

/-- Each draw made unwatched is late enough after the draw before it. -/
def Unhurried (interval : Nat) (before after : Arrival) : Prop :=
  after.watched = false → before.now + max interval FramePacer.unwatchedInterval ≤ after.now

theorem drawn_unhurried (hpos : 0 < interval)
    (hkept : pacer.Kept interval) (arrivals : List Arrival) {before : Arrival}
    (hlast : pacer.last = some before.now) :
    List.IsChain (Unhurried interval) (before :: drawn pacer arrivals) := by
  induction arrivals generalizing pacer before with
  | nil => exact .singleton _
  | cons arrival rest ih =>
    rw [drawn]
    split
    · rename_i hdue
      obtain ⟨hsent, hnow, -⟩ := hkept.sent hpos arrival.now
      refine .cons_cons (fun hunwatched => ?_) (ih hsent hnow)
      rw [hunwatched] at hdue
      exact hkept.last_le hlast hdue
    · exact ih hkept hlast

theorem drawn_new_unhurried (hpos : 0 < interval) (arrivals : List Arrival) :
    List.IsChain (Unhurried interval) (drawn (.new interval) arrivals) := by
  cases arrivals with
  | nil => exact .nil
  | cons arrival rest =>
    have hdue : (FramePacer.new interval).isDue arrival.watched arrival.now = true := by
      cases hwatched : arrival.watched <;> rfl
    obtain ⟨hsent, hnow, -⟩ := (@FramePacer.Kept.fresh interval).sent hpos arrival.now
    rw [drawn, if_pos hdue]
    exact drawn_unhurried hpos hsent rest hnow

/-- Arrivals never more than an interval apart, each with a viewer connected. -/
def Steady (interval : Nat) (before after : Arrival) : Prop :=
  after.watched = true ∧ after.now ≤ before.now + interval

/-- From an arrival before the deadline on, the draws fill the intervals from the
deadline on, and go as far as the arrivals do. -/
theorem drawn_filling {last next : Nat} {before : Arrival} {arrivals : List Arrival}
    (hbefore : before.now < next)
    (hsteady : List.IsChain (Steady interval) (before :: arrivals)) :
    Filling interval next (times (drawn ⟨interval, some last, some next⟩ arrivals)) ∧
      ∀ arrival ∈ arrivals, ∀ index, next + index * interval ≤ arrival.now →
        index < (drawn ⟨interval, some last, some next⟩ arrivals).length := by
  induction arrivals generalizing last next before with
  | nil => exact ⟨.nil _, by simp⟩
  | cons arrival rest ih =>
    rw [List.isChain_cons_cons] at hsteady
    obtain ⟨⟨hwatched, hgap⟩, hrest⟩ := hsteady
    have hdue : FramePacer.isDue ⟨interval, some last, some next⟩ arrival.watched arrival.now =
        decide (next ≤ arrival.now) := by
      rw [hwatched]
      rfl
    rw [drawn, hdue]
    by_cases hreached : next ≤ arrival.now
    · have hsoon : arrival.now - next < interval := by omega
      rw [if_pos (by simpa using hreached), FramePacer.sent_kept hreached hsoon]
      obtain ⟨hfilling, hfar⟩ := @ih arrival.now (next + interval) arrival (by omega) hrest
      refine ⟨.cons hreached (by omega) hfilling, ?_⟩
      intro other hmem index hindex
      rw [List.length_cons]
      cases index with
      | zero => exact Nat.succ_pos _
      | succ index =>
        rw [Nat.succ_mul] at hindex
        rcases List.mem_cons.mp hmem with rfl | hmem
        · have : interval ≤ index * interval + interval := Nat.le_add_left _ _
          omega
        · exact Nat.succ_lt_succ (hfar other hmem index (by omega))
    · rw [if_neg (by simpa using hreached)]
      obtain ⟨hfilling, hfar⟩ := @ih last next arrival (by omega) hrest
      refine ⟨hfilling, ?_⟩
      intro other hmem index hindex
      rcases List.mem_cons.mp hmem with rfl | hmem
      · omega
      · exact hfar other hmem index hindex

/-- The draws follow the display's cadence. However the viewers come and go, a window
as long as some intervals holds at most one draw more, and a draw made unwatched is a
second and an interval at least after the draw before it. Under a viewer, with no gap
between arrivals longer than an interval, there is exactly one draw to an interval,
counted from the first. -/
theorem draws_keep_the_cadence (hpos : 0 < interval) (arrivals : List Arrival) :
    (∀ start count, within start (start + count * interval)
      (times (drawn (.new interval) arrivals)) ≤ count + 1) ∧
    List.IsChain (Unhurried interval) (drawn (.new interval) arrivals) ∧
    ∀ first rest, arrivals = first :: rest → first.watched = true →
      List.IsChain (Steady interval) arrivals →
      (∀ index time, (times (drawn (.new interval) arrivals))[index]? = some time →
        first.now + index * interval ≤ time ∧ time < first.now + (index + 1) * interval) ∧
      ∀ arrival ∈ arrivals, ∀ index, first.now + index * interval ≤ arrival.now →
        index < (drawn (.new interval) arrivals).length := by
  refine ⟨(drawn_spaced hpos .fresh arrivals).within_le, drawn_new_unhurried hpos arrivals, ?_⟩
  rintro first rest rfl hwatched hsteady
  have hdue : (FramePacer.new interval).isDue first.watched first.now = true := by
    rw [hwatched]
    rfl
  obtain ⟨hfilling, hfar⟩ := @drawn_filling interval first.now (first.now + interval)
    first rest (by omega) hsteady
  rw [drawn, if_pos hdue, FramePacer.sent_new]
  refine ⟨fun index time htime => Filling.get (.cons le_rfl (by omega) hfilling) htime, ?_⟩
  intro arrival hmem index hindex
  rw [List.length_cons]
  cases index with
  | zero => exact Nat.succ_pos _
  | succ index =>
    rw [Nat.succ_mul] at hindex
    rcases List.mem_cons.mp hmem with rfl | hmem
    · omega
    · exact Nat.succ_lt_succ (hfar arrival hmem index (by omega))

theorem draws_keep_the_cadence_at_thirty :
    within 0 (0 + 2 * 33) (times (drawn (.new 33) [⟨0, true⟩, ⟨20, true⟩, ⟨40, false⟩,
      ⟨66, true⟩])) ≤ 3 :=
  (draws_keep_the_cadence (by decide) _).1 0 2

end Runs

end VivaGenicam.Studio
