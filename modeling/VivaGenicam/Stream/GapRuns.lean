import VivaGenicam.Library.Checked
import VivaGenicam.Stream.Ledger

/-!
What the gaps of a block are after any calls: where each comes from, why an id
below the frontier is in none, and that stepping an id up or down by one keeps
it within 32 bits.
-/

namespace VivaGenicam.Stream

open Library Library.Transition

def ResendCall.InRange : ResendCall → Prop
  | .arrived id _ | .trailer id | .unavailable id _ => id < 2 ^ 32
  | .due _ _ _ => True

/-- The call says that packet `id` arrived, is gone, or is not before the
trailer. -/
def ResendCall.Settles (id : Nat) : ResendCall → Prop
  | .arrived other _ => other = id
  | .trailer last => last ≤ id
  | .unavailable other .gone => other = id
  | .unavailable other .goneWithPrevious => id ≤ other
  | .due _ _ _ => False

/-- A call, and the configuration it is made with. -/
abbrev ResendEvent := ResendConfig × ResendCall

namespace ResendState

def call (state : ResendState) (event : ResendEvent) : ResendState :=
  match event.2 with
  | .arrived id now => (state.arrived id now event.1.delay).2
  | .trailer id => state.trailer id
  | .unavailable id answer => (state.unavailable id answer).2
  | .due now packets block => (state.due now event.1 packets block).2.1

/-- The state of a block just started, after `events`. -/
def after (events : List ResendEvent) : ResendState := run call {} events

end ResendState

/-! ### The same calls with every step of an id checked -/

/-- `id + 1` on 32 bits. -/
def stepUp (id : Nat) : Option Nat := if id + 1 < 2 ^ 32 then some (id + 1) else none

def Gap.withoutChecked (gap : Gap) (id : Nat) : Option (List Gap) :=
  match id == gap.first, id == gap.last with
  | true, true => some []
  | true, false => do
    let first ← stepUp id
    some [{ gap with first }]
  | false, true => do
    let last ← Checked.sub id 1
    some [{ gap with last }]
  | false, false => do
    let last ← Checked.sub id 1
    let first ← stepUp id
    some [{ gap with last }, { gap with first }]

def removeFromChecked (id : Nat) : List Gap → Option (List Gap)
  | [] => some []
  | gap :: rest =>
    if gap.contains id then do
      let pieces ← gap.withoutChecked id
      some (pieces ++ rest)
    else do
      let rest ← removeFromChecked id rest
      some (gap :: rest)

def closeThroughChecked (id : Nat) : List Gap → Option (List Gap)
  | [] => some []
  | gap :: rest => do
    let kept ← closeThroughChecked id rest
    if gap.first > id then
      some (gap :: kept)
    else do
      -- how many ids are gone
      let _ ← Checked.sub (min gap.last id) gap.first
      if gap.last ≤ id then
        some kept
      else do
        let first ← stepUp id
        some ({ gap with first } :: kept)

def ResendState.callChecked (state : ResendState) (event : ResendEvent) : Option ResendState :=
  match event.2 with
  | .arrived id now =>
    if id ≥ state.frontier then
      if id > state.frontier then do
        let last ← Checked.sub id 1
        let opened :=
          { first := state.frontier, last, requests := 0, due := some (now + event.1.delay) }
        some { state with gaps := state.gaps ++ [opened], frontier := nextId id }
      else
        some { state with frontier := nextId id }
    else do
      let gaps ← removeFromChecked id state.gaps
      some { state with gaps }
  | .unavailable id .gone =>
    if !state.gaps.any (fun gap => gap.contains id && decide (gap.requests > 0)) then
      some state
    else do
      let gaps ← removeFromChecked id state.gaps
      some { state with gaps }
  | .unavailable id .goneWithPrevious => do
    let gaps ← closeThroughChecked id state.gaps
    some { state with gaps }
  -- both saturate where they step an id
  | .trailer id => some (state.trailer id)
  | .due now packets block => some (state.due now event.1 packets block).2.1

/-- One arrival overtook all of the gap. Since then every id of it was missing,
in one gap, and none arrived. -/
def Gap.OpenedIn (gap : Gap) (events : List ResendEvent) : Prop :=
  ∃ before config later now since,
    events = before ++ (config, .arrived later now) :: since ∧
    (ResendState.after before).frontier ≤ gap.first ∧ gap.last < later ∧
    (∀ known, known <+: since →
      ∃ outer ∈ (ResendState.after (before ++ (config, .arrived later now) :: known)).gaps,
        outer.first ≤ gap.first ∧ gap.last ≤ outer.last) ∧
    ∀ event ∈ since, ∀ id time, event.2 = .arrived id time → gap.contains id = false

structure ResendState.GapLaws (events : List ResendEvent) (state : ResendState) : Prop where
  /-- The gaps are not empty, in order, apart from each other and below the
  frontier. -/
  ordered : Ordered state.gaps state.frontier
  opened : ∀ gap ∈ state.gaps, gap.OpenedIn events
  /-- An id below the frontier is in one gap, or a call says why it is not. -/
  covered : ∀ id < state.frontier, state.gaps.countP (·.contains id) = 1 ∨
    state.gaps.countP (·.contains id) = 0 ∧ ∃ event ∈ events, event.2.Settles id
  /-- No step of an id leaves the 32 bits, whatever is called next. -/
  checked : ∀ event, state.callChecked event = some (state.call event)

theorem Ordered.countP_contains {gaps : List Gap} {frontier : Nat} (h : Ordered gaps frontier)
    (id : Nat) :
    gaps.countP (·.contains id) = if (pendingOf gaps id).isSome = true then 1 else 0 := by
  induction gaps with
  | nil => rfl
  | cons gap rest ih =>
    have hrest := (Ordered.cons_iff.mp h).2.2.2
    rw [List.countP_cons, ih hrest, pendingOf_cons]
    split
    · rename_i hsome
      split
      · rename_i hid
        rw [h.rest_before ((gap.contains_iff id).mp hid).2] at hsome
        cases hsome
      · rfl
    · split
      · rfl
      · rfl

section Checks

variable {gap : Gap} {gaps : List Gap} {frontier id : Nat}

theorem stepUp_eq (h : id + 1 < 2 ^ 32) : stepUp id = some (id + 1) := if_pos h

theorem Gap.withoutChecked_eq (hid : gap.contains id = true) (hlast : gap.last < 2 ^ 32) :
    gap.withoutChecked id = some (gap.without id) := by
  rw [Gap.contains_iff] at hid
  unfold withoutChecked without
  cases hfirst : id == gap.first <;> cases hends : id == gap.last <;>
    simp only [beq_iff_eq, beq_eq_false_iff_ne] at hfirst hends
  · dsimp only
    rw [Checked.sub_eq (by omega), stepUp_eq (by omega)]
    rfl
  · dsimp only
    rw [Checked.sub_eq (by omega)]
    rfl
  · dsimp only
    rw [stepUp_eq (by omega)]
    rfl
  · rfl

theorem removeFromChecked_eq (h : ∀ gap ∈ gaps, gap.last < 2 ^ 32) :
    removeFromChecked id gaps = some (removeFrom id gaps).2 := by
  induction gaps with
  | nil => rfl
  | cons gap rest ih =>
    obtain ⟨hlast, hrest⟩ := List.forall_mem_cons.mp h
    unfold removeFromChecked removeFrom
    split
    · rename_i hid
      rw [Gap.withoutChecked_eq hid hlast]
      rfl
    · rw [ih hrest]
      rfl

theorem closeThroughChecked_eq (h : Ordered gaps frontier) (hfrontier : frontier < 2 ^ 32) :
    closeThroughChecked id gaps = some (closeThrough id gaps).2 := by
  induction gaps with
  | nil => rfl
  | cons gap rest ih =>
    obtain ⟨hnonempty, hbelow, -, hrest⟩ := Ordered.cons_iff.mp h
    unfold closeThroughChecked closeThrough
    rw [ih hrest]
    simp only [Option.bind_eq_bind, Option.bind_some]
    split
    · rfl
    · rw [Checked.sub_eq (by omega)]
      simp only [Option.bind_some]
      split
      · rfl
      · rw [stepUp_eq (by omega)]
        rfl

end Checks

variable (events : List ResendEvent)

namespace ResendState

theorem Sound.last_lt {state : ResendState} (h : state.Sound) :
    ∀ gap ∈ state.gaps, gap.last < 2 ^ 32 :=
  fun gap hgap => (h.ordered.below gap hgap).trans h.frontier_lt

theorem callChecked_eq {state : ResendState} (h : state.Sound) (event : ResendEvent) :
    state.callChecked event = some (state.call event) := by
  obtain ⟨config, call⟩ := event
  unfold callChecked ResendState.call
  cases call with
  | arrived id now =>
    dsimp only
    unfold arrived
    split
    · split
      · rw [Checked.sub_eq (by omega)]
        rfl
      · rfl
    · rw [removeFromChecked_eq h.last_lt]
      rfl
  | trailer id => rfl
  | unavailable id answer =>
    cases answer with
    | gone =>
      dsimp only
      unfold unavailable
      dsimp only
      split
      · rfl
      · rw [removeFromChecked_eq h.last_lt]
        rfl
    | goneWithPrevious =>
      dsimp only
      rw [closeThroughChecked_eq h.ordered h.frontier_lt]
      rfl
  | due now packets block => rfl

/-- What one call makes of the gaps: each is a piece of an earlier one or was
just opened, and an id the call takes out of them is settled by it. -/
structure CallSpec (state : ResendState) (event : ResendEvent) (next : ResendState) : Prop where
  sound : next.Sound
  pieces : ∀ piece ∈ next.gaps,
    (∃ gap ∈ state.gaps, gap.first ≤ piece.first ∧ piece.last ≤ gap.last) ∨
      ∃ later now, event.2 = .arrived later now ∧ state.frontier ≤ piece.first ∧
        piece.last < later
  not_arrived : ∀ id now, event.2 = .arrived id now → next.pending id = none
  settled : ∀ id < next.frontier, next.pending id = none →
    event.2.Settles id ∨ id < state.frontier ∧ state.pending id = none

variable {state : ResendState}

theorem CallSpec.of_carved {event : ResendEvent} {next : ResendState} (hsound : next.Sound)
    (hcarved : Carved state.gaps next.gaps) (hfrontier : next.frontier ≤ state.frontier)
    (harrived : ∀ id now, event.2 = .arrived id now → next.pending id = none)
    (hpending : ∀ id, next.pending id = none → event.2.Settles id ∨ state.pending id = none) :
    state.CallSpec event next where
  sound := hsound
  pieces := fun piece hpiece => .inl (hcarved piece hpiece)
  not_arrived := harrived
  settled := by
    intro id hid hnone
    rcases hpending id hnone with hsettles | hbefore
    · exact .inl hsettles
    · exact .inr ⟨hid.trans_le hfrontier, hbefore⟩

theorem call_arrived (h : state.Sound) (config : ResendConfig) {id : Nat} (now : Instant)
    (hid : id < 2 ^ 32) :
    state.CallSpec (config, .arrived id now) (state.call (config, .arrived id now)) := by
  by_cases hnew : state.frontier ≤ id
  · obtain ⟨-, hsound, hfrontier, hpending⟩ := arrived_new h now config.delay hid hnew
    refine ⟨hsound, fun piece hpiece => ?_, ?_, fun other hother hnone => ?_⟩
    · -- the last gap may be new
      unfold call arrived at hpiece
      dsimp only at hpiece
      rw [if_pos hnew] at hpiece
      dsimp only at hpiece
      split at hpiece
      · rcases List.mem_append.mp hpiece with hold | hopened
        · exact .inl ⟨piece, hold, le_rfl, le_rfl⟩
        · rw [List.mem_singleton] at hopened
          subst hopened
          exact .inr ⟨id, now, rfl, le_rfl, by dsimp only; omega⟩
      · exact .inl ⟨piece, hpiece, le_rfl, le_rfl⟩
    · intro other time heq
      cases heq
      change (state.arrived id now config.delay).2.pending id = none
      rw [hpending, if_neg (by omega)]
      exact h.ordered.pendingOf_beyond hnew
    · change other < (state.arrived id now config.delay).2.frontier at hother
      change (state.arrived id now config.delay).2.pending other = none at hnone
      rw [hpending] at hnone
      rw [hfrontier, nextId] at hother
      split at hnone
      · cases hnone
      · rename_i hbefore
        by_cases heq : id = other
        · exact .inl heq
        · exact .inr ⟨by omega, hnone⟩
  · obtain ⟨-, hsound, hfrontier, hpending⟩ := arrived_old h now config.delay (Nat.lt_of_not_le hnew)
    refine .of_carved hsound ?_ hfrontier.le ?_ fun other hnone => ?_
    · change Carved state.gaps (state.arrived id now config.delay).2.gaps
      unfold arrived
      rw [if_neg hnew]
      exact removeFrom_carved id state.gaps
    · intro other time heq
      cases heq
      exact (hpending id).trans (if_pos rfl)
    · change (state.arrived id now config.delay).2.pending other = none at hnone
      rw [hpending] at hnone
      split at hnone
      · rename_i heq
        exact .inl heq.symm
      · exact .inr hnone

theorem call_trailer (h : state.Sound) (config : ResendConfig) (id : Nat) :
    state.CallSpec (config, .trailer id) (state.trailer id) := by
  obtain ⟨hsound, hfrontier, hpending⟩ := trailer_spec h id
  refine .of_carved hsound (cutAt_carved h.ordered) ?_ nofun fun other hnone => ?_
  · rw [hfrontier]
    exact min_le_left _ _
  · rw [hpending] at hnone
    split at hnone
    · exact .inr hnone
    · rename_i hlate
      exact .inl (Nat.le_of_not_lt hlate)

theorem call_unavailable (h : state.Sound) (config : ResendConfig) (id : Nat) (answer : Answer) :
    state.CallSpec (config, .unavailable id answer) (state.unavailable id answer).2 := by
  have hfrontier := (state.unavailable_kept id answer).2.2
  cases answer with
  | gone =>
    obtain ⟨hsound, -, hpending⟩ := unavailable_gone h id
    refine .of_carved hsound ?_ hfrontier.le nofun fun other hnone => ?_
    · unfold unavailable
      dsimp only
      split
      · exact .refl _
      · exact removeFrom_carved id state.gaps
    · rw [hpending] at hnone
      split at hnone
      · rename_i hgone
        exact .inl hgone.1.symm
      · exact .inr hnone
  | goneWithPrevious =>
    obtain ⟨hordered, hpending⟩ := closeThrough_spec id h.ordered
    refine .of_carved ⟨hordered, h.frontier_lt⟩ (closeThrough_carved id state.gaps) hfrontier.le
      nofun fun other hnone => ?_
    change pendingOf (closeThrough id state.gaps).2 other = none at hnone
    rw [hpending] at hnone
    split at hnone
    · rename_i hgone
      exact .inl hgone
    · exact .inr hnone

theorem call_due (h : state.Sound) (config : ResendConfig) (now : Instant) (packets : Nat)
    (block : Nat × Bool) :
    state.CallSpec (config, .due now packets block) (state.due now config packets block).2.1 := by
  unfold due
  split
  · exact .of_carved h (.refl _) le_rfl nofun fun _ hnone => .inr hnone
  · obtain ⟨hordered, hspec⟩ := dueGaps_spec now config (budgetOf packets config.budget) block
      h.ordered state.asked
    refine .of_carved ⟨hordered, h.frontier_lt⟩ (dueGaps_carved _ _ _ _ _ _) le_rfl nofun
      fun other hnone => .inr ?_
    have hmap := hspec.map other
    change pendingOf _ other = none at hnone
    dsimp only at hnone
    rw [hmap] at hnone
    split at hnone
    · exact Option.map_eq_none_iff.mp hnone
    · exact hnone

theorem call_spec (h : state.Sound) (event : ResendEvent) (hevent : event.2.InRange) :
    state.CallSpec event (state.call event) := by
  obtain ⟨config, call⟩ := event
  cases call with
  | arrived id now => exact call_arrived h config now hevent
  | trailer id => exact call_trailer h config id
  | unavailable id answer => exact call_unavailable h config id answer
  | due now packets block => exact call_due h config now packets block

theorem after_snoc (event : ResendEvent) :
    after (events ++ [event]) = (after events).call event := by
  unfold after
  rw [run_append]
  rfl

theorem opened_snoc {events : List ResendEvent} {event : ResendEvent}
    (hspec : (after events).CallSpec event (after (events ++ [event])))
    (hopened : ∀ gap ∈ (after events).gaps, gap.OpenedIn events) :
    ∀ gap ∈ (after (events ++ [event])).gaps, gap.OpenedIn (events ++ [event]) := by
  intro gap hgap
  have harrived : ∀ id now, event.2 = .arrived id now → gap.contains id = false := by
    intro id now heq
    have hnone := hspec.not_arrived id now heq
    by_contra hid
    rw [Bool.not_eq_false] at hid
    rw [pending, hspec.sound.ordered.pendingOf_mem hgap hid] at hnone
    cases hnone
  rcases hspec.pieces gap hgap with ⟨whole, hwhole, hfirst, hlast⟩ |
    ⟨later, now, heq, hfirst, hlast⟩
  · obtain ⟨before, config, later, now, since, rfl, hfrontier, hlater, hmissing, hnone⟩ :=
      hopened whole hwhole
    refine ⟨before, config, later, now, since ++ [event], by simp, hfrontier.trans hfirst,
      hlast.trans_lt hlater, fun known hknown => ?_, fun other hother id time hid => ?_⟩
    · rcases List.prefix_concat_iff.mp hknown with rfl | hearlier
      · exact ⟨gap, by simpa using hgap, le_rfl, le_rfl⟩
      · obtain ⟨outer, houter, hbefore, hafter⟩ := hmissing known hearlier
        exact ⟨outer, houter, hbefore.trans hfirst, hlast.trans hafter⟩
    · rcases List.mem_append.mp hother with hold | hnew
      · have hwholeNot := hnone other hold id time hid
        by_contra hin
        rw [Bool.not_eq_false, Gap.contains_iff] at hin
        have hwholeIn : whole.contains id = true :=
          (whole.contains_iff id).mpr ⟨hfirst.trans hin.1, hin.2.trans hlast⟩
        rw [hwholeNot] at hwholeIn
        cases hwholeIn
      · rw [List.mem_singleton] at hnew
        subst hnew
        exact harrived id time hid
  · obtain ⟨config, call⟩ := event
    dsimp only at heq
    subst heq
    refine ⟨events, config, later, now, [], rfl, hfirst, hlast, fun known hknown => ?_,
      fun other hother => by cases hother⟩
    rw [List.prefix_nil] at hknown
    subst hknown
    exact ⟨gap, hgap, le_rfl, le_rfl⟩

theorem sound_after (hevents : ∀ event ∈ events, event.2.InRange) :
    (after events).Sound := by
  induction events using List.reverseRecOn with
  | nil => exact ⟨.nil _, Nat.two_pow_pos 32⟩
  | append_singleton events event ih =>
    rw [List.forall_mem_append, List.forall_mem_singleton] at hevents
    rw [after_snoc]
    exact (call_spec (ih hevents.1) event hevents.2).sound

theorem opened_after (hevents : ∀ event ∈ events, event.2.InRange) :
    ∀ gap ∈ (after events).gaps, gap.OpenedIn events := by
  induction events using List.reverseRecOn with
  | nil => exact nofun
  | append_singleton events event ih =>
    rw [List.forall_mem_append, List.forall_mem_singleton] at hevents
    apply opened_snoc _ (ih hevents.1)
    rw [after_snoc]
    exact call_spec (sound_after events hevents.1) event hevents.2

theorem settled_after (hevents : ∀ event ∈ events, event.2.InRange) :
    ∀ id < (after events).frontier, (after events).pending id = none →
      ∃ event ∈ events, event.2.Settles id := by
  induction events using List.reverseRecOn with
  | nil => exact nofun
  | append_singleton events event ih =>
    rw [List.forall_mem_append, List.forall_mem_singleton] at hevents
    intro id hid hnone
    rw [after_snoc] at hid hnone
    have hspec := call_spec (sound_after events hevents.1) event hevents.2
    rcases hspec.settled id hid hnone with hsettles | ⟨hbefore, hmissing⟩
    · exact ⟨event, by simp, hsettles⟩
    · obtain ⟨other, hother, hsettles⟩ := ih hevents.1 id hbefore hmissing
      exact ⟨other, List.mem_append_left _ hother, hsettles⟩

end ResendState

/-- Whatever is called on a block's resend state, its gaps are in order and
apart below the frontier, hold what is still missing since an arrival overtook
it, and are edited without leaving the 32 bits of an id. -/
theorem gap_laws (hevents : ∀ event ∈ events, event.2.InRange) :
    (ResendState.after events).GapLaws events where
  ordered := (ResendState.sound_after events hevents).ordered
  opened := ResendState.opened_after events hevents
  covered := by
    intro id hid
    rw [(ResendState.sound_after events hevents).ordered.countP_contains id]
    split
    · exact .inl rfl
    · rename_i hnone
      rw [Bool.not_eq_true, Option.isSome_eq_false_iff, Option.isNone_iff_eq_none] at hnone
      exact .inr ⟨rfl, ResendState.settled_after events hevents id hid hnone⟩
  checked := ResendState.callChecked_eq (ResendState.sound_after events hevents)

/-- Both ends of the id range, a split, and a trailer that lowers the frontier. -/
def edgeEvents : List ResendEvent :=
  [.arrived 4 0, .arrived 2 5, .arrived (2 ^ 32 - 1) 9, .unavailable 0 .goneWithPrevious,
    .trailer 7, .due 4000000 9 (1, false)].map (ResendConfig.default, ·)

theorem gap_laws_edge : (ResendState.after edgeEvents).GapLaws edgeEvents := by
  apply gap_laws edgeEvents
  simp [edgeEvents, ResendCall.InRange]

end VivaGenicam.Stream
