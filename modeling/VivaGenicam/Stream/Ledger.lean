import VivaGenicam.Library.Transition
import VivaGenicam.Stream.Gaps

/-!
Resend accounting over whole runs. A ledger beside the resend state keeps what
became missing and when, what was asked for and when, and which packets asked
for came to an outcome; the laws say what the counters and the limits come to
packet by packet.
-/

namespace VivaGenicam.Stream

open Library.Transition

variable {id : Nat}

namespace ResendState

/-- What is remembered of a packet, if it is missing. -/
def pending (state : ResendState) (id : Nat) : Option Pending := pendingOf state.gaps id

/-- The gaps are in order, below a frontier of 32 bits. -/
structure Sound (state : ResendState) : Prop where
  ordered : Ordered state.gaps state.frontier
  frontier_lt : state.frontier < 2 ^ 32

section Operations

variable {state : ResendState} (h : state.Sound)

include h

theorem arrived_new (now : Instant) (delay : Duration) (hid : id < 2 ^ 32)
    (hnew : state.frontier ≤ id) :
    (state.arrived id now delay).1 = false ∧ (state.arrived id now delay).2.Sound ∧
      (state.arrived id now delay).2.frontier = nextId id ∧
      ∀ other, (state.arrived id now delay).2.pending other =
        if state.frontier ≤ other ∧ other < id then
          some { requests := 0, due := some (now + delay) }
        else state.pending other := by
  have hbeyond : ∀ other, state.frontier ≤ other → pendingOf state.gaps other = none :=
    fun other => h.ordered.pendingOf_beyond
  have hle : state.frontier ≤ nextId id := by
    unfold nextId
    omega
  unfold arrived
  rw [if_pos hnew]
  by_cases hgap : id > state.frontier
  · rw [if_pos hgap]
    have hopened : Ordered [⟨state.frontier, id - 1, 0, some (now + delay)⟩] (nextId id) := by
      refine Ordered.cons_iff.mpr ⟨by dsimp only; omega, ?_, by simp, .nil _⟩
      unfold nextId
      dsimp only
      omega
    refine ⟨rfl, ⟨(h.ordered.mono hle).append hopened fun first hfirst second hsecond => ?_, ?_⟩,
      rfl, fun other => ?_⟩
    · rw [List.mem_singleton] at hsecond
      subst hsecond
      exact h.ordered.below first hfirst
    · unfold nextId
      dsimp only
      omega
    · simp only [pending, pendingOf_append, pendingOf_cons, pendingOf_nil, Gap.contains_iff]
      by_cases hother : state.frontier ≤ other
      · rw [hbeyond other hother]
        grind [Gap.pending]
      · simp [hother]
  · rw [if_neg hgap]
    refine ⟨rfl, ⟨h.ordered.mono hle, ?_⟩, rfl, fun other => ?_⟩
    · unfold nextId
      dsimp only
      omega
    · rw [if_neg (by omega)]
      rfl

theorem arrived_old (now : Instant) (delay : Duration) (hold : id < state.frontier) :
    (state.arrived id now delay).1 = (state.pending id).any (fun p => decide (0 < p.requests)) ∧
      (state.arrived id now delay).2.Sound ∧
      (state.arrived id now delay).2.frontier = state.frontier ∧
      ∀ other, (state.arrived id now delay).2.pending other =
        if other = id then none else state.pending other := by
  obtain ⟨hremoved, hordered, hmap⟩ := removeFrom_spec id h.ordered
  unfold arrived
  rw [if_neg (by omega)]
  refine ⟨?_, ⟨hordered, h.frontier_lt⟩, rfl, hmap⟩
  unfold pending
  rw [← hremoved, Option.any_map]
  rfl

omit h in
theorem arrived_kept (id : Nat) (now : Instant) (delay : Duration) :
    (state.arrived id now delay).2.asked = state.asked ∧
      (state.arrived id now delay).2.spent = state.spent := by
  unfold arrived
  split <;> exact ⟨rfl, rfl⟩

theorem trailer_spec (id : Nat) :
    (state.trailer id).Sound ∧ (state.trailer id).frontier = min state.frontier (nextId id) ∧
      ∀ other, (state.trailer id).pending other =
        if other < id then state.pending other else none := by
  obtain ⟨hordered, hbefore, hmap⟩ := cutAt_spec id h.ordered
  refine ⟨⟨⟨hordered.nonempty, fun gap hgap => ?_, hordered.apart⟩, ?_⟩, rfl, hmap⟩
  · have hlt := hordered.below gap hgap
    have := hbefore gap hgap
    have := h.frontier_lt
    simp only [trailer, nextId]
    omega
  · have := h.frontier_lt
    simp only [trailer]
    omega

theorem unavailable_gone (id : Nat) :
    (state.unavailable id .gone).2.Sound ∧
      (state.unavailable id .gone).1 =
        (if (state.pending id).any (fun p => decide (0 < p.requests)) then 1 else 0) ∧
      ∀ other, (state.unavailable id .gone).2.pending other =
        if other = id ∧ (state.pending id).any (fun p => decide (0 < p.requests)) then none
        else state.pending other := by
  have hany : state.gaps.any (fun gap => gap.contains id && decide (gap.requests > 0)) =
      (state.pending id).any (fun p => decide (0 < p.requests)) := by
    rw [Bool.eq_iff_iff, List.any_eq_true, Option.any_eq_true]
    constructor
    · rintro ⟨gap, hgap, hasked⟩
      rw [Bool.and_eq_true] at hasked
      exact ⟨gap.pending, h.ordered.pendingOf_mem hgap hasked.1, hasked.2⟩
    · rintro ⟨pending, hpending, hasked⟩
      obtain ⟨gap, hgap, hid, rfl⟩ := exists_gap hpending
      exact ⟨gap, hgap, by rw [Bool.and_eq_true]; exact ⟨hid, hasked⟩⟩
  obtain ⟨hremoved, hordered, hmap⟩ := removeFrom_spec id h.ordered
  unfold unavailable
  dsimp only
  rw [hany]
  cases hasked : (state.pending id).any (fun p => decide (0 < p.requests)) with
  | false => exact ⟨h, rfl, fun other => by simp⟩
  | true =>
    obtain ⟨pending, hpending, -⟩ := Option.any_eq_true _ _ |>.mp hasked
    have hsome : (removeFrom id state.gaps).1.isSome = true := by
      rw [← Option.isSome_map, hremoved]
      exact Option.isSome_of_mem hpending
    refine ⟨⟨hordered, h.frontier_lt⟩, ?_, fun other => ?_⟩
    · simp [removePacket, hsome]
    · simp only [and_true]
      exact hmap other

theorem unavailable_previous (id : Nat) (asked : Nat → Bool)
    (hasked : ∀ i pending, state.pending i = some pending →
      (asked i = true ↔ 0 < pending.requests)) :
    (state.unavailable id .goneWithPrevious).2.Sound ∧
      (state.unavailable id .goneWithPrevious).1 =
        ((missingIds state.gaps).filter fun i => decide (i ≤ id) && asked i).length ∧
      ∀ other, (state.unavailable id .goneWithPrevious).2.pending other =
        if other ≤ id then none else state.pending other := by
  obtain ⟨hordered, hmap⟩ := closeThrough_spec id h.ordered
  refine ⟨⟨hordered, h.frontier_lt⟩, ?_, hmap⟩
  exact closeThrough_count id h.ordered asked fun gap hgap i hi =>
    hasked i gap.pending (h.ordered.pendingOf_mem hgap hi)

omit h in
theorem unavailable_kept (id : Nat) (answer : Answer) :
    (state.unavailable id answer).2.asked = state.asked ∧
      (state.unavailable id answer).2.spent = state.spent ∧
      (state.unavailable id answer).2.frontier = state.frontier := by
  unfold unavailable
  cases answer with
  | gone =>
    dsimp only
    split <;> exact ⟨rfl, rfl, rfl⟩
  | goneWithPrevious => exact ⟨rfl, rfl, rfl⟩

end Operations

end ResendState

/-- A call on the resend state of a block. -/
inductive ResendCall where
  | arrived (id : Nat) (now : Instant)
  | trailer (id : Nat)
  | unavailable (id : Nat) (answer : Answer)
  | due (now : Instant) (packets : Nat) (block : Nat × Bool)

/-- The resend state of a block with what a run did. -/
structure Ledger where
  state : ResendState := {}
  /-- Packets that became missing, and when. -/
  opened : List (Nat × Instant) := []
  /-- Packets asked for, and when, once for each request that named them. -/
  named : List (Nat × Instant) := []
  /-- Packets asked for that arrived or were declared unavailable. -/
  outcomes : List Nat := []
  /-- The sum of `newly_requested`. -/
  requested : Nat := 0
  /-- How often `arrived` returned true. -/
  recovered : Nat := 0
  /-- The sum of what `unavailable` returned. -/
  unavailable : Nat := 0
  /-- The budgets `due` was called with. -/
  budgets : List Nat := []
  /-- Whether `due` reported that the budget is spent. -/
  reported : Bool := false
  trailer : Option Nat := none

namespace Ledger

/-- The packets missing in `before` that are not in `after`. -/
def closed (before after : ResendState) : List Nat :=
  (missingIds before.gaps).filter fun id => (after.pending id).isNone

def namedSet (ledger : Ledger) : Finset Nat := (ledger.named.map Prod.fst).toFinset

def times (ledger : Ledger) (id : Nat) : List Instant :=
  (ledger.named.filter fun entry => decide (entry.1 = id)).map Prod.snd

def call (config : ResendConfig) (ledger : Ledger) : ResendCall → Ledger
  | .arrived id now =>
    let (recovered, state) := ledger.state.arrived id now config.delay
    { ledger with
      state
      opened := ledger.opened ++ (closed state ledger.state).map (·, now)
      outcomes := ledger.outcomes ++ if recovered then [id] else []
      recovered := ledger.recovered + if recovered then 1 else 0 }
  | .trailer id => { ledger with state := ledger.state.trailer id, trailer := some id }
  | .unavailable id answer =>
    let (gone, state) := ledger.state.unavailable id answer
    { ledger with
      state
      outcomes := ledger.outcomes ++
        (closed ledger.state state).filter fun id => decide (id ∈ ledger.namedSet)
      unavailable := ledger.unavailable + gone }
  | .due now packets block =>
    let (done, state, requests) := ledger.state.due now config packets block
    { ledger with
      state
      named := ledger.named ++ (namedIds requests).map (·, now)
      requested := ledger.requested + done.newlyRequested
      budgets := ledger.budgets ++ [budgetOf packets config.budget]
      reported := ledger.reported || done.budgetSpent }

/-- The ledger after calls on the state of a block just started. -/
def after (config : ResendConfig) (calls : List ResendCall) : Ledger :=
  run (Ledger.call config) {} calls

/-- Packet ids have 32 bits, one trailer comes at most, and no packet beyond it
arrives after it. -/
def Permitted (ledger : Ledger) : ResendCall → Prop
  | .arrived id _ => id < 2 ^ 32 ∧ ∀ trailer ∈ ledger.trailer, id ≤ trailer
  | .trailer id => id < 2 ^ 32 ∧ ledger.trailer = none
  | .unavailable id _ => id < 2 ^ 32
  | .due _ _ _ => True

instance Permitted.decidable (ledger : Ledger) (call : ResendCall) :
    Decidable (ledger.Permitted call) :=
  match call with
  | .arrived id _ =>
    inferInstanceAs (Decidable (id < 2 ^ 32 ∧ ∀ trailer ∈ ledger.trailer, id ≤ trailer))
  | .trailer id => inferInstanceAs (Decidable (id < 2 ^ 32 ∧ ledger.trailer = none))
  | .unavailable id _ => inferInstanceAs (Decidable (id < 2 ^ 32))
  | .due _ _ _ => .isTrue trivial

/-- What is known of a packet that is missing. -/
structure Waiting (config : ResendConfig) (ledger : Ledger) (id : Nat) (pending : Pending) :
    Prop where
  requests_eq : pending.requests = (ledger.times id).length
  allowed : ∀ due ∈ pending.due, pending.requests = 0 ∨ pending.requests < config.maxRequests
  spaced : ∀ due ∈ pending.due, ∀ time ∈ ledger.times id, time + config.retryInterval ≤ due
  delayed : ∀ due ∈ pending.due, ∃ since, (id, since) ∈ ledger.opened ∧ since + config.delay ≤ due

structure Inv (config : ResendConfig) (ledger : Ledger) : Prop where
  sound : ledger.state.Sound
  waiting : ∀ id pending, ledger.state.pending id = some pending →
    ledger.Waiting config id pending
  missing_opened : ∀ id pending, ledger.state.pending id = some pending →
    id ∈ ledger.opened.map Prod.fst
  opened_nodup : (ledger.opened.map Prod.fst).Nodup
  /-- No id that was missing can become missing again. -/
  opened_once : ∀ id ∈ ledger.opened.map Prod.fst,
    id < ledger.state.frontier ∨ ∃ trailer ∈ ledger.trailer, trailer < id
  frontier_le : ∀ trailer ∈ ledger.trailer, ledger.state.frontier ≤ trailer + 1
  named_opened : ∀ entry ∈ ledger.named, ∃ since, (entry.1, since) ∈ ledger.opened ∧
    since + config.delay ≤ entry.2
  times_le : ∀ id, (ledger.times id).length ≤ max 1 config.maxRequests
  times_spaced : ∀ id, (ledger.times id).Pairwise fun first second =>
    first + config.retryInterval ≤ second
  requested_eq : ledger.requested = ledger.namedSet.card
  outcomes_nodup : ledger.outcomes.Nodup
  outcomes_named : ∀ id ∈ ledger.outcomes, id ∈ ledger.namedSet
  outcomes_over : ∀ id ∈ ledger.outcomes, ledger.state.pending id = none
  outcomes_count : ledger.recovered + ledger.unavailable = ledger.outcomes.length
  asked_eq : ledger.state.asked = ledger.named.length
  asked_le : ledger.named = [] ∨ ∃ budget ∈ ledger.budgets, ledger.named.length ≤ budget
  spent_eq : ledger.state.spent = ledger.reported

theorem mem_namedSet {ledger : Ledger} :
    id ∈ ledger.namedSet ↔ 0 < (ledger.times id).length := by
  unfold namedSet times
  rw [List.mem_toFinset, List.mem_map, List.length_map, List.length_pos_iff_exists_mem]
  simp only [List.mem_filter, decide_eq_true_eq]

theorem mem_closed {before after : ResendState} (h : before.Sound) :
    id ∈ closed before after ↔
      (before.pending id).isSome = true ∧ after.pending id = none := by
  rw [closed, List.mem_filter, mem_missingIds h.ordered, Option.isNone_iff_eq_none]
  rfl

theorem closed_nodup {before after : ResendState} (h : before.Sound) :
    (closed before after).Nodup := (missingIds_nodup h.ordered).filter _

theorem Waiting.mono {config : ResendConfig} {ledger later : Ledger}
    {pending : Pending} (h : ledger.Waiting config id pending) (htimes : later.times id = ledger.times id)
    (hopened : ledger.opened ⊆ later.opened) : later.Waiting config id pending where
  requests_eq := by rw [htimes, h.requests_eq]
  allowed := h.allowed
  spaced := fun due hdue time htime => h.spaced due hdue time (htimes ▸ htime)
  delayed := fun due hdue => by
    obtain ⟨since, hmem, hle⟩ := h.delayed due hdue
    exact ⟨since, hopened hmem, hle⟩

theorem Waiting.again {config : ResendConfig} {ledger later : Ledger}
    {pending : Pending} (h : ledger.Waiting config id pending) {now due : Instant}
    (hmem : due ∈ pending.due) (hdueLe : due ≤ now)
    (htimes : later.times id = ledger.times id ++ [now]) (hopened : later.opened = ledger.opened) :
    later.Waiting config id (pending.again config now) := by
  have hagain : ∀ next ∈ (pending.again config now).due,
      pending.requests + 1 < config.maxRequests ∧ next = now + config.retryInterval := by
    intro next hnext
    unfold Pending.again at hnext
    dsimp only at hnext
    split at hnext
    · rename_i hlt
      cases hnext
      exact ⟨hlt, rfl⟩
    · cases hnext
  exact
    { requests_eq := by
        rw [htimes, List.length_append, ← h.requests_eq]
        rfl
      allowed := fun next hnext => .inr (hagain next hnext).1
      spaced := by
        intro next hnext time htime
        rw [(hagain next hnext).2]
        rw [htimes] at htime
        rcases List.mem_append.mp htime with hold | hnow
        · exact ((h.spaced due hmem time hold).trans hdueLe).trans (Nat.le_add_right _ _)
        · rw [List.mem_singleton.mp hnow]
      delayed := by
        intro next hnext
        obtain ⟨since, hsince, hdelay⟩ := h.delayed due hmem
        refine ⟨since, hopened ▸ hsince, ?_⟩
        rw [(hagain next hnext).2]
        exact hdelay.trans (hdueLe.trans (Nat.le_add_right _ _)) }

section Steps

variable {config : ResendConfig} {ledger : Ledger} (h : ledger.Inv config)

include h

theorem Inv.named_mem_opened (hid : id ∈ ledger.namedSet) :
    id ∈ ledger.opened.map Prod.fst := by
  rw [namedSet, List.mem_toFinset] at hid
  obtain ⟨entry, hentry, rfl⟩ := List.mem_map.mp hid
  obtain ⟨since, hmem, -⟩ := h.named_opened entry hentry
  exact List.mem_map.mpr ⟨_, hmem, rfl⟩

theorem Inv.asked_iff {pending : Pending} (hpending : ledger.state.pending id = some pending) :
    id ∈ ledger.namedSet ↔ 0 < pending.requests := by
  rw [mem_namedSet, (h.waiting id pending hpending).requests_eq]

theorem Inv.arrived_new (now : Instant) (hid : id < 2 ^ 32)
    (htrailer : ∀ trailer ∈ ledger.trailer, id ≤ trailer) (hnew : ledger.state.frontier ≤ id) :
    (ledger.call config (.arrived id now)).Inv config := by
  obtain ⟨hfalse, hsound, hfrontier, hmap⟩ :=
    ResendState.arrived_new h.sound now config.delay hid hnew
  obtain ⟨hasked, hspent⟩ := ledger.state.arrived_kept id now config.delay
  have hcall : ledger.call config (.arrived id now) =
      { ledger with
        state := (ledger.state.arrived id now config.delay).2
        opened := ledger.opened ++
          (closed (ledger.state.arrived id now config.delay).2 ledger.state).map (·, now) } := by
    simp [call, hfalse]
  rw [hcall]
  generalize (ledger.state.arrived id now config.delay).2 = state at *
  have hopened : ∀ other, other ∈ closed state ledger.state ↔
      ledger.state.frontier ≤ other ∧ other < id := by
    intro other
    rw [mem_closed hsound, hmap]
    by_cases hother : ledger.state.frontier ≤ other ∧ other < id
    · simp only [hother, and_self, if_true, Option.isSome_some, true_and, iff_true]
      exact h.sound.ordered.pendingOf_beyond hother.1
    · rw [if_neg hother]
      simp only [hother, iff_false, not_and]
      intro hsome hnone
      rw [hnone] at hsome
      cases hsome
  have hnever : ∀ other, ledger.state.frontier ≤ other → other < id →
      other ∉ ledger.opened.map Prod.fst := by
    intro other hle hlt hmem
    rcases h.opened_once other hmem with hbelow | ⟨trailer, hmem', hbeyond⟩
    · omega
    · have := htrailer trailer hmem'
      omega
  have hmemOpened : ∀ other, ledger.state.frontier ≤ other → other < id →
      (other, now) ∈ ledger.opened ++ (closed state ledger.state).map (·, now) :=
    fun other hle hlt => List.mem_append_right _
      (List.mem_map.mpr ⟨other, (hopened other).mpr ⟨hle, hlt⟩, rfl⟩)
  have hlt := h.sound.frontier_lt
  exact
    { h with
      sound := hsound
      waiting := by
        intro other pending hpending
        rw [hmap] at hpending
        split at hpending
        · rename_i hother
          cases hpending
          have htimes : (ledger.times other).length = 0 := by
            by_contra hpos
            exact hnever other hother.1 hother.2
              (h.named_mem_opened (mem_namedSet.mpr (Nat.pos_of_ne_zero hpos)))
          have htimes := List.length_eq_zero_iff.mp htimes
          exact
            { requests_eq := (congrArg List.length htimes).symm
              allowed := fun _ _ => .inl rfl
              spaced := fun _ _ time htime => by
                have htime : time ∈ ledger.times other := htime
                rw [htimes] at htime
                cases htime
              delayed := fun due hdue => by
                cases hdue
                exact ⟨now, hmemOpened other hother.1 hother.2, le_rfl⟩ }
        · exact (h.waiting other pending hpending).mono rfl (List.subset_append_left _ _)
      missing_opened := by
        intro other pending hpending
        rw [hmap] at hpending
        rw [List.map_append, List.mem_append]
        split at hpending
        · rename_i hother
          exact .inr (List.mem_map.mpr ⟨_, List.mem_map.mpr
            ⟨other, (hopened other).mpr hother, rfl⟩, rfl⟩)
        · exact .inl (h.missing_opened other pending hpending)
      opened_nodup := by
        have hfst : ((closed state ledger.state).map (·, now)).map Prod.fst =
            closed state ledger.state := by
          simp [Function.comp_def]
        rw [List.map_append, hfst]
        refine h.opened_nodup.append (closed_nodup hsound) fun other hold hother => ?_
        · exact hnever other ((hopened other).mp hother).1 ((hopened other).mp hother).2 hold
      opened_once := by
        intro other hmem
        rw [List.map_append, List.mem_append] at hmem
        rw [hfrontier]
        rcases hmem with hold | hmem
        · refine (h.opened_once other hold).imp_left fun hbelow => ?_
          unfold nextId
          omega
        · obtain ⟨entry, hentry, rfl⟩ := List.mem_map.mp hmem
          obtain ⟨other, hother, rfl⟩ := List.mem_map.mp hentry
          have := ((hopened other).mp hother).2
          refine .inl ?_
          unfold nextId
          dsimp only
          omega
      frontier_le := by
        intro trailer hmem
        have := htrailer trailer hmem
        rw [hfrontier]
        unfold nextId
        omega
      named_opened := fun entry hentry => by
        obtain ⟨since, hmem, hle⟩ := h.named_opened entry hentry
        exact ⟨since, List.mem_append_left _ hmem, hle⟩
      outcomes_over := by
        intro other hother
        rw [hmap, if_neg, h.outcomes_over other hother]
        exact fun hin => hnever other hin.1 hin.2
          (h.named_mem_opened (h.outcomes_named other hother))
      asked_eq := hasked.trans h.asked_eq
      spent_eq := hspent.trans h.spent_eq }

theorem Inv.arrived_old (now : Instant) (hold : id < ledger.state.frontier) :
    (ledger.call config (.arrived id now)).Inv config := by
  obtain ⟨hflag, hsound, hfrontier, hmap⟩ :=
    ResendState.arrived_old h.sound now config.delay hold
  obtain ⟨hasked, hspent⟩ := ledger.state.arrived_kept id now config.delay
  have hkept : ∀ other pending, (ledger.state.arrived id now config.delay).2.pending other =
      some pending → ledger.state.pending other = some pending := by
    intro other pending hpending
    rw [hmap] at hpending
    split at hpending
    · cases hpending
    · exact hpending
  have hclosed : closed (ledger.state.arrived id now config.delay).2 ledger.state = [] := by
    rw [List.eq_nil_iff_forall_not_mem]
    intro other hother
    obtain ⟨hsome, hnone⟩ := (mem_closed hsound).mp hother
    obtain ⟨pending, hpending⟩ := Option.isSome_iff_exists.mp hsome
    rw [hkept other pending hpending] at hnone
    cases hnone
  have hcall : ledger.call config (.arrived id now) =
      { ledger with
        state := (ledger.state.arrived id now config.delay).2
        outcomes := ledger.outcomes ++
          if (ledger.state.arrived id now config.delay).1 then [id] else []
        recovered := ledger.recovered +
          if (ledger.state.arrived id now config.delay).1 then 1 else 0 } := by
    simp [call, hclosed]
  rw [hcall]
  generalize (ledger.state.arrived id now config.delay).1 = recovered at *
  generalize (ledger.state.arrived id now config.delay).2 = state at *
  have hrecovered : recovered = true → id ∈ ledger.namedSet ∧ id ∉ ledger.outcomes := by
    intro htrue
    rw [htrue, eq_comm, Option.any_eq_true] at hflag
    obtain ⟨pending, hpending, hpos⟩ := hflag
    refine ⟨(h.asked_iff hpending).mpr (by simpa using hpos), fun hover => ?_⟩
    rw [h.outcomes_over id hover] at hpending
    cases hpending
  exact
    { h with
      sound := hsound
      waiting := fun other pending hpending =>
        (h.waiting other pending (hkept other pending hpending)).mono rfl (List.Subset.refl _)
      missing_opened := fun other pending hpending =>
        h.missing_opened other pending (hkept other pending hpending)
      opened_once := by
        rw [hfrontier]
        exact h.opened_once
      frontier_le := by
        rw [hfrontier]
        exact h.frontier_le
      outcomes_nodup := by
        split
        · rename_i htrue
          rw [← List.concat_eq_append, List.nodup_concat]
          exact ⟨(hrecovered htrue).2, h.outcomes_nodup⟩
        · rw [List.append_nil]
          exact h.outcomes_nodup
      outcomes_named := by
        intro other hother
        rcases List.mem_append.mp hother with hold | hnew
        · exact h.outcomes_named other hold
        · split at hnew
          · rename_i htrue
            rw [List.mem_singleton] at hnew
            rw [hnew]
            exact (hrecovered htrue).1
          · cases hnew
      outcomes_over := by
        intro other hother
        rw [hmap]
        rcases List.mem_append.mp hother with hold | hnew
        · rw [h.outcomes_over other hold, ite_self]
        · split at hnew
          · rw [List.mem_singleton] at hnew
            rw [if_pos hnew]
          · cases hnew
      outcomes_count := by
        have := h.outcomes_count
        rw [List.length_append]
        dsimp only
        split
        · rw [List.length_singleton]
          omega
        · rw [List.length_nil]
          omega
      asked_eq := hasked.trans h.asked_eq
      spent_eq := hspent.trans h.spent_eq }

theorem Inv.trailer_call (id : Nat) (hpermit : ledger.Permitted (.trailer id)) :
    (ledger.call config (.trailer id)).Inv config := by
  obtain ⟨hid, hnone⟩ := hpermit
  obtain ⟨hsound, hfrontier, hmap⟩ := ResendState.trailer_spec h.sound id
  have hkept : ∀ other pending, (ledger.state.trailer id).pending other = some pending →
      ledger.state.pending other = some pending := by
    intro other pending hpending
    rw [hmap] at hpending
    split at hpending
    · exact hpending
    · cases hpending
  have hlt := h.sound.frontier_lt
  exact
    { h with
      sound := hsound
      waiting := fun other pending hpending =>
        (h.waiting other pending (hkept other pending hpending)).mono rfl (List.Subset.refl _)
      missing_opened := fun other pending hpending =>
        h.missing_opened other pending (hkept other pending hpending)
      opened_once := by
        intro other hmem
        simp only [call, Option.mem_def, Option.some.injEq, exists_eq_left', hfrontier]
        rcases h.opened_once other hmem with hbelow | ⟨trailer, hmem', -⟩
        · unfold nextId
          omega
        · rw [hnone] at hmem'
          cases hmem'
      frontier_le := by
        intro trailer htrailer
        obtain rfl : id = trailer := by simpa [call] using htrailer
        simp only [call, hfrontier, nextId]
        omega
      outcomes_over := by
        intro other hother
        have := h.outcomes_over other hother
        simp only [call, hmap, this, ite_self] }

omit h in
theorem unavailable_spec (hsound : ledger.state.Sound)
    (hasked : ∀ i pending, ledger.state.pending i = some pending →
      (decide (i ∈ ledger.namedSet) = true ↔ 0 < pending.requests)) (id : Nat) (answer : Answer) :
    (ledger.state.unavailable id answer).2.Sound ∧
      (∀ other, (ledger.state.unavailable id answer).2.pending other = none ∨
        (ledger.state.unavailable id answer).2.pending other = ledger.state.pending other) ∧
      (ledger.state.unavailable id answer).1 =
        ((closed ledger.state (ledger.state.unavailable id answer).2).filter fun i =>
          decide (i ∈ ledger.namedSet)).length := by
  cases answer with
  | gone =>
    obtain ⟨hafter, hcount, hmap⟩ := ResendState.unavailable_gone hsound id
    refine ⟨hafter, fun other => ?_, ?_⟩
    · rw [hmap]
      split
      · exact .inl rfl
      · exact .inr rfl
    · have hnodup : ((closed ledger.state (ledger.state.unavailable id .gone).2).filter
          fun i => decide (i ∈ ledger.namedSet)).Nodup := (closed_nodup hsound).filter _
      rw [hcount, ← List.toFinset_card_of_nodup hnodup]
      have hset : ∀ other, other ∈ (closed ledger.state
          (ledger.state.unavailable id .gone).2).filter (fun i => decide (i ∈ ledger.namedSet)) ↔
          other = id ∧ (ledger.state.pending id).any (fun p => decide (0 < p.requests)) = true := by
        intro other
        rw [List.mem_filter, mem_closed hsound, hmap]
        constructor
        · rintro ⟨⟨hsome, hnone⟩, -⟩
          by_contra hnot
          rw [if_neg hnot] at hnone
          rw [hnone] at hsome
          cases hsome
        · rintro ⟨rfl, hany⟩
          obtain ⟨pending, hpending, hpos⟩ := (Option.any_eq_true _ _).mp hany
          refine ⟨⟨Option.isSome_of_mem hpending, if_pos ⟨rfl, hany⟩⟩, ?_⟩
          exact (hasked other pending hpending).mpr (by simpa using hpos)
      split
      · rename_i hany
        rw [eq_comm, Finset.card_eq_one]
        exact ⟨id, by ext other; rw [List.mem_toFinset, hset, Finset.mem_singleton]; simp [hany]⟩
      · rename_i hany
        rw [eq_comm, Finset.card_eq_zero]
        ext other
        rw [List.mem_toFinset, hset]
        simp [hany]
  | goneWithPrevious =>
    obtain ⟨hafter, hcount, hmap⟩ :=
      ResendState.unavailable_previous hsound id (fun i => decide (i ∈ ledger.namedSet)) hasked
    refine ⟨hafter, fun other => ?_, ?_⟩
    · rw [hmap]
      split
      · exact .inl rfl
      · exact .inr rfl
    · rw [hcount, closed, List.filter_filter]
      refine congrArg List.length (List.filter_congr fun i hi => ?_)
      rw [hmap, Bool.and_comm]
      congr 1
      have hsome := (mem_missingIds hsound.ordered i).mp hi
      by_cases hle : i ≤ id
      · simp [hle]
      · simp only [hle, decide_false, if_false]
        exact (Option.isNone_eq_false_iff.mpr hsome).symm

theorem Inv.unavailable_call (id : Nat) (answer : Answer) :
    (ledger.call config (.unavailable id answer)).Inv config := by
  have hasked : ∀ i pending, ledger.state.pending i = some pending →
      (decide (i ∈ ledger.namedSet) = true ↔ 0 < pending.requests) := by
    intro i pending hpending
    rw [decide_eq_true_eq]
    exact h.asked_iff hpending
  obtain ⟨hsound, hmap, hcount⟩ := unavailable_spec h.sound hasked id answer
  obtain ⟨haskedEq, hspent, hfrontier⟩ := ledger.state.unavailable_kept id answer
  have hcall : ledger.call config (.unavailable id answer) =
      { ledger with
        state := (ledger.state.unavailable id answer).2
        outcomes := ledger.outcomes ++
          (closed ledger.state (ledger.state.unavailable id answer).2).filter
            fun id => decide (id ∈ ledger.namedSet)
        unavailable := ledger.unavailable + (ledger.state.unavailable id answer).1 } := rfl
  rw [hcall]
  generalize (ledger.state.unavailable id answer).1 = gone at *
  generalize (ledger.state.unavailable id answer).2 = state at *
  have hkept : ∀ other pending, state.pending other = some pending →
      ledger.state.pending other = some pending := by
    intro other pending hpending
    rcases hmap other with hnone | hsame
    · rw [hnone] at hpending
      cases hpending
    · rw [← hsame, hpending]
  have hnew : ∀ other ∈ (closed ledger.state state).filter
      (fun id => decide (id ∈ ledger.namedSet)), (ledger.state.pending other).isSome = true ∧
        state.pending other = none ∧ other ∈ ledger.namedSet := by
    intro other hother
    rw [List.mem_filter, mem_closed h.sound, decide_eq_true_eq] at hother
    exact ⟨hother.1.1, hother.1.2, hother.2⟩
  exact
    { h with
      sound := hsound
      waiting := fun other pending hpending =>
        (h.waiting other pending (hkept other pending hpending)).mono rfl (List.Subset.refl _)
      missing_opened := fun other pending hpending =>
        h.missing_opened other pending (hkept other pending hpending)
      opened_once := by
        rw [hfrontier]
        exact h.opened_once
      frontier_le := by
        rw [hfrontier]
        exact h.frontier_le
      outcomes_nodup := by
        refine h.outcomes_nodup.append ((closed_nodup h.sound).filter _) fun other hold hin => ?_
        have hsome := (hnew other hin).1
        rw [h.outcomes_over other hold] at hsome
        cases hsome
      outcomes_named := by
        intro other hother
        rcases List.mem_append.mp hother with hold | hin
        · exact h.outcomes_named other hold
        · exact (hnew other hin).2.2
      outcomes_over := by
        intro other hother
        rcases List.mem_append.mp hother with hold | hin
        · rcases hmap other with hnone | hsame
          · exact hnone
          · rw [hsame, h.outcomes_over other hold]
        · exact (hnew other hin).2.1
      outcomes_count := by
        have := h.outcomes_count
        rw [List.length_append, ← hcount]
        dsimp only
        omega
      asked_eq := haskedEq.trans h.asked_eq
      spent_eq := hspent.trans h.spent_eq }

omit h in
theorem filter_timed (ids : List Nat) (now : Instant) (hnodup : ids.Nodup) (id : Nat) :
    ((ids.map (·, now)).filter fun entry => decide (entry.1 = id)).map Prod.snd =
      if id ∈ ids then [now] else [] := by
  induction ids with
  | nil => rfl
  | cons first rest ih =>
    obtain ⟨hfirst, hrest⟩ := List.nodup_cons.mp hnodup
    have ih := ih hrest
    rw [List.map_cons, List.filter_cons]
    by_cases hid : first = id
    · subst hid
      rw [if_neg hfirst] at ih
      simpa using ih
    · have hne : id ≠ first := fun heq => hid heq.symm
      simpa [hid, hne] using ih

theorem Inv.due_open (now : Instant) (packets : Nat) (block : Nat × Bool)
    (hopen : ledger.state.spent = false) :
    (ledger.call config (.due now packets block)).Inv config := by
  obtain ⟨hordered, hspec⟩ := dueGaps_spec now config (budgetOf packets config.budget) block
    h.sound.ordered ledger.state.asked
  have hcall : ledger.call config (.due now packets block) =
      let pass := dueGaps now config (budgetOf packets config.budget) block ledger.state.gaps
        ledger.state.asked
      { ledger with
        state :=
          { ledger.state with
            gaps := pass.gaps, asked := pass.asked, spent := pass.done.budgetSpent }
        named := ledger.named ++ (namedIds pass.requests).map (·, now)
        requested := ledger.requested + pass.done.newlyRequested
        budgets := ledger.budgets ++ [budgetOf packets config.budget]
        reported := ledger.reported || pass.done.budgetSpent } := by
    simp [call, ResendState.due, hopen]
  rw [hcall]
  dsimp only
  generalize dueGaps now config (budgetOf packets config.budget) block ledger.state.gaps
    ledger.state.asked = pass at *
  obtain ⟨hmap, hdue, hnodup, hasked, hle, hnewly⟩ := hspec
  generalize hlater : ({ ledger with
    state :=
      { ledger.state with gaps := pass.gaps, asked := pass.asked, spent := pass.done.budgetSpent }
    named := ledger.named ++ (namedIds pass.requests).map (·, now)
    requested := ledger.requested + pass.done.newlyRequested
    budgets := ledger.budgets ++ [budgetOf packets config.budget]
    reported := ledger.reported || pass.done.budgetSpent } : Ledger) = later
  have hnamed : later.named = ledger.named ++ (namedIds pass.requests).map (·, now) := by
    rw [← hlater]
  have hopened : later.opened = ledger.opened := by rw [← hlater]
  have hpendingOf : ∀ id, later.state.pending id = pendingOf pass.gaps id := by
    rw [← hlater]
    exact fun _ => rfl
  have htimes : ∀ id, later.times id =
      ledger.times id ++ if id ∈ namedIds pass.requests then [now] else [] := by
    intro id
    rw [times, hnamed, List.filter_append, List.map_append, filter_timed _ _ hnodup]
    rfl
  -- What was remembered of a packet asked for now.
  have hwaiting : ∀ id ∈ namedIds pass.requests, ∃ pending,
      pendingOf ledger.state.gaps id = some pending ∧ ledger.Waiting config id pending ∧
        ∃ due ∈ pending.due, due ≤ now := by
    intro id hid
    obtain ⟨pending, hpending, hpendingDue⟩ := hdue id hid
    exact ⟨pending, hpending, h.waiting id pending hpending, hpendingDue⟩
  have hsame : ∀ id pending, later.state.pending id = some pending →
      ∃ before, ledger.state.pending id = some before := by
    intro id pending hpending
    rw [hpendingOf, hmap] at hpending
    split at hpending
    · obtain ⟨before, hbefore, -⟩ := Option.map_eq_some_iff.mp hpending
      exact ⟨before, hbefore⟩
    · exact ⟨pending, hpending⟩
  have hsetEq : later.namedSet = ledger.namedSet ∪ (namedIds pass.requests).toFinset := by
    simp [namedSet, hnamed, Function.comp_def]
  have hfirst : ((namedIds pass.requests).filter fun id =>
      decide ((pendingOf ledger.state.gaps id).map (·.requests) = some 0)).length =
      ((namedIds pass.requests).toFinset \ ledger.namedSet).card := by
    rw [← List.toFinset_card_of_nodup (hnodup.filter _)]
    congr 1
    ext id
    rw [List.mem_toFinset, List.mem_filter, Finset.mem_sdiff, List.mem_toFinset]
    refine and_congr_right fun hid => ?_
    obtain ⟨pending, hpending, -, -⟩ := hwaiting id hid
    have hasked : id ∈ ledger.namedSet ↔ 0 < pending.requests := h.asked_iff hpending
    rw [hasked, hpending, decide_eq_true_eq]
    simp
  have htimesNamed : ∀ id ∈ namedIds pass.requests, ∀ time ∈ ledger.times id,
      time + config.retryInterval ≤ now := by
    intro id hid time htime
    obtain ⟨pending, -, hwait, due, hmem, hdueLe⟩ := hwaiting id hid
    exact (hwait.spaced due hmem time htime).trans hdueLe
  subst hlater
  exact
    { h with
      sound := ⟨hordered, h.sound.frontier_lt⟩
      waiting := by
        intro id pending hpending
        rw [hpendingOf, hmap] at hpending
        split at hpending
        · rename_i hid
          obtain ⟨before, hbefore, hwait, due, hmem, hdueLe⟩ := hwaiting id hid
          rw [hbefore] at hpending
          cases hpending
          exact hwait.again hmem hdueLe (by rw [htimes, if_pos hid]) rfl
        · rename_i hid
          refine (h.waiting id pending hpending).mono ?_ (List.Subset.refl _)
          rw [htimes, if_neg hid, List.append_nil]
      missing_opened := by
        intro id pending hpending
        obtain ⟨before, hbefore⟩ := hsame id pending hpending
        exact h.missing_opened id before hbefore
      named_opened := by
        intro entry hentry
        rcases List.mem_append.mp hentry with hold | hnew
        · exact h.named_opened entry hold
        · obtain ⟨id, hid, rfl⟩ := List.mem_map.mp hnew
          obtain ⟨pending, -, hwait, due, hmem, hdueLe⟩ := hwaiting id hid
          obtain ⟨since, hsince, hdelay⟩ := hwait.delayed due hmem
          exact ⟨since, hsince, hdelay.trans hdueLe⟩
      times_le := by
        intro id
        rw [htimes, List.length_append]
        split
        · rename_i hid
          obtain ⟨pending, -, hwait, due, hmem, -⟩ := hwaiting id hid
          have hrequests := hwait.requests_eq
          rw [List.length_singleton]
          rcases hwait.allowed due hmem with hzero | hlt <;> omega
        · exact h.times_le id
      times_spaced := by
        intro id
        rw [htimes, List.pairwise_append]
        refine ⟨h.times_spaced id, ?_, fun first hfirst second hsecond => ?_⟩
        · split
          · exact List.pairwise_singleton _ _
          · exact List.Pairwise.nil
        · split at hsecond
          · rename_i hid
            rw [List.mem_singleton] at hsecond
            rw [hsecond]
            exact htimesNamed id hid first hfirst
          · cases hsecond
      requested_eq := by
        rw [hsetEq, Finset.union_comm, ← Finset.card_sdiff_add_card, ← hfirst, ← hnewly,
          ← h.requested_eq, Nat.add_comm]
      outcomes_named := by
        intro id hid
        rw [hsetEq]
        exact Finset.mem_union_left _ (h.outcomes_named id hid)
      outcomes_over := by
        intro id hid
        by_contra hnot
        obtain ⟨pending, hpending⟩ := Option.ne_none_iff_exists'.mp hnot
        obtain ⟨before, hbefore⟩ := hsame id pending hpending
        rw [h.outcomes_over id hid] at hbefore
        cases hbefore
      asked_eq := by
        rw [hnamed, List.length_append, List.length_map, ← h.asked_eq]
        exact hasked
      asked_le := by
        by_cases hnone : namedIds pass.requests = []
        · rw [hnamed, hnone, List.map_nil, List.append_nil]
          refine h.asked_le.imp_right fun ⟨budget, hbudget, hle⟩ => ?_
          exact ⟨budget, List.mem_append_left _ hbudget, hle⟩
        · refine .inr ⟨_, List.mem_append_right _ (List.mem_singleton_self _), ?_⟩
          rw [hnamed, List.length_append, List.length_map, ← h.asked_eq, ← hasked]
          exact hle hnone
      spent_eq := by
        have := h.spent_eq
        rw [hopen] at this
        simp [← this] }

theorem Inv.due_call (now : Instant) (packets : Nat) (block : Nat × Bool) :
    (ledger.call config (.due now packets block)).Inv config := by
  cases hspent : ledger.state.spent with
  | false => exact h.due_open now packets block hspent
  | true =>
    have hcall : ledger.call config (.due now packets block) =
        { ledger with budgets := ledger.budgets ++ [budgetOf packets config.budget] } := by
      simp [call, ResendState.due, hspent, namedIds]
    rw [hcall]
    exact
      { h with
        asked_le := by
          refine h.asked_le.imp_right ?_
          rintro ⟨budget, hbudget, hle⟩
          exact ⟨budget, List.mem_append_left _ hbudget, hle⟩
        waiting := fun id pending hpending =>
          (h.waiting id pending hpending).mono rfl (List.Subset.refl _) }

theorem Inv.call {call : ResendCall} (hpermit : ledger.Permitted call) :
    (ledger.call config call).Inv config := by
  cases call with
  | arrived id now =>
    by_cases hnew : ledger.state.frontier ≤ id
    · exact h.arrived_new now hpermit.1 hpermit.2 hnew
    · exact h.arrived_old now (by omega)
  | trailer id => exact h.trailer_call id hpermit
  | unavailable id answer => exact h.unavailable_call id answer
  | due now packets block => exact h.due_call now packets block

end Steps

theorem inv_start (config : ResendConfig) : Inv config {} where
  sound := ⟨.nil _, by decide⟩
  waiting := nofun
  missing_opened := nofun
  opened_nodup := List.nodup_nil
  opened_once := nofun
  frontier_le := nofun
  named_opened := nofun
  times_le := fun _ => Nat.zero_le _
  times_spaced := fun _ => List.Pairwise.nil
  requested_eq := rfl
  outcomes_nodup := List.nodup_nil
  outcomes_named := nofun
  outcomes_over := nofun
  outcomes_count := rfl
  asked_eq := rfl
  asked_le := .inl rfl
  spent_eq := rfl

theorem inv_run {config : ResendConfig} {ledger : Ledger} (h : ledger.Inv config)
    (calls : List ResendCall) (hcalls : Guarded (Ledger.call config) Permitted ledger calls) :
    (run (Ledger.call config) ledger calls).Inv config :=
  run_invariant (Ledger.call config) Permitted (Inv config) (fun _ _ h hpermit => h.call hpermit)
    ledger calls h hcalls

theorem reported_call {config : ResendConfig} {ledger : Ledger} (h : ledger.Inv config)
    (hreported : ledger.reported = true) (call : ResendCall) :
    (ledger.call config call).named = ledger.named ∧
      (ledger.call config call).reported = true := by
  cases call with
  | arrived id now => exact ⟨rfl, hreported⟩
  | trailer id => exact ⟨rfl, hreported⟩
  | unavailable id answer => exact ⟨rfl, hreported⟩
  | due now packets block =>
    have hspent : ledger.state.spent = true := h.spent_eq.trans hreported
    simp [Ledger.call, ResendState.due, hspent, namedIds, hreported]

theorem reported_run {config : ResendConfig} {ledger : Ledger} (h : ledger.Inv config)
    (hreported : ledger.reported = true) (calls : List ResendCall)
    (hcalls : Guarded (Ledger.call config) Permitted ledger calls) :
    (run (Ledger.call config) ledger calls).named = ledger.named := by
  induction calls generalizing ledger with
  | nil => rfl
  | cons call rest ih =>
    obtain ⟨hnamed, hstill⟩ := reported_call h hreported call
    rw [run_cons, ih (h.call hcalls.1) hstill hcalls.2, hnamed]

/-- Accounting and limits, packet by packet. -/
structure Laws (config : ResendConfig) (ledger : Ledger) : Prop where
  /-- `newly_requested` counts each packet asked for once. -/
  counted_once : ledger.requested = ledger.namedSet.card
  outcome_once : ledger.outcomes.Nodup
  outcome_asked : ∀ id ∈ ledger.outcomes, id ∈ ledger.namedSet
  outcomes_counted : ledger.recovered + ledger.unavailable = ledger.outcomes.length
  balance : ledger.recovered + ledger.unavailable ≤ ledger.requested
  requests_le : ∀ id, (ledger.times id).length ≤ max 1 config.maxRequests
  spaced : ∀ id, (ledger.times id).Pairwise fun first second =>
    first + config.retryInterval ≤ second
  opened_once : (ledger.opened.map Prod.fst).Nodup
  delayed : ∀ entry ∈ ledger.named, ∃ since, (entry.1, since) ∈ ledger.opened ∧
    since + config.delay ≤ entry.2
  budget_le : ledger.named.length ≤ ledger.budgets.foldr max 0

theorem le_foldr_max {budgets : List Nat} {budget : Nat} (hmem : budget ∈ budgets) :
    budget ≤ budgets.foldr max 0 := by
  induction budgets with
  | nil => cases hmem
  | cons head rest ih =>
    rw [List.foldr_cons]
    rcases List.mem_cons.mp hmem with rfl | hrest
    · exact le_max_left _ _
    · exact (ih hrest).trans (le_max_right _ _)

theorem Inv.laws {config : ResendConfig} {ledger : Ledger} (h : ledger.Inv config) :
    ledger.Laws config where
  counted_once := h.requested_eq
  outcome_once := h.outcomes_nodup
  outcome_asked := h.outcomes_named
  outcomes_counted := h.outcomes_count
  balance := by
    rw [h.outcomes_count, h.requested_eq, ← List.toFinset_card_of_nodup h.outcomes_nodup]
    refine Finset.card_le_card fun id hid => h.outcomes_named id ?_
    rwa [List.mem_toFinset] at hid
  requests_le := h.times_le
  spaced := h.times_spaced
  opened_once := h.opened_nodup
  delayed := h.named_opened
  budget_le := by
    rcases h.asked_le with hnone | ⟨budget, hbudget, hle⟩
    · rw [hnone]
      exact Nat.zero_le _
    · exact hle.trans (le_foldr_max hbudget)

end Ledger

/-- Whatever arrives, is answered and comes due, as long as no packet beyond the
trailer arrives after it: each packet asked for is counted once and has one
outcome at most, requests keep to the delay, the interval, the number of
retries and the budget, and none follows the one that spent it. -/
theorem resend_laws (config : ResendConfig) (calls more : List ResendCall)
    (hcalls : Guarded (Ledger.call config) Ledger.Permitted {} (calls ++ more)) :
    (Ledger.after config calls).Laws config ∧
      ((Ledger.after config calls).reported = true →
        (Ledger.after config (calls ++ more)).named = (Ledger.after config calls).named) := by
  obtain ⟨hcalls, hmore⟩ := (guarded_append _ _ _ _ _).mp hcalls
  have hinv := Ledger.inv_run (Ledger.inv_start config) calls hcalls
  refine ⟨hinv.laws, fun hreported => ?_⟩
  unfold Ledger.after
  rw [run_append]
  exact Ledger.reported_run hinv hreported more hmore

/-- Two packets are lost and asked for; one arrives, the camera no longer has
the other, and the third loss finds the budget spent. -/
def lossCalls : List ResendCall :=
  [.arrived 0 0, .arrived 3 10, .due 2000020 8 (1, false), .arrived 1 2000030,
    .unavailable 2 .gone, .trailer 5, .arrived 5 2000040, .due 5000000 8 (1, false)]

theorem resend_laws_loss :
    (Ledger.after .default lossCalls).Laws .default ∧
      (Ledger.after .default lossCalls).reported = true ∧
      (Ledger.after .default (lossCalls ++ [.due 9000000 8 (1, false)])).named =
        (Ledger.after .default lossCalls).named := by
  have hlaws := resend_laws .default lossCalls [.due 9000000 8 (1, false)] (by decide +kernel)
  have hreported : (Ledger.after .default lossCalls).reported = true := by decide +kernel
  exact ⟨hlaws.1, hreported, hlaws.2 hreported⟩

end VivaGenicam.Stream
