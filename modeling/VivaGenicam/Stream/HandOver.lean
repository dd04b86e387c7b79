import VivaGenicam.Stream.Delivery

/-!
The delivery queue with what it hands over: a push may evict the oldest item,
and the failure that ends a stream is carried to the consumer. Every operation
runs under the queue's lock, so a run is a list of operations in the order they
got it; a wait takes one pop each time it wakes.
-/

namespace VivaGenicam.Stream

open Library Library.Transition

/-- How a stream ended, as recorded by its producer. -/
inductive StreamEnd (ε : Type*) where
  | failed (failure : ε)
  | finished

structure QueueState (α ε : Type*) where
  items : Outbox α := {}
  ending : Option (StreamEnd ε) := none

/-- What a pop hands to the consumer. -/
inductive Handed (α ε : Type*) where
  | item (item : α)
  | failed (failure : ε)
  | finished
  | empty

inductive QueueOp (α ε : Type*) where
  | push (item : α)
  | fail (failure : ε)
  | finish
  | pop

inductive QueueAnswer (α ε : Type*) where
  | pushed (evicted : Option α)
  | ended
  | popped (handed : Handed α ε)

variable {α ε : Type*}

namespace QueueState

/-- Add an item; hands back the oldest one if the queue was full. -/
def push (capacity : Nat) (state : QueueState α ε) (item : α) : Option α × QueueState α ε :=
  if state.items.queued.length ≥ max capacity 1 then
    (state.items.queued.head?,
      { state with items := (state.items.leave .dropped 1).enter [item] })
  else
    (none, { state with items := state.items.enter [item] })

def fail (state : QueueState α ε) (failure : ε) : QueueState α ε :=
  { state with ending := state.ending.or (some (.failed failure)) }

def finish (state : QueueState α ε) : QueueState α ε :=
  { state with ending := state.ending.or (some .finished) }

/-- A failure is handed over once; after that the stream has ended. -/
def tryPop (state : QueueState α ε) : Handed α ε × QueueState α ε :=
  match state.items.queued, state.ending with
  | item :: _, _ => (.item item, { state with items := state.items.leave .taken 1 })
  | [], some (.failed failure) => (.failed failure, { state with ending := some .finished })
  | [], some .finished => (.finished, state)
  | [], none => (.empty, state)

def step (capacity : Nat) (state : QueueState α ε) :
    QueueOp α ε → QueueAnswer α ε × QueueState α ε
  | .push item => let (evicted, state) := state.push capacity item; (.pushed evicted, state)
  | .fail failure => (.ended, state.fail failure)
  | .finish => (.ended, state.finish)
  | .pop => let (handed, state) := state.tryPop; (.popped handed, state)

end QueueState

/-- The queue and what its operations have answered. -/
structure HandOver (α ε : Type*) where
  state : QueueState α ε := {}
  answers : List (QueueAnswer α ε) := []

namespace HandOver

def act (capacity : Nat) (run : HandOver α ε) (op : QueueOp α ε) : HandOver α ε where
  state := (run.state.step capacity op).2
  answers := run.answers ++ [(run.state.step capacity op).1]

def after (capacity : Nat) (ops : List (QueueOp α ε)) : HandOver α ε :=
  run (act capacity) {} ops

end HandOver

def QueueOp.item : QueueOp α ε → Option α
  | .push item => some item
  | _ => none

def QueueOp.ending : QueueOp α ε → Option (StreamEnd ε)
  | .fail failure => some (.failed failure)
  | .finish => some .finished
  | _ => none

/-- What ends the stream: the first `fail` or `finish`. -/
def firstEnd (ops : List (QueueOp α ε)) : Option (StreamEnd ε) := ops.findSome? QueueOp.ending

def QueueAnswer.evicted : QueueAnswer α ε → Option α
  | .pushed evicted => evicted
  | _ => none

def QueueAnswer.item : QueueAnswer α ε → Option α
  | .popped (.item item) => some item
  | _ => none

def QueueAnswer.failure : QueueAnswer α ε → Option ε
  | .popped (.failed failure) => some failure
  | _ => none

/-- What an empty queue hands over, given how the stream ended and the failures
reported so far. -/
def handedAtEnd (failures : List ε) : Option (StreamEnd ε) → Handed α ε
  | none => .empty
  | some .finished => .finished
  | some (.failed failure) => if failures.isEmpty then .failed failure else .finished

/-- What holds of a run of the queue, and of the operation that follows it. -/
structure HandOver.Laws (capacity : Nat) (ops : List (QueueOp α ε)) (run : HandOver α ε) :
    Prop where
  length_le : run.state.items.queued.length ≤ max 1 capacity
  /-- What was pushed left in that order or is queued. -/
  in_order : run.state.items.left.map Prod.fst ++ run.state.items.queued =
    ops.filterMap QueueOp.item
  /-- What left was popped or evicted, as the answers say. -/
  popped : run.answers.filterMap QueueAnswer.item = run.state.items.exits .taken
  evicted : run.answers.filterMap QueueAnswer.evicted = run.state.items.exits .dropped
  /-- The first failure, unless the stream had finished, is reported once at most. -/
  failures : ∀ failure ∈ run.answers.filterMap QueueAnswer.failure,
    firstEnd ops = some (.failed failure)
  reported_once : (run.answers.filterMap QueueAnswer.failure).length ≤ 1
  /-- A push evicts the oldest item of a full queue, and only then. -/
  next_push : ∀ item, (run.state.step capacity (.push item)).1 =
    .pushed (if run.state.items.queued.length < max 1 capacity then none
      else run.state.items.queued.head?)
  /-- A pop hands over the oldest item, else how the stream ended. -/
  next_pop : (run.state.step capacity .pop).1 = .popped
    (match run.state.items.queued with
      | item :: _ => .item item
      | [] => handedAtEnd (run.answers.filterMap QueueAnswer.failure) (firstEnd ops))

/-- How the recorded end and the failures reported come from the first end. -/
def Reported (first ending : Option (StreamEnd ε)) (failures : List ε) : Prop :=
  match first with
  | none => ending = none ∧ failures = []
  | some .finished => ending = some .finished ∧ failures = []
  | some (.failed failure) =>
    ending = some (.failed failure) ∧ failures = [] ∨
      ending = some .finished ∧ failures = [failure]

/-- The invariant of runs. -/
structure HandOver.Inv (capacity : Nat) (ops : List (QueueOp α ε)) (run : HandOver α ε) :
    Prop where
  length_le : run.state.items.queued.length ≤ max 1 capacity
  sound : run.state.items.Sound
  entered : run.state.items.entered = ops.filterMap QueueOp.item
  popped : run.answers.filterMap QueueAnswer.item = run.state.items.exits .taken
  evicted : run.answers.filterMap QueueAnswer.evicted = run.state.items.exits .dropped
  reported : Reported (firstEnd ops) run.state.ending
    (run.answers.filterMap QueueAnswer.failure)

theorem firstEnd_append (ops : List (QueueOp α ε)) (op : QueueOp α ε) :
    firstEnd (ops ++ [op]) = (firstEnd ops).or op.ending := by
  unfold firstEnd
  rw [List.findSome?_append, List.findSome?_singleton]

theorem Reported.record {first ending : Option (StreamEnd ε)} {failures : List ε}
    (h : Reported first ending failures) (recorded : StreamEnd ε) :
    Reported (first.or (some recorded)) (ending.or (some recorded)) failures := by
  cases first with
  | none =>
    obtain ⟨rfl, rfl⟩ := h
    cases recorded with
    | failed failure => exact .inl ⟨rfl, rfl⟩
    | finished => exact ⟨rfl, rfl⟩
  | some first =>
    cases first with
    | failed failure =>
      rcases h with ⟨rfl, rfl⟩ | ⟨rfl, rfl⟩
      · exact .inl ⟨rfl, rfl⟩
      · exact .inr ⟨rfl, rfl⟩
    | finished =>
      obtain ⟨rfl, rfl⟩ := h
      exact ⟨rfl, rfl⟩

namespace HandOver

variable {capacity : Nat} {ops : List (QueueOp α ε)} {run : HandOver α ε}

theorem Inv.push (h : run.Inv capacity ops) (item : α) :
    (run.act capacity (.push item)).Inv capacity (ops ++ [.push item]) := by
  have hle := h.length_le
  have hfirst : firstEnd (ops ++ [QueueOp.push item]) = firstEnd ops := by
    rw [firstEnd_append]
    exact Option.or_none
  have hentered : ops.filterMap QueueOp.item ++ [item] =
      (ops ++ [QueueOp.push item]).filterMap QueueOp.item := by
    rw [List.filterMap_append]
    rfl
  unfold act QueueState.step QueueState.push
  dsimp only
  split
  · rename_i hfull
    cases hqueued : run.state.items.queued with
    | nil =>
      rw [hqueued, List.length_nil] at hfull
      omega
    | cons oldest rest =>
      rw [hqueued, List.length_cons] at hle
      exact
        { length_le := by
            simp only [Outbox.enter, Outbox.leave, hqueued, List.drop_succ_cons, List.drop_zero,
              List.length_append, List.length_singleton]
            omega
          sound := (h.sound.leave .dropped 1).enter [item]
          entered := by
            rw [← hentered, ← h.entered]
            rfl
          popped := by
            rw [List.filterMap_append, h.popped, Outbox.exits_enter, Outbox.exits_leave]
            rfl
          evicted := by
            rw [List.filterMap_append, h.evicted, Outbox.exits_enter, Outbox.exits_leave, hqueued]
            rfl
          reported := by
            rw [hfirst, List.filterMap_append]
            exact (List.append_nil _).symm ▸ h.reported }
  · rename_i hroom
    exact
      { length_le := by
          simp only [Outbox.enter, List.length_append, List.length_singleton]
          omega
        sound := h.sound.enter [item]
        entered := by
          rw [← hentered, ← h.entered]
          rfl
        popped := by
          rw [List.filterMap_append, h.popped]
          exact List.append_nil _
        evicted := by
          rw [List.filterMap_append, h.evicted]
          exact List.append_nil _
        reported := by
          rw [hfirst, List.filterMap_append]
          exact (List.append_nil _).symm ▸ h.reported }

theorem Inv.record (h : run.Inv capacity ops) {op : QueueOp α ε} {recorded : StreamEnd ε}
    (hitem : op.item = none) (hending : op.ending = some recorded)
    (hstep : run.state.step capacity op =
      (.ended, { run.state with ending := run.state.ending.or (some recorded) })) :
    (run.act capacity op).Inv capacity (ops ++ [op]) := by
  unfold act
  rw [hstep]
  exact
    { length_le := h.length_le
      sound := h.sound
      entered := by
        rw [List.filterMap_append, ← h.entered]
        simp [hitem]
      popped := by
        rw [List.filterMap_append, h.popped]
        exact List.append_nil _
      evicted := by
        rw [List.filterMap_append, h.evicted]
        exact List.append_nil _
      reported := by
        rw [firstEnd_append, hending, List.filterMap_append]
        exact (List.append_nil _).symm ▸ h.reported.record recorded }

theorem Inv.pop (h : run.Inv capacity ops) :
    (run.act capacity .pop).Inv capacity (ops ++ [.pop]) := by
  have hle := h.length_le
  have hreported := h.reported
  have hfirst : firstEnd (ops ++ [QueueOp.pop]) = firstEnd ops := by
    rw [firstEnd_append]
    exact Option.or_none
  have hops : (ops ++ [QueueOp.pop]).filterMap QueueOp.item = ops.filterMap QueueOp.item := by
    rw [List.filterMap_append]
    exact List.append_nil _
  unfold act QueueState.step
  cases hqueued : run.state.items.queued with
  | cons item rest =>
    rw [hqueued, List.length_cons] at hle
    simp only [QueueState.tryPop, hqueued]
    exact
      { length_le := by
          simp only [Outbox.leave, hqueued, List.drop_succ_cons, List.drop_zero]
          omega
        sound := h.sound.leave .taken 1
        entered := hops ▸ h.entered
        popped := by
          rw [List.filterMap_append, h.popped, Outbox.exits_leave, hqueued]
          rfl
        evicted := by
          rw [List.filterMap_append, h.evicted, Outbox.exits_leave]
          rfl
        reported := by
          rw [hfirst, List.filterMap_append]
          exact (List.append_nil _).symm ▸ hreported }
  | nil =>
    have hkept : ∀ handed : Handed α ε, (∀ item, handed ≠ .item item) →
        (run.answers ++ [QueueAnswer.popped handed]).filterMap QueueAnswer.item =
          run.state.items.exits .taken := by
      intro handed hitem
      rw [List.filterMap_append, h.popped]
      cases handed with
      | item item => exact absurd rfl (hitem item)
      | failed failure => exact List.append_nil _
      | finished => exact List.append_nil _
      | empty => exact List.append_nil _
    have hevicted : ∀ handed : Handed α ε,
        (run.answers ++ [QueueAnswer.popped handed]).filterMap QueueAnswer.evicted =
          run.state.items.exits .dropped := by
      intro handed
      rw [List.filterMap_append, h.evicted]
      exact List.append_nil _
    cases hending : run.state.ending with
    | none =>
      simp only [QueueState.tryPop, hqueued, hending]
      refine ⟨h.length_le, h.sound, hops ▸ h.entered, hkept _ (fun item heq => by cases heq), hevicted _, ?_⟩
      rw [hfirst, List.filterMap_append]
      exact (List.append_nil _).symm ▸ hending ▸ hreported
    | some ending =>
      cases ending with
      | finished =>
        simp only [QueueState.tryPop, hqueued, hending]
        refine ⟨h.length_le, h.sound, hops ▸ h.entered, hkept _ (fun item heq => by cases heq), hevicted _, ?_⟩
        rw [hfirst, List.filterMap_append]
        exact (List.append_nil _).symm ▸ hending ▸ hreported
      | failed failure =>
        simp only [QueueState.tryPop, hqueued, hending]
        refine ⟨h.length_le, h.sound, hops ▸ h.entered, hkept _ (fun item heq => by cases heq), hevicted _, ?_⟩
        -- only a failure that came first is still recorded as one
        rw [hfirst]
        rw [hending] at hreported
        unfold Reported at hreported ⊢
        split at hreported
        · cases hreported.1
        · cases hreported.1
        · rename_i first heq
          rcases hreported with ⟨hfailed, hnone⟩ | ⟨hfinished, -⟩
          · cases hfailed
            refine .inr ⟨rfl, ?_⟩
            rw [List.filterMap_append, hnone]
            rfl
          · cases hfinished

theorem Inv.act (h : run.Inv capacity ops) (op : QueueOp α ε) :
    (run.act capacity op).Inv capacity (ops ++ [op]) := by
  cases op with
  | push item => exact h.push item
  | fail failure => exact h.record rfl rfl rfl
  | finish => exact h.record rfl rfl rfl
  | pop => exact h.pop

theorem inv_after (capacity : Nat) (ops : List (QueueOp α ε)) :
    (after capacity ops).Inv capacity ops := by
  induction ops using List.reverseRecOn with
  | nil => exact ⟨Nat.zero_le _, Outbox.sound_empty, rfl, rfl, rfl, rfl, rfl⟩
  | append_singleton ops op ih =>
    unfold after
    rw [run_append]
    exact ih.act op

theorem Inv.laws (h : run.Inv capacity ops) : run.Laws capacity ops where
  length_le := h.length_le
  in_order := h.sound.trans h.entered
  popped := h.popped
  evicted := h.evicted
  failures := by
    intro failure hfailure
    have hreported := h.reported
    unfold Reported at hreported
    split at hreported
    · rw [hreported.2] at hfailure
      cases hfailure
    · rw [hreported.2] at hfailure
      cases hfailure
    · rename_i first heq
      rcases hreported with ⟨-, hnone⟩ | ⟨-, hone⟩
      · rw [hnone] at hfailure
        cases hfailure
      · rw [hone, List.mem_singleton] at hfailure
        rw [hfailure, heq]
  reported_once := by
    have hreported := h.reported
    unfold Reported at hreported
    split at hreported
    · simp [hreported.2]
    · simp [hreported.2]
    · rcases hreported with ⟨-, hnone⟩ | ⟨-, hone⟩
      · simp [hnone]
      · simp [hone]
  next_push := by
    intro item
    simp only [QueueState.step, QueueState.push]
    split
    · rw [if_neg (by omega)]
    · rw [if_pos (by omega)]
  next_pop := by
    have hreported := h.reported
    cases hqueued : run.state.items.queued with
    | cons item rest => simp [QueueState.step, QueueState.tryPop, hqueued]
    | nil =>
      unfold Reported at hreported
      split at hreported
      · rename_i heq
        simp [QueueState.step, QueueState.tryPop, hqueued, hreported.1, heq, handedAtEnd]
      · rename_i heq
        simp [QueueState.step, QueueState.tryPop, hqueued, hreported.1, heq, handedAtEnd]
      · rename_i first heq
        rcases hreported with ⟨hfailed, hnone⟩ | ⟨hfinished, hone⟩
        · simp [QueueState.step, QueueState.tryPop, hqueued, hfailed, hnone, heq, handedAtEnd]
        · simp [QueueState.step, QueueState.tryPop, hqueued, hfinished, hone, heq, handedAtEnd]

end HandOver

/-- The delivery queue keeps its bound, hands items over in their order, each to
the consumer or back to the producer, and reports the first failure once. -/
theorem delivery_queue_laws (capacity : Nat) (ops : List (QueueOp α ε)) :
    (HandOver.after capacity ops).Laws capacity ops :=
  (HandOver.inv_after capacity ops).laws

end VivaGenicam.Stream
