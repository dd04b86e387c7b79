import VivaGenicam.Library.Outbox
import VivaGenicam.Library.Transition
import VivaGenicam.Stream.Assembler

/-!
The hand-over of frames from a stream's receive thread to the application: a
bounded queue that drops its oldest, and counters that each thread writes when a
block's fate is decided. Both threads are stepped one access to the state they
share at a time, in any order.

The GigE Vision and the USB3 Vision stream differ in what they make of a block;
that is a parameter.
-/

namespace VivaGenicam.Stream

open Library Library.Transition

/-- The end of a stream as the queue reports it. -/
inductive End where
  | failed
  | finished
deriving DecidableEq, Repr

/-- What a pop found. -/
inductive Popped (α : Type*) where
  | item (item : α)
  | failed
  | finished
  | empty

/-- A bounded, drop-oldest hand-off. -/
structure DeliveryQueue (α : Type*) where
  items : Outbox α := {}
  ending : Option End := none
  capacity : Nat := 16

namespace DeliveryQueue

variable {α : Type*}

/-- Add an item; says whether the oldest one left for it. -/
def push (queue : DeliveryQueue α) (item : α) : Bool × DeliveryQueue α :=
  if queue.items.queued.length ≥ queue.capacity then
    (!queue.items.queued.isEmpty,
      { queue with items := (queue.items.leave .dropped 1).enter [item] })
  else
    (false, { queue with items := queue.items.enter [item] })

def fail (queue : DeliveryQueue α) : DeliveryQueue α :=
  { queue with ending := queue.ending.orElse fun _ => some .failed }

def finish (queue : DeliveryQueue α) : DeliveryQueue α :=
  { queue with ending := queue.ending.orElse fun _ => some .finished }

def tryPop (queue : DeliveryQueue α) : Popped α × DeliveryQueue α :=
  match queue.items.queued, queue.ending with
  | item :: _, _ => (.item item, { queue with items := queue.items.leave .taken 1 })
  | [], some .failed => (.failed, { queue with ending := some .finished })
  | [], some .finished => (.finished, queue)
  | [], none => (.empty, queue)

end DeliveryQueue

/-- The frame counters of `StreamStats` that delivery writes. -/
structure FrameCounters where
  complete : Nat := 0
  incomplete : Nat := 0
  backpressure : Nat := 0
  unsupported : Nat := 0
deriving DecidableEq, Repr

/-- What `deliver` makes of a block. -/
inductive Decision (α : Type*) where
  | unsupported
  | incomplete
  | queue (item : α)

/-- What the receive thread does next. -/
inductive Delivering (α : Type*) where
  | idle
  | recording (unsupported : Bool)
  | pushing (item : α)
  /-- The oldest item left the queue for a newer one. -/
  | evicted

/-- What the application's `take` does next. -/
inductive Taking (α : Type*) where
  | idle
  | took (item : α)

/-- The two threads and what they share. -/
structure Delivery (α : Type*) where
  queue : DeliveryQueue α := {}
  deliverIncomplete : Bool := false
  /-- What the receive thread last read of `deliverIncomplete`. -/
  loaded : Bool := false
  stats : FrameCounters := {}
  delivering : Delivering α := .idle
  taking : Taking α := .idle
  /-- How many blocks were given to `deliver`, and what was made of those that
  were not queued; nothing reads these. -/
  given : Nat := 0
  refused : FrameCounters := {}

/-- One access to the shared state. -/
inductive DeliveryStep (β : Type*) where
  | setDeliverIncomplete (deliver : Bool)
  /-- The receive thread reads the setting. -/
  | load
  /-- A block is given to `deliver`. -/
  | give (block : β)
  /-- The receive thread goes on. -/
  | deliver
  /-- The application takes an item off the queue, and then counts it. -/
  | pop
  | count
  | fail
  | finish

namespace Delivery

variable {α β : Type*} (decide : β → Bool → Decision α) (status : α → FrameStatus)

def give (delivery : Delivery α) (block : β) : Delivery α :=
  match delivery.delivering with
  | .idle =>
    let delivery := { delivery with given := delivery.given + 1 }
    match decide block delivery.loaded with
    | .unsupported => { delivery with delivering := .recording true }
    | .incomplete => { delivery with delivering := .recording false }
    | .queue item => { delivery with delivering := .pushing item }
  | _ => delivery

def deliver (delivery : Delivery α) : Delivery α :=
  let stats := delivery.stats
  let refused := delivery.refused
  match delivery.delivering with
  | .idle => delivery
  | .recording true =>
    { delivery with
      delivering := .idle
      stats := { stats with unsupported := stats.unsupported + 1 }
      refused := { refused with unsupported := refused.unsupported + 1 } }
  | .recording false =>
    { delivery with
      delivering := .idle
      stats := { stats with incomplete := stats.incomplete + 1 }
      refused := { refused with incomplete := refused.incomplete + 1 } }
  | .pushing item =>
    let (evicted, queue) := delivery.queue.push item
    { delivery with queue, delivering := if evicted then .evicted else .idle }
  | .evicted =>
    { delivery with
      delivering := .idle
      stats := { stats with backpressure := stats.backpressure + 1 } }

def pop (delivery : Delivery α) : Delivery α :=
  match delivery.taking with
  | .idle =>
    match delivery.queue.tryPop with
    | (.item item, queue) => { delivery with queue, taking := .took item }
    | (_, queue) => { delivery with queue }
  | .took _ => delivery

/-- `take` counts the frame it hands out. -/
def count (delivery : Delivery α) : Delivery α :=
  let stats := delivery.stats
  match delivery.taking with
  | .idle => delivery
  | .took item =>
    if (status item).isComplete then
      { delivery with
        taking := .idle
        stats := { stats with complete := stats.complete + 1 } }
    else
      { delivery with
        taking := .idle
        stats := { stats with incomplete := stats.incomplete + 1 } }

def step (delivery : Delivery α) : DeliveryStep β → Delivery α
  | .setDeliverIncomplete deliverIncomplete => { delivery with deliverIncomplete }
  | .load => { delivery with loaded := delivery.deliverIncomplete }
  | .give block => delivery.give decide block
  | .deliver => delivery.deliver
  | .pop => delivery.pop
  | .count => delivery.count status
  | .fail => { delivery with queue := delivery.queue.fail }
  | .finish => { delivery with queue := delivery.queue.finish }

/-- The blocks that have left the queue, or never reach it, and are not counted
yet: one at most for each thread. -/
def atWork (delivery : Delivery α) : Nat :=
  (match delivery.delivering with
    | .idle => 0
    | _ => 1) +
  match delivery.taking with
  | .idle => 0
  | .took _ => 1

def countedOrEvicted : Delivering α → Nat
  | .evicted => 1
  | _ => 0

def pushedNext : Delivering α → Nat
  | .pushing _ => 1
  | _ => 0

def refusedNext : Delivering α → Nat
  | .recording _ => 1
  | _ => 0

/-- Items an application took with the status, but for the one it is about to
count. -/
def takenWith (delivery : Delivery α) (complete : Bool) : Nat :=
  (delivery.queue.items.exits .taken).countP fun item => (status item).isComplete == complete

def countsNext (complete : Bool) : Taking α → Nat
  | .idle => 0
  | .took item => if (status item).isComplete == complete then 1 else 0

/-- Every block given is counted once, where its fate was decided, or queued. -/
structure Accounted (delivery : Delivery α) : Prop where
  /-- Items leave the queue in their order, each once. -/
  items_sound : delivery.queue.items.Sound
  capacity_pos : 0 < delivery.queue.capacity
  length_le : delivery.queue.items.queued.length ≤ delivery.queue.capacity
  given_eq : delivery.given =
    delivery.queue.items.entered.length + delivery.refused.unsupported +
      delivery.refused.incomplete + pushedNext delivery.delivering +
      refusedNext delivery.delivering
  unsupported_eq : delivery.stats.unsupported = delivery.refused.unsupported
  backpressure_eq : delivery.stats.backpressure + countedOrEvicted delivery.delivering =
    (delivery.queue.items.exits .dropped).length
  complete_eq : delivery.stats.complete + countsNext status true delivery.taking =
    delivery.takenWith status true
  incomplete_eq : delivery.stats.incomplete + countsNext status false delivery.taking =
    delivery.takenWith status false + delivery.refused.incomplete

section Steps

variable {status} {delivery : Delivery α} (h : delivery.Accounted status)

include h

theorem Accounted.give (block : β) : (delivery.give decide block).Accounted status := by
  unfold Delivery.give
  split
  · rename_i hidle
    have hgiven := h.given_eq
    have hbackpressure := h.backpressure_eq
    rw [hidle] at hgiven hbackpressure
    dsimp only
    split
    all_goals
      exact
        { h with
          given_eq := by
            simp only [pushedNext, refusedNext] at hgiven ⊢
            omega
          backpressure_eq := hbackpressure }
  · exact h

theorem Accounted.deliver : delivery.deliver.Accounted status := by
  have hgiven := h.given_eq
  have hbackpressure := h.backpressure_eq
  unfold Delivery.deliver
  dsimp only
  split
  · exact h
  · rename_i hphase
    rw [hphase] at hgiven hbackpressure
    exact
      { h with
        given_eq := by
          simp only [pushedNext, refusedNext] at hgiven ⊢
          omega
        unsupported_eq := congrArg (· + 1) h.unsupported_eq
        backpressure_eq := hbackpressure }
  · rename_i hphase
    rw [hphase] at hgiven hbackpressure
    have hincomplete := h.incomplete_eq
    exact
      { h with
        given_eq := by
          simp only [pushedNext, refusedNext] at hgiven ⊢
          omega
        backpressure_eq := hbackpressure
        incomplete_eq := by
          simp only [takenWith] at hincomplete ⊢
          omega }
  · rename_i item hphase
    rw [hphase] at hgiven hbackpressure
    unfold DeliveryQueue.push
    have hle := h.length_le
    split
    · rename_i hfull
      cases hqueued : delivery.queue.items.queued with
      | nil =>
        have hpos := h.capacity_pos
        rw [hqueued, List.length_nil] at hfull
        omega
      | cons oldest rest =>
        rw [hqueued, List.length_cons] at hle
        have hcomplete := h.complete_eq
        have hincomplete := h.incomplete_eq
        simp only [takenWith] at hcomplete hincomplete
        exact
          { h with
            items_sound := (h.items_sound.leave .dropped 1).enter [item]
            length_le := by
              simp only [Outbox.enter, Outbox.leave, hqueued, List.drop_succ_cons, List.drop_zero,
                List.length_append, List.length_singleton]
              omega
            given_eq := by
              simp only [Outbox.enter, Outbox.leave, List.length_append, List.length_singleton,
                List.isEmpty_cons, Bool.not_false, if_true, pushedNext, refusedNext] at hgiven ⊢
              omega
            backpressure_eq := by
              simp only [Outbox.exits_enter, Outbox.exits_leave, hqueued, if_true,
                List.take_succ_cons, List.take_zero, List.length_append, List.length_singleton,
                List.isEmpty_cons, Bool.not_false, countedOrEvicted] at hbackpressure ⊢
              omega
            complete_eq := by
              simpa [takenWith, Outbox.exits_leave] using hcomplete
            incomplete_eq := by
              simpa [takenWith, Outbox.exits_leave] using hincomplete }
    · rename_i hroom
      exact
        { h with
          items_sound := h.items_sound.enter [item]
          length_le := by
            simp only [Outbox.enter, List.length_append, List.length_singleton]
            omega
          given_eq := by
            simp only [Outbox.enter, List.length_append, List.length_singleton,
              Bool.false_eq_true, if_false, pushedNext, refusedNext] at hgiven ⊢
            omega
          backpressure_eq := hbackpressure }
  · rename_i hphase
    rw [hphase] at hgiven hbackpressure
    exact
      { h with
        given_eq := hgiven
        backpressure_eq := by
          simp only [countedOrEvicted] at hbackpressure ⊢
          omega }

theorem Accounted.pop : delivery.pop.Accounted status := by
  unfold Delivery.pop
  split
  · rename_i hidle
    have hcomplete := h.complete_eq
    have hincomplete := h.incomplete_eq
    rw [hidle] at hcomplete hincomplete
    cases hqueued : delivery.queue.items.queued with
    | nil =>
      cases hending : delivery.queue.ending with
      | none => simpa [DeliveryQueue.tryPop, hqueued, hending] using h
      | some ending =>
        cases ending <;>
          · simp only [DeliveryQueue.tryPop, hqueued, hending]
            exact { h with }
    | cons item rest =>
      simp only [DeliveryQueue.tryPop, hqueued]
      have hle := h.length_le
      rw [hqueued, List.length_cons] at hle
      exact
        { h with
          items_sound := h.items_sound.leave .taken 1
          length_le := by
            simp only [Outbox.leave, hqueued, List.drop_succ_cons, List.drop_zero]
            omega
          backpressure_eq := by
            simp only [Outbox.exits_leave, reduceCtorEq, if_false, List.append_nil]
            exact h.backpressure_eq
          complete_eq := by
            simp only [takenWith, Outbox.exits_leave, if_true, hqueued, List.take_succ_cons,
              List.take_zero, List.countP_append, List.countP_singleton, countsNext]
              at hcomplete ⊢
            omega
          incomplete_eq := by
            simp only [takenWith, Outbox.exits_leave, if_true, hqueued, List.take_succ_cons,
              List.take_zero, List.countP_append, List.countP_singleton, countsNext]
              at hincomplete ⊢
            omega }
  · exact h

theorem Accounted.count : (delivery.count status).Accounted status := by
  have hcomplete := h.complete_eq
  have hincomplete := h.incomplete_eq
  unfold Delivery.count
  dsimp only
  split
  · exact h
  · rename_i item htook
    rw [htook] at hcomplete hincomplete
    split
    all_goals
      rename_i hstatus
      simp only [countsNext, hstatus, takenWith] at hcomplete hincomplete
      exact
        { h with
          complete_eq := by
            simp only [countsNext, takenWith]
            simpa using hcomplete
          incomplete_eq := by
            simp only [countsNext, takenWith]
            simpa using hincomplete }

theorem Accounted.step (next : DeliveryStep β) :
    (delivery.step decide status next).Accounted status := by
  cases next with
  | setDeliverIncomplete => exact { h with }
  | load => exact { h with }
  | give block => exact h.give decide block
  | deliver => exact h.deliver
  | pop => exact h.pop
  | count => exact h.count
  | fail => exact { h with }
  | finish => exact { h with }

end Steps

theorem accounted_start : Accounted status {} where
  items_sound := Outbox.sound_empty
  capacity_pos := Nat.succ_pos _
  length_le := Nat.zero_le _
  given_eq := rfl
  unsupported_eq := rfl
  backpressure_eq := rfl
  complete_eq := rfl
  incomplete_eq := rfl

theorem accounted_run (steps : List (DeliveryStep β)) :
    (run (Delivery.step decide status) {} steps).Accounted status :=
  run_invariant _ (fun _ _ => True) (Accounted status) (fun _ next h _ => h.step decide next) _ _
    (accounted_start status) (guarded_of_forall _ _ _ _ fun _ _ _ => trivial)

/-- The accounting identity of `StreamStats`, with the blocks the threads have
in hand. -/
def Balanced (delivery : Delivery α) : Prop :=
  delivery.given =
    delivery.stats.complete + delivery.stats.incomplete + delivery.stats.backpressure +
      delivery.stats.unsupported + delivery.queue.items.queued.length + delivery.atWork

theorem Accounted.balanced {status : α → FrameStatus} {delivery : Delivery α}
    (h : delivery.Accounted status) : delivery.Balanced := by
  have htaken : (delivery.queue.items.exits .taken).length =
      delivery.takenWith status true + delivery.takenWith status false := by
    unfold takenWith
    induction delivery.queue.items.exits .taken with
    | nil => rfl
    | cons item rest ih => cases hstatus : (status item).isComplete <;> simp [hstatus, ih] <;> omega
  have hlength := h.items_sound.length_eq
  have hgiven := h.given_eq
  have hunsupported := h.unsupported_eq
  have hbackpressure := h.backpressure_eq
  have hcomplete := h.complete_eq
  have hincomplete := h.incomplete_eq
  have hdelivering : (match delivery.delivering with
      | .idle => 0
      | _ => 1) =
      pushedNext delivery.delivering + refusedNext delivery.delivering +
        countedOrEvicted delivery.delivering := by
    cases delivery.delivering <;> rfl
  have htaking : (match delivery.taking with
      | .idle => 0
      | .took _ => 1) =
      countsNext status true delivery.taking + countsNext status false delivery.taking := by
    cases delivery.taking with
    | idle => rfl
    | took item => cases hstatus : (status item).isComplete <;> simp [countsNext, hstatus]
  unfold Balanced atWork
  omega

end Delivery

/-- `deliver` of the GVSP receive engine; the item keeps the block's status. -/
def deliverGige (block : AssembledBlock) (deliverIncomplete : Bool) : Decision AssembledBlock :=
  if block.status.isComplete then .queue block
  else if !deliverIncomplete then .incomplete
  else .queue block

end VivaGenicam.Stream
