import VivaGenicam.U3v.Framing

/-!
The USB3 Vision stream receiver. Transfers are queued on the endpoint, sized for
where the device will be in its block, and complete in the order they were
queued. A transfer that ends elsewhere than planned has the queue cancelled and
planned again; one that fails costs the block in progress.

What the endpoint does is an input: a `Turn` is one wait of the receiver's loop,
with everything the endpoint answers until the loop waits again.
-/

namespace VivaGenicam.U3v

abbrev Instant := Nat
abbrev Duration := Nat

/-- Where the device is in its block: what the next transfer carries. -/
inductive Cursor where
  | leader
  /-- The payload, this many bytes in. -/
  | payload (offset : Nat)
  | trailer
deriving DecidableEq, Repr

/-- A block being received. -/
structure Block where
  leader : Leader
  payload : List UInt8
  /-- The device ended the payload with a short transfer. -/
  ended : Bool
  /-- When a transfer last added to the block. -/
  last : Instant
deriving DecidableEq, Repr

structure U3vStreamCounters where
  transfers : Nat := 0
  transfersSkipped : Nat := 0
  transferErrors : Nat := 0
  blocksAbandoned : Nat := 0
deriving DecidableEq, Repr

/-- A transfer the queue hands back, and when it is taken in. -/
structure Completion where
  data : List UInt8
  status : Except U3vError Unit
  now : Instant

/-- Whether a transfer that comes back from a cancelled queue failed. -/
def Completion.failed (completion : Completion) : Bool :=
  match completion.status with
  | .ok () | .error .cancelled => false
  | _ => true

/-- What the device turns out to be after a transfer failed. -/
structure Aftermath where
  /-- Whether it is listed, asked once. -/
  listed : Option Bool
  /-- The same, asked until the grace has passed. -/
  looks : List (Option Bool)
  reset : Except U3vError Unit

/-- One wait of the receiver's loop. -/
structure Turn where
  /-- The oldest queued transfer, or nothing within the wait. -/
  completion : Option Completion
  /-- When the wait ended. -/
  now : Instant
  /-- What the queue hands back, wait by wait, once it is cancelled. -/
  drain : Nat → Option Completion
  aftermath : Aftermath

/-- What a transfer turned out to be. -/
inductive Fate where
  | leader
  | trailer
  /-- Payload; whether it went past the capacity. -/
  | payload (overfull : Bool)
  | skipped
deriving DecidableEq, Repr

/-- What the receiver did, for what is said about it: nothing reads it. -/
inductive Event where
  /-- A transfer submitted with one size was taken in as one of another. -/
  | absorbed (data : List UInt8) (submitted requested : Nat) (fate : Fate)
  /-- The block in progress, if any, was given up without a transfer. -/
  | gaveUp
deriving DecidableEq, Repr

/-- What a call of `next_frame_within` came to. -/
inductive Outcome where
  /-- It waits for another turn. -/
  | waiting
  | returned (result : Except U3vError (Option RawFrame))

/-- What one turn of the loop came to. -/
inductive Step where
  | again
  /-- No transfer completed in time. -/
  | idle
  | failed (error : U3vError)

def maxConsecutiveFailures : Nat := 8

structure U3vStream where
  /-- The sizes of the transfers queued on the endpoint, oldest first. -/
  queue : List Nat := []
  layout : StreamLayout
  timeout : Duration := 5000000000
  inFlight : Nat := 8
  /-- The role and size each queued transfer was planned with, oldest first. -/
  planned : List (Cursor × Nat) := []
  /-- What the next transfer submitted is for. -/
  next : Cursor := .leader
  block : Option Block := none
  /-- Blocks finished or given up, not yet handed out. -/
  ready : List RawFrame := []
  counters : U3vStreamCounters := {}
  /-- Transfer errors since the last block finished. -/
  failures : Nat := 0
  events : List Event := []
  /-- The bytes of the transfers that came back without failing; like the events,
  nothing reads it. -/
  arrived : List (List UInt8) := []
  /-- The same, of those that came back while a failure was recovered from. -/
  discarded : List (List UInt8) := []

namespace U3vStream

/-- The transfer the device sends at `cursor`: its size, and where the device is
after it. -/
def slot (layout : StreamLayout) (cursor : Cursor) : Nat × Cursor :=
  let capacity := layout.payloadCapacity
  match cursor with
  | .leader => (layout.leaderSize, if capacity = 0 then .trailer else .payload 0)
  | .payload offset =>
    let size := layout.payloadTransferSize
    let full := size * layout.payloadTransferCount
    let final1 := full + layout.finalTransfer1Size
    let bound :=
      if offset < full then (offset / size + 1) * size
      else if offset < final1 then final1
      else capacity
    let next := if bound ≥ capacity then Cursor.trailer else .payload bound
    (bound - offset, next)
  | .trailer => (layout.trailerSize, .leader)

/-- Where the device is, by what has arrived. -/
def cursor (stream : U3vStream) : Cursor :=
  match stream.block with
  | none => .leader
  | some block =>
    let received := block.payload.length
    if block.ended || decide (received ≥ stream.layout.payloadCapacity) then .trailer
    else .payload received

/-- One pass of `fill`. -/
def submitNext (stream : U3vStream) : U3vStream :=
  let (len, next) := slot stream.layout stream.next
  { stream with
    queue := stream.queue ++ [len]
    planned := stream.planned ++ [(stream.next, len)]
    next }

/-- Queue transfers until `inFlight` are. -/
def fill (stream : U3vStream) : U3vStream :=
  Nat.iterate submitNext (stream.inFlight - stream.queue.length) stream

/-- `BulkIn::wait_next`: the size the transfer was submitted with is kept beside
what arrived. -/
def waitNext (stream : U3vStream) (answer : Option Completion) :
    Option (Nat × Completion × U3vStream) :=
  match stream.queue, answer with
  | submitted :: queue, some completion => some (submitted, completion, { stream with queue })
  | _, _ => none

theorem waitNext_some {stream later : U3vStream} {answer : Option Completion} {submitted : Nat}
    {completion : Completion} (h : stream.waitNext answer = some (submitted, completion, later)) :
    ∃ queue, stream.queue = submitted :: queue ∧ answer = some completion ∧
      later = { stream with queue } := by
  unfold waitNext at h
  split at h
  · rename_i queue other hqueue
    simp only [Option.some.injEq, Prod.mk.injEq] at h
    obtain ⟨rfl, rfl, rfl⟩ := h
    exact ⟨queue, hqueue, rfl, rfl⟩
  · cases h

/-- Give up the block in progress, handing out what arrived of it. -/
def abandon (stream : U3vStream) : U3vStream :=
  match stream.block with
  | none => stream
  | some block =>
    { stream with
      block := none
      counters :=
        { stream.counters with blocksAbandoned := stream.counters.blocksAbandoned + 1 }
      ready := stream.ready ++ [{ leader := block.leader, payload := block.payload, trailer := none }] }

/-- Close the block in progress with `trailer`. -/
def finish (stream : U3vStream) (trailer : Trailer) : U3vStream :=
  match stream.block with
  | none => stream
  | some block =>
    if trailer.blockId ≠ block.leader.blockId then
      stream.abandon
    else
      { stream with
        block := none
        failures := 0
        ready := stream.ready ++
          [{ leader := block.leader, payload := block.payload.take trailer.validPayloadSize
             trailer := some trailer }] }

def note (stream : U3vStream) (event : Event) : U3vStream :=
  { stream with events := stream.events ++ [event] }

def skip (stream : U3vStream) : U3vStream :=
  { stream with
    counters :=
      { stream.counters with transfersSkipped := stream.counters.transfersSkipped + 1 } }

/-- Place one transfer's bytes: a leader opens a block, a trailer closes it,
anything else is payload where payload is due. -/
def absorb (stream : U3vStream) (data : List UInt8) (submitted requested : Nat) (now : Instant) :
    U3vStream :=
  let capacity := stream.layout.payloadCapacity
  match stream.block, stream.layout.asLeader data, stream.layout.asTrailer data with
  | _, some leader, _ =>
    let stream := stream.abandon
    { stream.note (.absorbed data submitted requested .leader) with
      block := some { leader, payload := [], ended := decide (capacity = 0), last := now } }
  | some _, none, some trailer =>
    (stream.finish trailer).note (.absorbed data submitted requested .trailer)
  | some block, none, none =>
    if !block.ended && decide (block.payload.length < capacity) then
      let room := capacity - block.payload.length
      let ended := decide (data.length < requested) || decide (data.length ≥ room)
      let overfull := decide (data.length > room)
      let stream := if overfull then stream.skip else stream
      let payload :=
        -- The whole payload in one transfer is the frame, with no copy.
        if block.payload.isEmpty && ended && decide (data.length ≤ room) then data
        else block.payload ++ data.take (min data.length room)
      { stream.note (.absorbed data submitted requested (.payload overfull)) with
        block := some { block with payload, ended, last := now } }
    else
      stream.skip.note (.absorbed data submitted requested .skipped)
  | none, none, _ => stream.skip.note (.absorbed data submitted requested .skipped)

variable (stream : U3vStream)

theorem abandon_eq :
    ∃ ready counters, stream.abandon = { stream with block := none, ready, counters } := by
  unfold abandon
  split
  · rename_i hnone
    exact ⟨stream.ready, stream.counters, by rw [← hnone]⟩
  · exact ⟨_, _, rfl⟩

theorem finish_eq (trailer : Trailer) :
    ∃ ready counters failures,
      stream.finish trailer = { stream with block := none, ready, counters, failures } := by
  unfold finish
  split
  · rename_i hnone
    exact ⟨stream.ready, stream.counters, stream.failures, by rw [← hnone]⟩
  · split
    · obtain ⟨ready, counters, heq⟩ := stream.abandon_eq
      exact ⟨ready, counters, stream.failures, heq⟩
    · exact ⟨_, _, _, rfl⟩

theorem absorb_eq (data : List UInt8) (submitted requested : Nat) (now : Instant) :
    ∃ block ready counters failures fate,
      stream.absorb data submitted requested now =
        { stream with
          block, ready, counters, failures
          events := stream.events ++ [.absorbed data submitted requested fate] } := by
  unfold absorb
  dsimp only
  split
  · obtain ⟨ready, counters, heq⟩ := stream.abandon_eq
    rw [heq]
    exact ⟨_, ready, counters, stream.failures, _, rfl⟩
  · rename_i trailer hblock _ _
    obtain ⟨ready, counters, failures, heq⟩ := stream.finish_eq trailer
    rw [heq]
    exact ⟨none, ready, counters, failures, _, rfl⟩
  · rename_i block hblock _ _
    split
    · split <;> exact ⟨_, _, _, _, _, rfl⟩
    · exact ⟨_, _, _, _, _, rfl⟩
  · exact ⟨_, _, _, _, _, rfl⟩

/-- What the drain of `recover` came to. -/
structure Drained where
  /-- A transfer said that the device is disconnected. -/
  gone : Bool
  queue : List Nat
  discarded : List (List UInt8)

/-- The drain of `recover`. -/
def emptyQueue : List Nat → (Nat → Option Completion) → Drained
  | [], _ => { gone := false, queue := [], discarded := [] }
  | submitted :: queue, drain =>
    match drain 0 with
    | none => { gone := false, queue := submitted :: queue, discarded := [] }
    | some completion =>
      match completion.status with
      | .error .disconnected => { gone := true, queue, discarded := [] }
      | _ =>
        let rest := emptyQueue queue (fun wait => drain (wait + 1))
        { rest with
          discarded :=
            if completion.failed then rest.discarded else completion.data :: rest.discarded }

/-- A transfer failed: give up the block in progress, empty the queue, reset the
endpoint and wait for the next leader, unless transfers keep failing. -/
def recover (stream : U3vStream) (error : U3vError) (drain : Nat → Option Completion)
    (aftermath : Aftermath) : Except U3vError Unit × U3vStream :=
  let error := unlessGone error [aftermath.listed]
  if error = .disconnected then
    (.error error, stream)
  else
    let failures := stream.failures + 1
    let stream :=
      { stream with
        counters := { stream.counters with transferErrors := stream.counters.transferErrors + 1 }
        failures }
    let stream := stream.abandon.note .gaveUp
    if failures > maxConsecutiveFailures then
      (.error (unlessGone error aftermath.looks), stream)
    else
      let drained := emptyQueue stream.queue drain
      let stream :=
        { stream with queue := drained.queue, discarded := stream.discarded ++ drained.discarded }
      if drained.gone then
        (.error .disconnected, stream)
      else
        let stream := { stream with planned := [] }
        match aftermath.reset with
        | .error error => (.error (unlessGone error aftermath.looks), stream)
        | .ok () => (.ok (), { stream with next := .leader })

def count (stream : U3vStream) : U3vStream :=
  { stream with counters := { stream.counters with transfers := stream.counters.transfers + 1 } }

/-- Note a transfer that came back without failing. -/
def arrive (stream : U3vStream) (completion : Completion) : U3vStream :=
  { stream with
    arrived := stream.arrived ++ if completion.failed then [] else [completion.data] }

/-- Take in one completed transfer of `requested` bytes; `cancelling` while the
stream itself is cancelling what it queued. -/
def complete (stream : U3vStream) (completion : Completion) (submitted requested : Nat)
    (cancelling : Bool) (drain : Nat → Option Completion) (aftermath : Aftermath) :
    Except U3vError Unit × U3vStream :=
  let stream := stream.arrive completion
  match completion.status with
  | .ok () => (.ok (), stream.count.absorb completion.data submitted requested completion.now)
  | .error .cancelled =>
    if cancelling then
      -- Cancelled before anything arrived: it never happened.
      if completion.data.isEmpty then (.ok (), stream)
      else (.ok (), stream.count.absorb completion.data submitted requested completion.now)
    else
      (stream.count.absorb completion.data submitted requested completion.now).recover .cancelled
        drain aftermath
  | .error .disconnected => (.error .disconnected, stream)
  | .error error => stream.count.recover error drain aftermath

/-- The size the oldest plan gives a transfer. -/
def plannedSize (stream : U3vStream) (completion : Completion) : Nat :=
  match stream.planned with
  | [] => completion.data.length
  | (_, len) :: _ => len

/-- The loop of `replan`, at most `fuel` waits; says whether a transfer failed,
so that `complete` has planned again already. -/
def replanLoop (aftermath : Aftermath) : Nat → (Nat → Option Completion) → U3vStream →
    Except U3vError Bool × U3vStream
  | 0, _, stream => (.ok false, stream)
  | fuel + 1, drain, stream =>
    match stream.waitNext (drain 0) with
    | none => (.ok false, stream)
    | some (submitted, completion, stream) =>
      let requested := stream.plannedSize completion
      let stream := { stream with planned := stream.planned.tail }
      let drain := fun wait => drain (wait + 1)
      match stream.complete completion submitted requested true drain aftermath with
      | (.error error, stream) => (.error error, stream)
      | (.ok (), stream) =>
        if completion.failed then (.ok true, stream)
        else replanLoop aftermath fuel drain stream

/-- Cancel what is queued, take in what had already arrived, and plan again from
where the device is. -/
def replan (stream : U3vStream) (drain : Nat → Option Completion) (aftermath : Aftermath) :
    Except U3vError Unit × U3vStream :=
  match replanLoop aftermath stream.queue.length drain stream with
  | (.error error, stream) => (.error error, stream)
  | (.ok true, stream) => (.ok (), stream)
  | (.ok false, stream) => (.ok (), { stream with planned := [], next := stream.cursor })

/-- The loop's body after `complete`: plan again when the device is no longer
where the queued transfers were planned for. -/
def settle (stream : U3vStream) (drain : Nat → Option Completion) (aftermath : Aftermath) :
    Except U3vError Unit × U3vStream :=
  match stream.planned with
  | [] => (.ok (), { stream with next := stream.cursor })
  | (next, _) :: _ =>
    if next ≠ stream.cursor then stream.replan drain aftermath else (.ok (), stream)

/-- One turn of the loop, with no frame ready. -/
def turn (stream : U3vStream) (turn : Turn) : Step × U3vStream :=
  let stream := stream.fill
  match stream.waitNext turn.completion with
  | none =>
    if stream.block.any (fun block => decide (turn.now - block.last ≥ stream.timeout)) then
      (.again, stream.abandon.note .gaveUp)
    else
      (.idle, stream)
  | some (submitted, completion, stream) =>
    let requested := stream.plannedSize completion
    let stream := { stream with planned := stream.planned.tail }
    match stream.complete completion submitted requested false turn.drain turn.aftermath with
    | (.error error, stream) => (.failed error, stream)
    | (.ok (), stream) =>
      match stream.settle turn.drain turn.aftermath with
      | (.error error, stream) => (.failed error, stream)
      | (.ok (), stream) => (.again, stream)

/-- The next block, finished or given up, or nothing when no transfer completed
in time. -/
def nextFrameWithin (stream : U3vStream) (turns : List Turn) : Outcome × U3vStream :=
  match stream.ready, turns with
  | frame :: ready, _ => (.returned (.ok (some frame)), { stream with ready })
  | [], [] => (.waiting, stream)
  | [], first :: rest =>
    match stream.turn first with
    | (.idle, stream) => (.returned (.ok none), stream)
    | (.failed error, stream) => (.returned (.error error), stream)
    | (.again, stream) => stream.nextFrameWithin rest

def setTimeout (stream : U3vStream) (timeout : Duration) : U3vStream := { stream with timeout }

def setTransfersInFlight (stream : U3vStream) (transfers : Nat) : U3vStream :=
  { stream with inFlight := max transfers 1 }

end U3vStream

/-- What an application does with a stream. -/
inductive Call where
  | nextFrameWithin (turns : List Turn)
  | setTimeout (timeout : Duration)
  | setTransfersInFlight (transfers : Nat)

def U3vStream.call (stream : U3vStream) : Call → Outcome × U3vStream
  | .nextFrameWithin turns => stream.nextFrameWithin turns
  | .setTimeout timeout => (.returned (.ok none), stream.setTimeout timeout)
  | .setTransfersInFlight transfers =>
    (.returned (.ok none), stream.setTransfersInFlight transfers)

end VivaGenicam.U3v
