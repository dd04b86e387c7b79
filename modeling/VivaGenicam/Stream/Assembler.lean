import VivaGenicam.Library.Queue
import VivaGenicam.Stream.Block

/-!
The assembler: blocks in flight in the order they started, the newest block id
seen, and the calls the receive thread makes. Besides what the source hands
out, each call returns the blocks that left it as they were when they left, so
that a run can be audited afterwards.
-/

namespace VivaGenicam.Stream

open Gvsp Library Library.Queue

/-- Blocks assembled at once. A fourth closes the oldest. -/
def maxInFlight : Nat := 3

/-- How far behind the newest block id a block may be and still count as late
rather than as the camera restarting its count. -/
def lateWindow : Nat := 100

/-- A block the assembler is finished with. -/
structure AssembledBlock where
  blockId : Nat
  status : FrameStatus
  leader : Option LeaderInfo
  payloadType : Nat
  payload : List UInt8
  trailerSizeY : Option Nat
  expectedSize : Option Nat
  lastPacket : Instant
deriving DecidableEq, Repr

/-- A block that left, and the frame it left as: none when its payload type is
not assembled. -/
structure Departed where
  block : BlockInFlight
  frame : Option AssembledBlock

/-- Where a packet's block stands relative to the blocks already seen. -/
inductive Order where
  | unordered
  | next (missed : Nat)
  | late
  | restart
deriving DecidableEq, Repr

/-- Signed distance from `last` to `next` in the 16-bit id cycle `1 ..= 65535`,
which skips 0. Positive is newer; the cycle is split at its midpoint. Ids count as `i64`. -/
def distance16 (last next : Nat) : Int :=
  let pos := fun (id : Nat) => (Int64.ofNat id - 1).toInt % 65535
  let d := (pos next - pos last) % 65535
  if d > 65535 / 2 then d - 65535 else d

/-- `next.wrapping_sub(last) as i64`. -/
def distance64 (last next : Nat) : Int :=
  let d := ((next : Int) - (last : Int)) % 2 ^ 64
  if d ≥ 2 ^ 63 then d - 2 ^ 64 else d

def distance (extendedIds : Bool) (last next : Nat) : Int :=
  if extendedIds then distance64 last next else distance16 last next

/-- Classify `next` against the newest block id so far. -/
def classify (last : Option Nat) (next : Nat) (extendedIds leader : Bool) : Order :=
  match last with
  | none => .unordered
  | some last =>
    if next = 0 ∧ extendedIds = false then
      .unordered
    else
      let d := distance extendedIds last next
      -- A leader of block 1 from anything but its predecessor is a camera that
      -- restarted acquisition and its count.
      if next = 1 ∧ leader ∧ d ≠ 1 ∧ d ≠ 0 then
        .restart
      else if d > 0 then
        .next (d.toNat - 1)
      else if d.natAbs ≤ lateWindow then
        .late
      else
        .restart

/-- How a GVSP status that answers a resend request is acted on, or `none` for
any other status. -/
def resendAnswer (status : Nat) : Option (Option Answer) :=
  match GigeStatus.fromRaw status with
  | .packetUnavailable | .packetRemovedFromMemory => some (some .gone)
  | .packetAndPreviousRemovedFromMemory => some (some .goneWithPrevious)
  | .packetNotYetAvailable | .packetTemporarilyUnavailable => some none
  | _ => none

/-- A leader, data packet or trailer that reached its block. -/
inductive Content where
  | leader (leader : GvspLeader)
  | payload (data : List UInt8)
  | trailer (trailer : GvspTrailer)
deriving DecidableEq, Repr

def Content.isLeader : Content → Bool
  | .leader _ => true
  | _ => false

/-- What `ingest` makes of a datagram before any block is looked at. -/
inductive Reading where
  /-- A camera's answer to a resend request it could not serve: a bare header,
  so its status is read before anything else is parsed. -/
  | answer (header : GvspHeader) (answer : Option Answer)
  | malformed
  /-- A packet format the engine does not assemble. -/
  | unsupported (header : GvspHeader)
  /-- A leader or data packet whose status reports an error. -/
  | errorStatus (header : GvspHeader)
  | packet (header : GvspHeader) (content : Content)

def readDatagram (datagram : List UInt8) : Reading :=
  match (parseHeader datagram).toOption.bind fun header =>
      (resendAnswer header.status).map (header, ·) with
  | some (header, answer) => .answer header answer
  | none =>
    match parsePacketRef datagram with
    | .error _ => .malformed
    | .ok { header, content } =>
      match content with
      | .unsupported _ => .unsupported header
      | .trailer trailer => .packet header (.trailer trailer)
      | .leader leader =>
        if header.status &&& statusError ≠ 0 then .errorStatus header
        else .packet header (.leader leader)
      | .payload data =>
        if header.status &&& statusError ≠ 0 then .errorStatus header
        else .packet header (.payload data)

structure Assembler where
  config : AssemblyConfig
  stats : StreamStats := {}
  inFlight : List BlockInFlight := []
  lastBlockId : Option Nat := none
  spareBitmaps : List PacketBitmap := []
  largestEstimate : Nat := 0

/-- A block that leaves: its bitmap goes back to the spares before anything
else is read from it. -/
def BlockInFlight.depart (block : BlockInFlight) (packetSize : Nat) : Departed :=
  let bare := { block with bitmap := PacketBitmap.empty }
  let frame :=
    match block.resolved with
    | some (.frame status) =>
      some
        { blockId := bare.blockId
          status
          leader := bare.leader
          payloadType :=
            (bare.leaderPayloadType.or (bare.trailer.map (·.payloadType))).getD 0
          payload := bare.buffer.take bare.extent
          trailerSizeY := bare.trailer.map (·.sizeY)
          expectedSize := bare.expectedSize status packetSize
          lastPacket := bare.lastPacket }
    | _ => none
  { block, frame }

/-- The counter a departure writes: only a block whose payload type is not
assembled is counted here, the rest where their frames are delivered. -/
def StreamStats.recordDeparture (stats : StreamStats) (block : BlockInFlight) : StreamStats :=
  match block.resolved with
  | some .unsupported => stats.recordUnsupportedBlock
  | _ => stats

/-- What an unresolved block does about a packet that was admitted to it. The
last component is the size estimate an accepted leader contributes. -/
def BlockInFlight.receive (config : AssemblyConfig) (block : BlockInFlight)
    (stats : StreamStats) (header : GvspHeader) (content : Content) (now : Instant) :
    BlockInFlight × StreamStats × Nat :=
  match content with
  | .leader leader =>
    let (block, stats, estimate) := block.onLeader stats leader
    let (block, stats) := block.trackArrival config stats header.packetId false now
    (block.tryComplete, stats, estimate)
  | .payload data =>
    let (arrived, block, stats) := block.onPayload config stats header data
    let (block, stats) :=
      if arrived then block.trackArrival config stats header.packetId false now
      else (block, stats)
    (block.tryComplete, stats, 0)
  | .trailer trailer =>
    let (block, stats) := block.onTrailer config stats header trailer
    let (block, stats) := block.trackArrival config stats header.packetId true now
    (block.tryComplete, stats, 0)

def BlockInFlight.deliver (config : AssemblyConfig) (block : BlockInFlight)
    (stats : StreamStats) (header : GvspHeader) (content : Content) (now : Instant) :
    BlockInFlight × StreamStats × Nat :=
  let touched := { block with lastPacket := now }
  match block.resolved with
  -- Every packet of a complete block is in; this one is a repeat.
  | some (.frame .complete) => (touched, stats.recordDuplicatePacket, 0)
  -- Closed and waiting for an older block to leave first.
  | some _ => (touched, stats.recordIgnoredPacket .late, 0)
  | none => touched.receive config stats header content now

/-- A block just started, before its first packet is looked at. -/
def BlockInFlight.start (config : AssemblyConfig) (spare : PacketBitmap) (header : GvspHeader)
    (now : Instant) : BlockInFlight :=
  let stride := max (payloadStride config.packetSize header.headerLen) 1
  let (buffer, packets) :=
    match config.payloadSize with
    | some size => (acquire size, size ⌈/⌉ stride)
    | none => ([], 0)
  { blockId := header.blockId
    extendedIds := header.extendedIds
    resend := if config.resend.enabled then some {} else none
    lastPacket := now
    leader := none
    leaderPayloadType := none
    unsupported := false
    trailer := none
    planned := buffer.length
    buffer
    extent := 0
    bitmap := spare.reset packets
    highestPayloadId := 0
    anyPayload := false
    shortPacket := none
    resolved := none }

/-- Whether `poll` at `now` closes this block. The newest block does not time
out while its leader is the only packet received. -/
def BlockInFlight.timedOut (config : AssemblyConfig) (block : BlockInFlight) (now : Instant)
    (newest : Bool) : Bool :=
  block.resolved.isNone && decide (config.blockTimeout ≤ now - block.lastPacket) &&
    !(newest && block.leader.isSome && !block.anyPayload && block.trailer.isNone)

/-- The loop of `poll` over the blocks from position `index` on. -/
def pollBlocks (config : AssemblyConfig) (now : Instant) (newest : Nat) :
    Nat → List BlockInFlight → StreamStats → List BlockInFlight × StreamStats
  | _, [], stats => ([], stats)
  | index, block :: rest, stats =>
    let (block, stats) :=
      if block.timedOut config now (index == newest) then block.close stats else (block, stats)
    let (rest, stats) := pollBlocks config now newest (index + 1) rest stats
    (block :: rest, stats)

/-- Ask one block's gaps at `now`, as `resend_due` does. -/
def BlockInFlight.resendDue (config : AssemblyConfig) (block : BlockInFlight)
    (stats : StreamStats) (now : Instant) : BlockInFlight × StreamStats × List ResendRequest :=
  match block.resolved, block.resend with
  | none, some resend =>
    let stride := max (payloadStride config.packetSize (headerLenOf block.extendedIds)) 1
    -- From the trailer once it has come, else from the buffer, else from what
    -- has been seen.
    let packets :=
      match block.trailer with
      | some trailer => trailer.lastPayloadId + 2
      | none =>
        if block.buffer.isEmpty then resend.frontier + 1
        else (block.buffer.length ⌈/⌉ stride) + 2
    let (done, resend, requests) :=
      resend.due now config.resend packets (block.blockId, block.extendedIds)
    let stats :=
      if done.newlyRequested > 0 then stats.recordResendRequested done.newlyRequested else stats
    ({ block with resend := some resend }, stats, requests)
  | _, _ => (block, stats, [])

def resendDueBlocks (config : AssemblyConfig) (now : Instant) :
    List BlockInFlight → StreamStats → List BlockInFlight × StreamStats × List ResendRequest
  | [], stats => ([], stats, [])
  | block :: rest, stats =>
    let (block, stats, requests) := block.resendDue config stats now
    let (rest, stats, more) := resendDueBlocks config now rest stats
    (block :: rest, stats, requests ++ more)

namespace Assembler

/-- Hand out resolved blocks from the front, in the order they started. -/
def emit (self : Assembler) : Assembler × List Departed :=
  let leaving := self.inFlight.takeWhile (·.resolved.isSome)
  ({ self with
      inFlight := self.inFlight.dropWhile (·.resolved.isSome)
      spareBitmaps := self.spareBitmaps ++ leaving.map (·.bitmap)
      stats := leaving.foldl StreamStats.recordDeparture self.stats },
    leaving.map (·.depart self.config.packetSize))

def touch (self : Assembler) (blockId : Nat) (now : Instant) : Assembler :=
  { self with
    inFlight := updateFirst (·.blockId == blockId)
      (fun block => { block with lastPacket := now }) self.inFlight }

def ignore (self : Assembler) (reason : IgnoredPacket) : Assembler :=
  { self with stats := self.stats.recordIgnoredPacket reason }

/-- A camera's answer to a resend request it could not serve. -/
def onResendAnswer (self : Assembler) (header : GvspHeader) (answer : Option Answer) :
    Assembler :=
  let target := fun (block : BlockInFlight) =>
    block.blockId == header.blockId && block.resolved.isNone
  match (self.inFlight.find? target).bind (·.resend), answer with
  | some resend, some answer =>
    let (gone, resend) := resend.unavailable header.packetId answer
    { self with
      inFlight := updateFirst target (fun block => { block with resend := some resend })
        self.inFlight
      stats := if gone > 0 then self.stats.recordResendUnavailable gone else self.stats }
  | _, _ => self

/-- One pass of the eviction loop: close the oldest block unless it is
finished, then let finished blocks leave. -/
def evictOne (self : Assembler) : Assembler × List Departed :=
  match self.inFlight with
  | [] => self.emit
  | block :: rest =>
    if block.resolved.isNone then
      let (block, stats) := block.close self.stats
      { self with inFlight := block :: rest, stats }.emit
    else
      self.emit

/-- The eviction loop of `admit`, at most `fuel` passes. -/
def evict : Nat → Assembler → Assembler × List Departed
  | 0, self => (self, [])
  | fuel + 1, self =>
    if self.inFlight.length ≥ maxInFlight then
      let (self, out) := self.evictOne
      let (self, more) := evict fuel self
      (self, out ++ more)
    else
      (self, [])

/-- What `admit` records about a block id it starts a block for; `none` when
the packet is late. -/
def order (self : Assembler) (header : GvspHeader) (leader : Bool) : Option Assembler :=
  match classify self.lastBlockId header.blockId header.extendedIds leader with
  | .late => none
  | .next missed =>
    some
      { self with
        stats := if missed > 0 then self.stats.recordMissedFrames missed else self.stats
        lastBlockId := some header.blockId }
  | .restart => some { self with lastBlockId := some header.blockId }
  | .unordered =>
    if header.blockId ≠ 0 ∨ header.extendedIds then
      some { self with lastBlockId := some header.blockId }
    else
      some self

/-- The index of the packet's block, starting it if it is new; no index for a
late packet. -/
def admitPacket (self : Assembler) (header : GvspHeader) (leader : Bool) (now : Instant) :
    Assembler × List Departed × Option Nat :=
  match self.inFlight.findIdx? (·.blockId == header.blockId) with
  | some index => (self, [], some index)
  | none =>
    match self.order header leader with
    | none => (self, [], none)
    | some self =>
      let (self, out) := evict self.inFlight.length self
      let spare := self.spareBitmaps.getLast?.getD .empty
      let block := BlockInFlight.start self.config spare header now
      ({ self with
          inFlight := self.inFlight ++ [block]
          spareBitmaps := self.spareBitmaps.dropLast },
        out, some self.inFlight.length)

/-- Give an admitted packet to its block, and let finished blocks leave. -/
def deliver (self : Assembler) (index : Nat) (header : GvspHeader) (content : Content)
    (now : Instant) : Assembler × List Departed :=
  match self.inFlight[index]? with
  | none => (self, [])
  | some block =>
    let (after, stats, estimate) := block.deliver self.config self.stats header content now
    let self :=
      { self with
        inFlight := self.inFlight.set index after
        stats
        largestEstimate := max self.largestEstimate estimate }
    if block.resolved.isSome then (self, []) else self.emit

/-- Take one datagram that arrived at `now`. -/
def ingest (self : Assembler) (datagram : List UInt8) (now : Instant) :
    Assembler × List Departed :=
  match readDatagram datagram with
  | .answer header answer =>
    (((self.touch header.blockId now).ignore .errorStatus).onResendAnswer header answer, [])
  | .malformed => (self.ignore .malformed, [])
  | .unsupported header => ((self.touch header.blockId now).ignore .unsupported, [])
  | .errorStatus header => ((self.touch header.blockId now).ignore .errorStatus, [])
  | .packet header content =>
    match self.admitPacket header content.isLeader now with
    | (self, out, none) => (self.ignore .late, out)
    | (self, out, some index) =>
      let (self, more) := self.deliver index header content now
      (self, out ++ more)

/-- Close every block that has been silent for the block timeout. -/
def poll (self : Assembler) (now : Instant) : Assembler × List Departed :=
  let newest := self.inFlight.length - 1
  let (blocks, stats) := pollBlocks self.config now newest 0 self.inFlight self.stats
  { self with inFlight := blocks, stats }.emit

/-- The resend requests due at `now`, in block order. -/
def resendDue (self : Assembler) (now : Instant) : Assembler × List ResendRequest :=
  if self.config.resend.enabled then
    let (blocks, stats, requests) :=
      resendDueBlocks self.config now self.inFlight self.stats
    ({ self with inFlight := blocks, stats }, requests)
  else
    (self, [])

/-- Change the configuration. Blocks already in flight keep their buffers. -/
def setConfig (self : Assembler) (config : AssemblyConfig) : Assembler :=
  { self with config }

end Assembler

/-- A call the receive thread makes. -/
inductive Call where
  | ingest (datagram : List UInt8) (now : Instant)
  | poll (now : Instant)
  | resendDue (now : Instant)
  | setConfig (config : AssemblyConfig)

/-- The state after a call and what the call handed out. -/
structure Outcome where
  asm : Assembler
  departed : List Departed := []
  requests : List ResendRequest := []

def Assembler.call (self : Assembler) : Call → Outcome
  | .ingest datagram now =>
    let (asm, departed) := self.ingest datagram now
    { asm, departed }
  | .poll now =>
    let (asm, departed) := self.poll now
    { asm, departed }
  | .resendDue now =>
    let (asm, requests) := self.resendDue now
    { asm, requests }
  | .setConfig config => { asm := self.setConfig config }

/-- The parsed content a packet's content came from. -/
def Content.parsed : Content → GvspContent
  | .leader info => .leader info
  | .payload data => .payload data
  | .trailer info => .trailer info

def Content.isTrailer : Content → Bool
  | .trailer _ => true
  | _ => false

variable {datagram : List UInt8} {header : GvspHeader}

theorem readDatagram_packet {content : Content}
    (h : readDatagram datagram = .packet header content) :
    parsePacketRef datagram = .ok { header, content := content.parsed } ∧
      (content.isTrailer = false → header.status &&& statusError = 0) := by
  unfold readDatagram at h
  split at h
  · cases h
  · split at h
    · cases h
    · rename_i header' content' hparse
      rw [hparse]
      split at h
      · cases h
      · cases h
        exact ⟨rfl, nofun⟩
      · split at h
        · cases h
        · rename_i hok
          cases h
          exact ⟨rfl, fun _ => by simpa using hok⟩
      · split at h
        · cases h
        · rename_i hok
          cases h
          exact ⟨rfl, fun _ => by simpa using hok⟩

theorem readDatagram_wellFormed {content : Content}
    (h : readDatagram datagram = .packet header content) : header.WellFormed :=
  parseHeader_wellFormed (parsePacketRef_ok (readDatagram_packet h).1).1

theorem readDatagram_leader {leader : GvspLeader}
    (h : readDatagram datagram = .packet header (.leader leader)) :
    ∀ image ∈ leader.image, image.WellFormed :=
  fun _ himage => parsePacketRef_leader (readDatagram_packet h).1 rfl himage

end VivaGenicam.Stream
