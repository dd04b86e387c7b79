import VivaGenicam.Gige.Bitmap
import VivaGenicam.Gige.Gvsp
import VivaGenicam.Gige.Status
import VivaGenicam.Library.Buffer
import VivaGenicam.Stream.Resend
import VivaGenicam.Stream.Stats

/-!
One block in flight and what a packet, a timeout or the queue does to it. Each
function is the body of the assembler method of that name for the block it
works on; the counters it writes are passed through.
-/

namespace VivaGenicam.Stream

open Gvsp Library

def ipv4HeaderLen : Nat := 20
def udpHeaderLen : Nat := 8
/-- Largest buffer sized from a leader's geometry: `256 << 20`. -/
def estimateCap : Nat := 268435456
def statusError : Nat := 0x8000

/-- How a frame ended. -/
inductive FrameStatus where
  | complete
  | incomplete (missingPackets : Nat)
  | deviceStatus (status : GigeStatus)
  | u3vDeviceStatus (status : U3vStatus)
  | trailerMissing
deriving DecidableEq, Repr

def FrameStatus.isComplete : FrameStatus → Bool
  | .complete => true
  | _ => false

/-- What the assembler needs to know about the stream. The packet size is a
32-bit register, the payload size a 64-bit one. -/
structure AssemblyConfig where
  packetSize : Nat
  payloadSize : Option Nat := none
  blockTimeout : Duration := 100000000
  resend : ResendConfig := .default
  packetSize_lt : packetSize < 2 ^ 32 := by decide
  payloadSize_lt : ∀ size ∈ payloadSize, size < 2 ^ 64 := by simp

/-- The leader fields a frame keeps. -/
structure LeaderInfo where
  timestamp : Nat
  pixelFormat : Nat
  width : Nat
  height : Nat
  paddingX : Nat
deriving DecidableEq, Repr

structure TrailerInfo where
  /-- Packet id of the last data packet: the trailer's id minus one. -/
  lastPayloadId : Nat
  sizeY : Nat
  payloadType : Nat
deriving DecidableEq, Repr

/-- How a block in flight was resolved. -/
inductive Resolution where
  | frame (status : FrameStatus)
  | unsupported
deriving DecidableEq, Repr

/-- A data packet shorter than the stride: `(packet id, length, stride)`. -/
structure ShortPacket where
  packetId : Nat
  length : Nat
  stride : Nat
deriving DecidableEq, Repr

structure BlockInFlight where
  blockId : Nat
  extendedIds : Bool
  resend : Option ResendState
  lastPacket : Instant
  leader : Option LeaderInfo
  leaderPayloadType : Option Nat
  unsupported : Bool
  trailer : Option TrailerInfo
  buffer : List UInt8
  /-- The size the buffer was given before any packet arrived. -/
  planned : Nat
  /-- End of the furthest byte written. -/
  extent : Nat
  /-- Data packets received, indexed by packet id minus one. -/
  bitmap : PacketBitmap
  highestPayloadId : Nat
  anyPayload : Bool
  shortPacket : Option ShortPacket
  resolved : Option Resolution

/-- Image bytes one data packet carries at `packetSize` with a header of
`headerLen` bytes. -/
def payloadStride (packetSize headerLen : Nat) : Nat :=
  packetSize - (ipv4HeaderLen + udpHeaderLen + headerLen)

/-- `u64::saturating_mul` and `u64::saturating_add`. -/
def saturatingMul64 (a b : Nat) : Nat := min (a * b) (2 ^ 64 - 1)
def saturatingAdd64 (a b : Nat) : Nat := min (a + b) (2 ^ 64 - 1)

/-- Bytes an image occupies, from the leader. -/
def geometrySize (image : ImageLeader) : Nat :=
  let bits := (image.pixelFormat >>> 16) &&& 0xFF
  let bits := if bits = 0 then 8 else bits
  let line := ((image.width * bits) ⌈/⌉ 8) + image.paddingX
  saturatingAdd64 (saturatingMul64 line image.height) image.paddingY

def AssemblyConfig.bufferLimit (config : AssemblyConfig) : Nat :=
  max estimateCap (config.payloadSize.getD 0)

/-- The default buffer source: a zeroed buffer of exactly `len` bytes. -/
def acquire (len : Nat) : List UInt8 := List.replicate len 0

namespace BlockInFlight

/-- A data packet shorter than the stride turned out not to be the last: it is
taken back out, bit cleared and bytes zeroed. -/
def refuseShort (block : BlockInFlight) (stats : StreamStats) (short : ShortPacket) :
    BlockInFlight × StreamStats :=
  let slot := short.packetId - 1
  let (marked, bitmap) := block.bitmap.clear slot
  let buffer :=
    if marked then
      let offset := slot * short.stride
      let stop := min (offset + short.length) block.buffer.length
      Buffer.write block.buffer (min offset stop) (List.replicate (stop - min offset stop) 0)
    else
      block.buffer
  ({ block with bitmap, buffer }, stats.recordSizeMismatch)

/-- The leader fields kept of a leader the engine assembles, with the size its
geometry implies (0 for chunk data, which has none); `none` for a payload type
that is not assembled. -/
def leaderInfo (leader : GvspLeader) : Option (LeaderInfo × Nat) :=
  if isChunkDataPayload leader.payloadType then
    some
      ({ timestamp := leader.timestamp, pixelFormat := 0, width := 0, height := 0,
         paddingX := 0 }, 0)
  else
    match leader.image.filter (fun _ => isImagePayload leader.payloadType) with
    | none => none
    | some image =>
      some
        ({ timestamp := leader.timestamp
           pixelFormat := image.pixelFormat
           width := image.width
           height := image.height
           paddingX := image.paddingX },
          min (geometrySize image) estimateCap)

/-- Take a leader. The last component is the size estimate it contributes to
the largest one seen. -/
def onLeader (block : BlockInFlight) (stats : StreamStats) (leader : GvspLeader) :
    BlockInFlight × StreamStats × Nat :=
  if block.leaderPayloadType.isSome then
    -- A repeated leader for a block in flight changes nothing.
    (block, stats.recordDuplicatePacket, 0)
  else
    let block := { block with leaderPayloadType := some leader.payloadType }
    match leaderInfo leader with
    | none =>
      ({ block with unsupported := true, resend := none, buffer := [] },
        stats.recordIgnoredPacket .unsupported, 0)
    | some (info, estimate) =>
      ({ block with
          leader := some info
          planned := max block.planned estimate
          buffer := Buffer.growTo block.buffer estimate 0 },
        stats, estimate)

/-- Write a data packet in place and mark it received. -/
def place (block : BlockInFlight) (packetId offset : Nat) (data : List UInt8) :
    BlockInFlight :=
  let slot := packetId - 1
  let stop := offset + data.length
  { block with
    buffer := Buffer.write (Buffer.growTo block.buffer stop 0) offset data
    extent := max block.extent stop
    bitmap := ((block.bitmap.grow (slot + 1)).set slot).2
    anyPayload := true
    highestPayloadId := max block.highestPayloadId packetId }

/-- Which short packets a newly placed one (`this`, when it is short itself)
disproves as the block's last. Of two short packets the lower cannot be last;
the higher stays pending until a packet beyond it, or the trailer, shows it is
not last either. Returns the packet still pending and the ones to refuse. -/
def settleShort (pending this : Option ShortPacket) (highest : Nat) (knownLast : Option Nat) :
    Option ShortPacket × List ShortPacket :=
  let (pending, mismatches) :=
    match this, pending with
    | none, pending => (pending, [])
    | some this, some pending =>
      if pending.packetId < this.packetId then (some this, [pending]) else (some pending, [this])
    | some this, none => (some this, [])
  match pending with
  | some short =>
    if short.packetId < highest ∨ knownLast.any (fun last => decide (short.packetId < last)) then
      (none, mismatches ++ [short])
    else
      (some short, mismatches)
  | none => (none, mismatches)

/-- A data packet shorter than the stride, as the block remembers it. -/
def shortOf (packetId stride : Nat) (data : List UInt8) : Option ShortPacket :=
  if data.length < stride then some { packetId, length := data.length, stride } else none

/-- The loop that takes the disproved short packets back out. -/
def refuseAll (block : BlockInFlight) (stats : StreamStats) (mismatches : List ShortPacket) :
    BlockInFlight × StreamStats :=
  mismatches.foldl (fun (block, stats) short => block.refuseShort stats short) (block, stats)

/-- Place a data packet that may be used, and take back out any short packet it
disproves. -/
def accept (block : BlockInFlight) (stats : StreamStats) (packetId stride : Nat)
    (data : List UInt8) : BlockInFlight × StreamStats :=
  let placed := block.place packetId ((packetId - 1) * stride) data
  let (shortPacket, mismatches) :=
    settleShort placed.shortPacket (shortOf packetId stride data) placed.highestPayloadId
      (placed.trailer.map (·.lastPayloadId))
  { placed with shortPacket }.refuseAll stats mismatches

/-- Take a data packet. The flag says whether it counts as having arrived for
resend: a packet beyond the frame does not, a refused one does. -/
def onPayload (config : AssemblyConfig) (block : BlockInFlight) (stats : StreamStats)
    (header : GvspHeader) (data : List UInt8) : Bool × BlockInFlight × StreamStats :=
  let packetId := header.packetId
  let stride := payloadStride config.packetSize header.headerLen
  let slot := packetId - 1
  if block.unsupported then
    (false, block, stats.recordIgnoredPacket .unsupported)
  else if packetId = 0 ∨ stride = 0 then
    (false, block, stats.recordIgnoredPacket .malformed)
  else if block.trailer.any (fun t => decide (packetId > t.lastPayloadId)) then
    (false, block, stats.recordIgnoredPacket .outOfRange)
  else if block.bitmap.contains slot then
    (true, block, stats.recordDuplicatePacket)
  else if data.length > stride then
    -- Written at our stride it would overlap the next packet.
    (true, block, stats.recordSizeMismatch)
  else if slot * stride + data.length > config.bufferLimit then
    (false, block, stats.recordIgnoredPacket .outOfRange)
  else
    (true, block.accept stats packetId stride data)

/-- Packets missing from a block whose trailer arrived: data packets not
received, plus the leader if it was lost. -/
def missingWithTrailer (block : BlockInFlight) : Nat :=
  let last := (block.trailer.map (·.lastPayloadId)).getD 0
  let tracked := min last block.bitmap.len
  let holes :=
    ((List.range tracked).filter (fun slot => !block.bitmap.contains slot)).length +
      (last - tracked)
  let missing := holes + if block.leaderPayloadType.isNone then 1 else 0
  min missing (2 ^ 32 - 1)

def onTrailer (config : AssemblyConfig) (block : BlockInFlight) (stats : StreamStats)
    (header : GvspHeader) (trailer : GvspTrailer) : BlockInFlight × StreamStats :=
  if block.trailer.isSome then
    (block, stats.recordDuplicatePacket)
  else
    let lastPayloadId := header.packetId - 1
    let block :=
      { block with
        trailer := some
          { lastPayloadId, sizeY := trailer.sizeY, payloadType := trailer.payloadType } }
    if block.unsupported then
      ({ block with resolved := some .unsupported }, stats)
    else if header.status &&& statusError ≠ 0 then
      ({ block with
          resolved := some (.frame (.deviceStatus (GigeStatus.fromRaw header.status))) },
        stats.recordMissingPackets block.missingWithTrailer)
    else
      -- The trailer is remote input: track no more packets than the buffer could hold.
      let stride := max (payloadStride config.packetSize header.headerLen) 1
      let block :=
        { block with
          bitmap := block.bitmap.grow (min lastPayloadId (config.bufferLimit ⌈/⌉ stride)) }
      match block.shortPacket with
      | some short =>
        if short.packetId < lastPayloadId then
          { block with shortPacket := none }.refuseShort stats short
        else
          (block, stats)
      | none => (block, stats)

def tryComplete (block : BlockInFlight) : BlockInFlight :=
  if block.resolved.isSome || block.unsupported || block.leader.isNone then
    block
  else
    match block.trailer with
    | some trailer =>
      if block.bitmap.firstNComplete trailer.lastPayloadId then
        { block with resolved := some (.frame .complete) }
      else
        block
    | none => block

/-- Resolve an unfinished block with what it has. -/
def close (block : BlockInFlight) (stats : StreamStats) : BlockInFlight × StreamStats :=
  if block.unsupported then
    ({ block with resolved := some .unsupported }, stats)
  else if block.trailer.isSome then
    let missing := block.missingWithTrailer
    ({ block with resolved := some (.frame (.incomplete missing)) },
      stats.recordMissingPackets missing)
  else
    -- Without a trailer the count is a lower bound.
    let holes :=
      ((List.range block.highestPayloadId).filter
        (fun slot => !block.bitmap.contains slot)).length
    let leader := if block.leaderPayloadType.isNone then 1 else 0
    ({ block with resolved := some (.frame .trailerMissing) },
      stats.recordMissingPackets (holes + 1 + leader))

/-- Tell the block's resend state that packet `id` arrived. -/
def trackArrival (config : AssemblyConfig) (block : BlockInFlight) (stats : StreamStats)
    (id : Nat) (isTrailer : Bool) (now : Instant) : BlockInFlight × StreamStats :=
  match block.resend with
  | none => (block, stats)
  | some resend =>
    let (recovered, resend) := resend.arrived id now config.resend.delay
    let stats := if recovered then stats.recordResendRecovered else stats
    let resend := if isTrailer then resend.trailer id else resend
    ({ block with resend := some resend }, stats)

/-- The size a block was meant to have: its length when complete; exact too
when the last data packet is marked in the bitmap handed in; otherwise the
planned size, no larger than the trailer's packet count allows and no smaller
than what arrived. -/
def expectedSize (block : BlockInFlight) (status : FrameStatus) (packetSize : Nat) :
    Option Nat :=
  if status.isComplete then
    some block.extent
  else
    let stride := max (payloadStride packetSize (headerLenOf block.extendedIds)) 1
    let last := block.trailer.map (·.lastPayloadId)
    if last.any (fun last => decide (last > 0) && block.bitmap.contains (last - 1)) then
      some block.extent
    else if block.planned = 0 then
      none
    else
      let planned :=
        match last with
        | some last =>
          let bound := saturatingMul64 last stride
          if bound > 0 then min block.planned bound else block.planned
        | none => block.planned
      some (max planned block.extent)

end BlockInFlight

end VivaGenicam.Stream
