import VivaGenicam.Library.Bytes

/-!
What can go wrong on a USB3 Vision transport, the leaders and trailers of its stream, and
the sizes of the transfers between them.
-/

namespace VivaGenicam.U3v

open Library.Bytes

inductive U3vError where
  | usb
  | notFound
  | timeout
  | disconnected
  | stalled (endpoint : Nat)
  | cancelled
  | claim
  | genCp
  /-- The device answered with an error status. -/
  | status (raw : Nat)
  | malformed (packet problem : String)
  | length (what : String) (expected got : Nat)
  | device (message : String)
  | xml
deriving DecidableEq, Repr

/-- Whether a device that is gone can fail a transfer this way. -/
def U3vError.mayMeanGone : U3vError → Bool
  | .usb | .cancelled => true
  | _ => false

/-- The loop of `unless_gone`: what `present` answers at each look until the
grace has passed. -/
def looksGone : List (Option Bool) → Bool
  | some false :: _ => true
  | some true :: looks => looksGone looks
  | none :: _ | [] => false

/-- `error`, or `disconnected` when the device turns out not to be listed. -/
def unlessGone (error : U3vError) (looks : List (Option Bool)) : U3vError :=
  if !error.mayMeanGone then error else if looksGone looks then .disconnected else error

/-- How the host reads one block: the sizes it writes to the SIRM. -/
structure StreamLayout where
  leaderSize : Nat
  trailerSize : Nat
  payloadTransferSize : Nat
  payloadTransferCount : Nat
  finalTransfer1Size : Nat
  finalTransfer2Size : Nat
deriving DecidableEq, Repr

def StreamLayout.payloadCapacity (layout : StreamLayout) : Nat :=
  layout.payloadTransferSize * layout.payloadTransferCount + layout.finalTransfer1Size +
    layout.finalTransfer2Size

structure Leader where
  blockId : Nat
  payloadType : Nat
  timestamp : Nat
  pixelFormat : Nat
  width : Nat
  height : Nat
  xOffset : Nat
  yOffset : Nat
  xPadding : Nat
deriving DecidableEq, Repr

structure Trailer where
  blockId : Nat
  status : Nat
  validPayloadSize : Nat
  sizeY : Option Nat
deriving DecidableEq, Repr

/-- A block as received; without a trailer it was given up before it. -/
structure RawFrame where
  leader : Leader
  payload : List UInt8
  trailer : Option Trailer
deriving DecidableEq, Repr

def leaderPrefix : Nat := 0x4C563355
def trailerPrefix : Nat := 0x54563355
def genericLeaderSize : Nat := 20
def imageLeaderSize : Nat := 50
def minTrailerSize : Nat := 28
def payloadTypeImage : Nat := 0x0001
def payloadTypeImageExtendedChunk : Nat := 0x4001

/-- The size field of a leader or trailer opening `data`: no more than the
transfer holds. -/
def framingSize (data : List UInt8) (opening : Nat) : Option Nat :=
  if data.length < 8 then
    none
  else if fieldLE data 0 4 ≠ opening then
    none
  else
    let declared := fieldLE data 6 2
    if declared ≤ data.length then some declared else none

def parseLeader (buf : List UInt8) : Except U3vError Leader :=
  if buf.length < genericLeaderSize then
    .error (.malformed "leader" "is shorter than a generic leader")
  else if fieldLE buf 0 4 ≠ leaderPrefix then
    .error (.malformed "leader" "lacks the U3VL prefix")
  else
    let leader : Leader :=
      { blockId := fieldLE buf 8 8, payloadType := fieldLE buf 18 2, timestamp := 0
        pixelFormat := 0, width := 0, height := 0, xOffset := 0, yOffset := 0, xPadding := 0 }
    if leader.payloadType = payloadTypeImage ∨
        leader.payloadType = payloadTypeImageExtendedChunk then
      if buf.length < imageLeaderSize then
        .error (.malformed "image leader" "is shorter than an image leader")
      else
        .ok
          { leader with
            timestamp := fieldLE buf 20 8
            pixelFormat := fieldLE buf 28 4
            width := fieldLE buf 32 4
            height := fieldLE buf 36 4
            xOffset := fieldLE buf 40 4
            yOffset := fieldLE buf 44 4
            xPadding := fieldLE buf 48 2 }
    else if buf.length ≥ 28 then
      .ok { leader with timestamp := fieldLE buf 20 8 }
    else
      .ok leader

def parseTrailer (buf : List UInt8) : Except U3vError Trailer :=
  if buf.length < minTrailerSize then
    .error (.malformed "trailer" "is shorter than a trailer")
  else if fieldLE buf 0 4 ≠ trailerPrefix then
    .error (.malformed "trailer" "lacks the U3VT prefix")
  else
    .ok
      { blockId := fieldLE buf 8 8
        status := fieldLE buf 16 2
        validPayloadSize := fieldLE buf 20 8
        sizeY := if buf.length ≥ 32 then some (fieldLE buf 28 4) else none }

/-- `data` as a leader: the prefix, a size field no longer than the transfer,
and a transfer no longer than a leader's. -/
def StreamLayout.asLeader (layout : StreamLayout) (data : List UInt8) : Option Leader :=
  match framingSize data leaderPrefix with
  | none => none
  | some declared =>
    if declared ≥ genericLeaderSize ∧ data.length ≤ layout.leaderSize then
      (parseLeader data).toOption
    else
      none

/-- `data` as a trailer, by the same rules. -/
def StreamLayout.asTrailer (layout : StreamLayout) (data : List UInt8) : Option Trailer :=
  match framingSize data trailerPrefix with
  | none => none
  | some declared =>
    if declared ≥ minTrailerSize ∧ data.length ≤ layout.trailerSize then
      (parseTrailer data).toOption
    else
      none

end VivaGenicam.U3v
