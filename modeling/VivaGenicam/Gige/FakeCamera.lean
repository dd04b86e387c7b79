import VivaGenicam.Gige.Gvsp

/-!
The sending side: the fake camera that the tests stream from. What it puts in a
header, a leader, a data packet and a trailer is what the parser reads back.
-/

namespace VivaGenicam.FakeCamera

open Gvsp Library.Bytes

/-- What one block looks like on the wire. -/
structure BlockSpec where
  blockId : Nat
  extendedIds : Bool := false
  payloadType : Nat
  pixelFormat : Nat := 0
  width : Nat := 0
  height : Nat := 0
  timestamp : Nat := 0
  /-- Status word of the trailer's header; 0 is success. -/
  trailerStatus : Nat := 0
  sizeY : Nat := 0
  chunkLayoutId : Nat := 0
  paddingX : Nat := 0

def BlockSpec.isImage (spec : BlockSpec) : Bool := isImagePayload spec.payloadType

def putHeader (spec : BlockSpec) (status : Nat) (format : UInt8) (packetId : Nat) : List UInt8 :=
  encodeBE 2 status ++
    if spec.extendedIds then
      encodeBE 2 0 ++ (extendedIdFlag ||| format) :: [0, 0, 0] ++
        encodeBE 8 spec.blockId ++ encodeBE 4 packetId
    else
      encodeBE 2 spec.blockId ++ format :: encodeBE 3 packetId

def leader (spec : BlockSpec) : List UInt8 :=
  putHeader spec 0 formatLeader 0 ++ encodeBE 2 0 ++ encodeBE 2 spec.payloadType ++
    encodeBE 8 spec.timestamp ++
    if spec.isImage then
      encodeBE 4 spec.pixelFormat ++ encodeBE 4 spec.width ++ encodeBE 4 spec.height ++
        encodeBE 4 0 ++ encodeBE 4 0 ++ encodeBE 2 spec.paddingX ++ encodeBE 2 0
    else
      []

def payload (spec : BlockSpec) (packetId : Nat) (data : List UInt8) : List UInt8 :=
  putHeader spec 0 formatPayload packetId ++ data

def trailer (spec : BlockSpec) (packetId payloadLen : Nat) : List UInt8 :=
  putHeader spec spec.trailerStatus formatTrailer packetId ++ encodeBE 2 0 ++
    encodeBE 2 spec.payloadType ++
    if spec.payloadType &&& payloadTypeMask = payloadTypeExtendedChunkData then
      encodeBE 4 payloadLen ++ encodeBE 4 spec.sizeY ++ encodeBE 4 spec.chunkLayoutId
    else
      encodeBE 4
          (if isChunkDataPayload spec.payloadType then payloadLen else spec.sizeY) ++
        if spec.payloadType &&& payloadTypeExtendedChunk ≠ 0 then
          encodeBE 4 payloadLen ++ encodeBE 4 spec.chunkLayoutId
        else
          []

end VivaGenicam.FakeCamera
