import VivaGenicam.Library.Bytes

/-!
Parsing of GVSP datagrams: the standard and extended headers, leaders and
trailers. Every datagram is remote input of any length. Leaders and trailers
are read through a cursor, as the source reads them, because a field that is
left out does not advance it.
-/

namespace VivaGenicam.Gvsp

open Library.Bytes

def payloadTypeImage : Nat := 0x0001
def payloadTypeChunkData : Nat := 0x0004
def payloadTypeExtendedChunkData : Nat := 0x0005
/-- Bit 14 of the payload type: the block carries extended chunk data. -/
def payloadTypeExtendedChunk : Nat := 0x4000
/-- Bits of the payload type that name the type itself. -/
def payloadTypeMask : Nat := 0x3FFF

def isImagePayload (payloadType : Nat) : Bool :=
  payloadType &&& payloadTypeMask == payloadTypeImage ||
    payloadType &&& payloadTypeMask == payloadTypeExtendedChunkData

def isChunkDataPayload (payloadType : Nat) : Bool :=
  payloadType &&& payloadTypeMask == payloadTypeChunkData

def hasExtendedChunks (payloadType : Nat) : Bool :=
  payloadType &&& payloadTypeExtendedChunk != 0 ||
    payloadType &&& payloadTypeMask == payloadTypeExtendedChunkData

def gvspHeaderSize : Nat := 8
def gvspExtendedHeaderSize : Nat := 20
/-- Extended ID flag: bit 7 of the packet-format byte. -/
def extendedIdFlag : UInt8 := 0x80
def formatLeader : UInt8 := 0x01
def formatTrailer : UInt8 := 0x02
def formatPayload : UInt8 := 0x03

inductive GvspError where
  | unsupported (kind : String)
  | invalid (problem : String)
deriving DecidableEq, Repr

/-- The header every GVSP packet starts with, in either layout. Block id is 16
bits wide or 64, packet id 24 bits or 32. -/
structure GvspHeader where
  status : Nat
  blockId : Nat
  packetId : Nat
  extendedIds : Bool
  headerLen : Nat
deriving DecidableEq, Repr

structure ImageLeader where
  pixelFormat : Nat
  width : Nat
  height : Nat
  offsetX : Nat
  offsetY : Nat
  paddingX : Nat
  paddingY : Nat
deriving DecidableEq, Repr

structure GvspLeader where
  payloadType : Nat
  timestamp : Nat
  /-- `none` for a payload type that is not an image. -/
  image : Option ImageLeader
deriving DecidableEq, Repr

structure GvspTrailer where
  payloadType : Nat
  sizeY : Nat
  chunkPayloadLength : Option Nat
  chunkLayoutId : Option Nat
deriving DecidableEq, Repr

inductive GvspContent where
  | leader (leader : GvspLeader)
  | payload (data : List UInt8)
  | trailer (trailer : GvspTrailer)
  | unsupported (packetFormat : UInt8)
deriving DecidableEq, Repr

structure GvspPacketRef where
  header : GvspHeader
  content : GvspContent
deriving DecidableEq, Repr

/-- The header length the extended-id flag announces. -/
def headerLenOf (extendedIds : Bool) : Nat :=
  if extendedIds then gvspExtendedHeaderSize else gvspHeaderSize

def parseHeader (datagram : List UInt8) : Except GvspError GvspHeader :=
  if datagram.length < gvspHeaderSize then
    .error (.invalid "GVSP header truncated")
  else
    let status := fieldBE datagram 0 2
    let formatByte := datagram.getD 4 0
    let extendedIds := formatByte &&& extendedIdFlag != 0
    if extendedIds then
      if datagram.length < gvspExtendedHeaderSize then
        .error (.invalid "extended GVSP header truncated")
      else
        .ok
          { status
            blockId := fieldBE datagram 8 8
            packetId := fieldBE datagram 16 4
            extendedIds
            headerLen := gvspExtendedHeaderSize }
    else
      .ok
        { status
          blockId := fieldBE datagram 2 2
          packetId := fieldBE datagram 5 3
          extendedIds
          headerLen := gvspHeaderSize }

/-- `cursor.get_uN()`: a big-endian number off the front, and the rest. -/
def getBE (width : Nat) (cursor : List UInt8) : Nat × List UInt8 :=
  (fieldBE cursor 0 width, cursor.drop width)

/-- The optional offsets of an image leader: both are there or neither is read,
and then the cursor stays where it was. -/
def parseOffsets (cursor : List UInt8) : Nat × Nat × List UInt8 :=
  if cursor.length ≥ 8 then
    let (offsetX, cursor) := getBE 4 cursor
    let (offsetY, cursor) := getBE 4 cursor
    (offsetX, offsetY, cursor)
  else
    (0, 0, cursor)

/-- The optional line and image padding of an image leader. -/
def parsePadding (cursor : List UInt8) : Nat × Nat :=
  if cursor.length ≥ 4 then
    let (paddingX, cursor) := getBE 2 cursor
    let (paddingY, _) := getBE 2 cursor
    (paddingX, paddingY)
  else
    (0, 0)

def parseLeader (body : List UInt8) : Except GvspError GvspLeader :=
  if body.length < 12 then
    .error (.invalid "leader payload truncated")
  else
    let (_reserved, cursor) := getBE 2 body
    let (payloadType, cursor) := getBE 2 cursor
    let (timestamp, cursor) := getBE 8 cursor
    if isImagePayload payloadType then
      if cursor.length < 12 then
        .error (.invalid "image leader truncated")
      else
        let (pixelFormat, cursor) := getBE 4 cursor
        let (width, cursor) := getBE 4 cursor
        let (height, cursor) := getBE 4 cursor
        let (offsetX, offsetY, cursor) := parseOffsets cursor
        let (paddingX, paddingY) := parsePadding cursor
        .ok
          { payloadType
            timestamp
            image := some
              { pixelFormat, width, height, offsetX, offsetY, paddingX, paddingY } }
    else
      .ok { payloadType, timestamp, image := none }

def parseTrailer (body : List UInt8) : Except GvspError GvspTrailer :=
  if body.length < 2 then
    .error (.invalid "trailer truncated")
  else if body.length < 8 then
    .ok { payloadType := 0, sizeY := 0, chunkPayloadLength := none, chunkLayoutId := none }
  else
    let cursor := body.drop 2
    let (payloadType, cursor) := getBE 2 cursor
    if payloadType &&& payloadTypeMask == payloadTypeExtendedChunkData &&
        decide (cursor.length ≥ 12) then
      -- GigE Vision 1.x: the payload data length comes first, then Size Y.
      let (length, cursor) := getBE 4 cursor
      let (sizeY, cursor) := getBE 4 cursor
      let (layoutId, _) := getBE 4 cursor
      .ok
        { payloadType
          sizeY
          chunkPayloadLength := some length
          chunkLayoutId := some layoutId }
    else
      let (sizeY, cursor) := getBE 4 cursor
      if hasExtendedChunks payloadType && decide (cursor.length ≥ 8) then
        let (length, cursor) := getBE 4 cursor
        let (layoutId, _) := getBE 4 cursor
        .ok
          { payloadType
            sizeY
            chunkPayloadLength := some length
            chunkLayoutId := some layoutId }
      else
        .ok { payloadType, sizeY, chunkPayloadLength := none, chunkLayoutId := none }

/-- What follows the header, by the packet-format nibble. -/
def parseContent (packetFormat : UInt8) (body : List UInt8) : Except GvspError GvspContent :=
  if packetFormat = formatLeader then
    (parseLeader body).map .leader
  else if packetFormat = formatPayload then
    .ok (.payload body)
  else if packetFormat = formatTrailer then
    (parseTrailer body).map .trailer
  else
    .ok (.unsupported packetFormat)

def parsePacketRef (datagram : List UInt8) : Except GvspError GvspPacketRef := do
  let header ← parseHeader datagram
  let content ← parseContent (datagram.getD 4 0 &&& 0x0F) (datagram.drop header.headerLen)
  return { header, content }

/-- What a parsed header promises: ids within their widths and the header
length its own flag announces. -/
structure GvspHeader.WellFormed (header : GvspHeader) : Prop where
  status_lt : header.status < 2 ^ 16
  blockId_lt : header.blockId < if header.extendedIds then 2 ^ 64 else 2 ^ 16
  packetId_lt : header.packetId < 2 ^ 32
  headerLen_eq : header.headerLen = headerLenOf header.extendedIds

variable {datagram : List UInt8}

theorem parseHeader_wellFormed {header : GvspHeader}
    (h : parseHeader datagram = .ok header) : header.WellFormed := by
  have hstatus := fieldBE_lt datagram 0 2
  have hblock8 := fieldBE_lt datagram 8 8
  have hblock2 := fieldBE_lt datagram 2 2
  have hpacket4 := fieldBE_lt datagram 16 4
  have hpacket3 := fieldBE_lt datagram 5 3
  unfold parseHeader at h
  split at h
  · cases h
  · dsimp only at h
    split at h
    · rename_i hext
      split at h
      · cases h
      · cases h
        refine ⟨by simpa using hstatus, ?_, by simpa using hpacket4, ?_⟩
        · rw [if_pos hext]
          simpa using hblock8
        · rw [headerLenOf, if_pos hext]
    · rename_i hext
      cases h
      refine ⟨by simpa using hstatus, ?_, ?_, ?_⟩
      · rw [if_neg hext]
        simpa using hblock2
      · calc
          fieldBE datagram 5 3 < 256 ^ 3 := hpacket3
          _ < 2 ^ 32 := by norm_num
      · rw [headerLenOf, if_neg hext]

theorem parsePacketRef_ok {packet : GvspPacketRef} (h : parsePacketRef datagram = .ok packet) :
    parseHeader datagram = .ok packet.header ∧
      parseContent (datagram.getD 4 0 &&& 0x0F) (datagram.drop packet.header.headerLen) =
        .ok packet.content := by
  unfold parsePacketRef at h
  cases hheader : parseHeader datagram with
  | error error => simp [hheader, bind, Except.bind] at h
  | ok header =>
    simp only [hheader, bind, Except.bind] at h
    cases hcontent : parseContent (datagram.getD 4 0 &&& 0x0F)
        (datagram.drop header.headerLen) with
    | error error =>
      rw [hcontent] at h
      cases h
    | ok content =>
      rw [hcontent] at h
      cases h
      exact ⟨rfl, hcontent⟩

/-- The image fields a parsed leader carries fit the widths they are read
with, so no geometry computed from them can exceed 64 bits before it is
capped. -/
structure ImageLeader.WellFormed (image : ImageLeader) : Prop where
  pixelFormat_lt : image.pixelFormat < 2 ^ 32
  width_lt : image.width < 2 ^ 32
  height_lt : image.height < 2 ^ 32
  paddingX_lt : image.paddingX < 2 ^ 16
  paddingY_lt : image.paddingY < 2 ^ 16

theorem getBE_lt (width : Nat) (cursor : List UInt8) : (getBE width cursor).1 < 256 ^ width :=
  fieldBE_lt cursor 0 width

theorem parsePadding_lt (cursor : List UInt8) :
    (parsePadding cursor).1 < 2 ^ 16 ∧ (parsePadding cursor).2 < 2 ^ 16 := by
  unfold parsePadding
  split
  · exact ⟨getBE_lt 2 _, getBE_lt 2 _⟩
  · exact ⟨by decide, by decide⟩

theorem parseLeader_wellFormed {body : List UInt8} {leader : GvspLeader} {image : ImageLeader}
    (h : parseLeader body = .ok leader) (himage : leader.image = some image) :
    image.WellFormed := by
  unfold parseLeader at h
  split at h
  · cases h
  · dsimp only at h
    split at h
    · split at h
      · cases h
      · cases h
        cases himage
        exact ⟨getBE_lt 4 _, getBE_lt 4 _, getBE_lt 4 _, (parsePadding_lt _).1,
          (parsePadding_lt _).2⟩
    · cases h
      cases himage

theorem parsePacketRef_leader {packet : GvspPacketRef}
    {leader : GvspLeader} {image : ImageLeader} (h : parsePacketRef datagram = .ok packet)
    (hleader : packet.content = .leader leader) (himage : leader.image = some image) :
    image.WellFormed := by
  have hcontent := (parsePacketRef_ok h).2
  rw [hleader] at hcontent
  unfold parseContent at hcontent
  split at hcontent
  · cases hparse : parseLeader (datagram.drop packet.header.headerLen) with
    | error error =>
      rw [hparse] at hcontent
      cases hcontent
    | ok parsed =>
      rw [hparse] at hcontent
      cases hcontent
      exact parseLeader_wellFormed hparse himage
  · split at hcontent
    · cases hcontent
    · split at hcontent
      · cases hparse : parseTrailer (datagram.drop packet.header.headerLen) with
        | error error =>
          rw [hparse] at hcontent
          cases hcontent
        | ok parsed =>
          rw [hparse] at hcontent
          cases hcontent
      · cases hcontent

end VivaGenicam.Gvsp
