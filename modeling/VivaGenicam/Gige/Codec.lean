import VivaGenicam.Gige.FakeCamera
import VivaGenicam.Library.Bytes

/-!
The packets of a block under the receiver's parser: each is read back as the fake
camera put it together, and the data packets are the block's bytes in order.
-/

namespace VivaGenicam.FakeCamera

open Gvsp Library.Bytes

inductive PacketKind where
  | leader
  | payload
  | trailer
deriving DecidableEq, Repr

/-- One GVSP datagram, labelled for scripting. -/
structure Datagram where
  blockId : Nat
  packetId : Nat
  kind : PacketKind
  bytes : List UInt8
deriving DecidableEq, Repr

def BlockSpec.headerLen (spec : BlockSpec) : Nat := headerLenOf spec.extendedIds

/-- What the IPv4, the UDP and the GVSP header leave of `packetSize`. -/
def BlockSpec.payloadStride (spec : BlockSpec) (packetSize : Nat) : Nat :=
  packetSize - (20 + 8 + spec.headerLen)

/-- `data.chunks(stride)`. -/
def chunks (stride : Nat) (data : List UInt8) : List (List UInt8) :=
  if _h : data = [] ∨ stride = 0 then []
  else data.take stride :: chunks stride (data.drop stride)
termination_by data.length
decreasing_by
  have hpos := List.length_pos_iff.mpr (not_or.mp _h).1
  rw [List.length_drop]
  omega

/-- The data packets from `packetId` on, and the trailer after the last. -/
def packetsFrom (spec : BlockSpec) (payloadLen packetId : Nat) : List (List UInt8) → List Datagram
  | [] => [⟨spec.blockId, packetId, .trailer, trailer spec packetId payloadLen⟩]
  | piece :: rest =>
    ⟨spec.blockId, packetId, .payload, payload spec packetId piece⟩ ::
      packetsFrom spec payloadLen (packetId + 1) rest

/-- Every datagram of one block in transmission order. `packetSize` is the packet
size in force, a field of the source's `BlockSpec`. -/
def blockDatagrams (spec : BlockSpec) (packetSize : Nat) (data : List UInt8) : List Datagram :=
  ⟨spec.blockId, 0, .leader, leader spec⟩ ::
    packetsFrom spec data.length 1 (chunks (max (spec.payloadStride packetSize) 1) data)

/-- What the types of the fields and the ids' widths on the wire leave room for. -/
structure BlockSpec.Fits (spec : BlockSpec) : Prop where
  blockId_lt : spec.blockId < if spec.extendedIds then 256 ^ 8 else 256 ^ 2
  payloadType_lt : spec.payloadType < 256 ^ 2
  pixelFormat_lt : spec.pixelFormat < 256 ^ 4
  width_lt : spec.width < 256 ^ 4
  height_lt : spec.height < 256 ^ 4
  timestamp_lt : spec.timestamp < 256 ^ 8
  trailerStatus_lt : spec.trailerStatus < 256 ^ 2
  sizeY_lt : spec.sizeY < 256 ^ 4
  chunkLayoutId_lt : spec.chunkLayoutId < 256 ^ 4
  paddingX_lt : spec.paddingX < 256 ^ 2

variable (spec : BlockSpec)

/-- The largest packet id and one. -/
def BlockSpec.packetIds : Nat := if spec.extendedIds then 256 ^ 4 else 256 ^ 3

def BlockSpec.header (status packetId : Nat) : GvspHeader :=
  { status, blockId := spec.blockId, packetId, extendedIds := spec.extendedIds,
    headerLen := spec.headerLen }

def BlockSpec.leaderFields : GvspLeader :=
  { payloadType := spec.payloadType
    timestamp := spec.timestamp
    image :=
      if spec.isImage then
        some
          { pixelFormat := spec.pixelFormat, width := spec.width, height := spec.height
            offsetX := 0, offsetY := 0, paddingX := spec.paddingX, paddingY := 0 }
      else none }

/-- The payload length is sent as the `u32` it is cut to. -/
def BlockSpec.trailerFields (payloadLen : Nat) : GvspTrailer :=
  let chunked := hasExtendedChunks spec.payloadType
  { payloadType := spec.payloadType
    sizeY := if isChunkDataPayload spec.payloadType then payloadLen % 256 ^ 4 else spec.sizeY
    chunkPayloadLength := if chunked then some (payloadLen % 256 ^ 4) else none
    chunkLayoutId := if chunked then some spec.chunkLayoutId else none }

theorem fieldBE_cons (byte : UInt8) (rest : List UInt8) (offset width : Nat) :
    fieldBE (byte :: rest) (offset + 1) width = fieldBE rest offset width := rfl

theorem getBE_encodeBE {width value : Nat} (h : value < 256 ^ width) (rest : List UInt8) :
    getBE width (encodeBE width value ++ rest) = (value, rest) := by
  rw [getBE, fieldBE_first rest h, List.drop_left' (length_encodeBE width value)]

theorem getBE_last {width value : Nat} (h : value < 256 ^ width) :
    getBE width (encodeBE width value) = (value, []) := by
  have hread := getBE_encodeBE h []
  rwa [List.append_nil] at hread

/-- A number is sent as what its width leaves of it. -/
theorem encodeBE_mod (width value : Nat) :
    encodeBE width (value % 256 ^ width) = encodeBE width value := by
  have hread := encodeBE_decodeBE (encodeBE width value)
  rwa [length_encodeBE, decodeBE_encodeBE] at hread

variable {spec}

/-- The packet formats the fake camera sends. -/
def Sent (format : UInt8) : Prop :=
  format = formatLeader ∨ format = formatPayload ∨ format = formatTrailer

theorem getD_putHeader (status packetId : Nat) (format : UInt8) (body : List UInt8) :
    (putHeader spec status format packetId ++ body).getD 4 0 =
      if spec.extendedIds then extendedIdFlag ||| format else format := by
  unfold putHeader
  split <;> simp [encodeBE]

theorem length_putHeader (status packetId : Nat) (format : UInt8) :
    (putHeader spec status format packetId).length = spec.headerLen := by
  unfold putHeader BlockSpec.headerLen headerLenOf
  split <;> simp [gvspHeaderSize, gvspExtendedHeaderSize]

variable {status packetId : Nat} {format : UInt8}

theorem parseHeader_putHeader (hfits : spec.Fits) (hstatus : status < 256 ^ 2)
    (hid : packetId < spec.packetIds) (hformat : Sent format) (body : List UInt8) :
    parseHeader (putHeader spec status format packetId ++ body) =
      .ok (spec.header status packetId) := by
  have hblock := hfits.blockId_lt
  unfold BlockSpec.packetIds at hid
  have hext : ((if spec.extendedIds then extendedIdFlag ||| format else format) &&&
      extendedIdFlag != 0) = spec.extendedIds := by
    cases spec.extendedIds <;> rcases hformat with rfl | rfl | rfl <;> decide
  unfold parseHeader
  rw [getD_putHeader]
  simp only [hext]
  cases hids : spec.extendedIds with
  | false =>
    norm_num [hids] at hblock hid hstatus
    simp [putHeader, hids, gvspHeaderSize, fieldBE_first, fieldBE_append, fieldBE_cons,
      BlockSpec.header, BlockSpec.headerLen, headerLenOf, hstatus, hblock, hid]
    omega
  | true =>
    norm_num [hids] at hblock hid hstatus
    simp [putHeader, hids, gvspHeaderSize, gvspExtendedHeaderSize, fieldBE_first, fieldBE_append,
      fieldBE_cons, BlockSpec.header, BlockSpec.headerLen, headerLenOf, hstatus, hblock, hid]
    rw [if_neg (by omega), if_neg (by omega)]

/-- Whatever stands behind a header is read by the header's format. -/
theorem parsePacketRef_putHeader (hfits : spec.Fits) (hstatus : status < 256 ^ 2)
    (hid : packetId < spec.packetIds) (hformat : Sent format) {body : List UInt8}
    {content : GvspContent} (hcontent : parseContent format body = .ok content) :
    parsePacketRef (putHeader spec status format packetId ++ body) =
      .ok { header := spec.header status packetId, content } := by
  have hnibble : (if spec.extendedIds then extendedIdFlag ||| format else format) &&& 0x0F =
      format := by
    cases spec.extendedIds <;> rcases hformat with rfl | rfl | rfl <;> decide
  have hbody : (putHeader spec status format packetId ++ body).drop
      (spec.header status packetId).headerLen = body :=
    List.drop_left' (length_putHeader status packetId format)
  unfold parsePacketRef
  rw [parseHeader_putHeader hfits hstatus hid hformat, getD_putHeader, hnibble]
  simp only [bind, Except.bind, hbody, hcontent, pure, Except.pure]

theorem parse_leader (hfits : spec.Fits) :
    parsePacketRef (leader spec) =
      .ok { header := spec.header 0 0, content := .leader spec.leaderFields } := by
  have hid : 0 < spec.packetIds := by
    unfold BlockSpec.packetIds
    split <;> decide
  rw [leader, List.append_assoc, List.append_assoc, List.append_assoc]
  apply parsePacketRef_putHeader hfits (by decide) hid (.inl rfl)
  rw [parseContent, if_pos rfl, parseLeader]
  cases himage : isImagePayload spec.payloadType with
  | false =>
    simp [-Nat.reducePow, getBE_encodeBE, getBE_last, BlockSpec.isImage, himage,
      hfits.payloadType_lt, hfits.timestamp_lt, BlockSpec.leaderFields, Except.map]
  | true =>
    simp [-Nat.reducePow, getBE_encodeBE, getBE_last, BlockSpec.isImage, himage,
      hfits.payloadType_lt, hfits.timestamp_lt, hfits.pixelFormat_lt, hfits.width_lt,
      hfits.height_lt, hfits.paddingX_lt, BlockSpec.leaderFields, parseOffsets, parsePadding, Except.map]

theorem parse_payload (hfits : spec.Fits) (hid : packetId < spec.packetIds)
    (data : List UInt8) :
    parsePacketRef (payload spec packetId data) =
      .ok { header := spec.header 0 packetId, content := .payload data } :=
  parsePacketRef_putHeader hfits (by decide) hid (.inr (.inl rfl)) rfl

theorem parse_trailer (hfits : spec.Fits) (hid : packetId < spec.packetIds)
    (payloadLen : Nat) :
    parsePacketRef (trailer spec packetId payloadLen) =
      .ok { header := spec.header spec.trailerStatus packetId,
            content := .trailer (spec.trailerFields payloadLen) } := by
  have htype := hfits.payloadType_lt
  have hlines := hfits.sizeY_lt
  have hlayout := hfits.chunkLayoutId_lt
  have hlength : payloadLen % 256 ^ 4 < 256 ^ 4 := Nat.mod_lt _ (by norm_num)
  have hsent := encodeBE_mod 4 payloadLen
  have hsize : encodeBE 4 (if isChunkDataPayload spec.payloadType then payloadLen else spec.sizeY) =
      encodeBE 4 (if isChunkDataPayload spec.payloadType then payloadLen % 256 ^ 4
        else spec.sizeY) := by
    split
    · exact hsent.symm
    · rfl
  have hfield : (if isChunkDataPayload spec.payloadType then payloadLen % 256 ^ 4
      else spec.sizeY) < 256 ^ 4 := by
    split
    · exact hlength
    · exact hlines
  have hdrop (rest : List UInt8) : (encodeBE 2 0 ++ rest).drop 2 = rest :=
    List.drop_left' (length_encodeBE 2 0)
  rw [trailer, List.append_assoc, List.append_assoc]
  apply parsePacketRef_putHeader hfits hfits.trailerStatus_lt hid (.inr (.inr rfl))
  rw [parseContent, if_neg (by decide), if_neg (by decide), if_pos rfl, parseTrailer]
  by_cases hfirst : spec.payloadType &&& payloadTypeMask = payloadTypeExtendedChunkData
  · have hchunks : hasExtendedChunks spec.payloadType = true := by simp [hasExtendedChunks, hfirst]
    have hdata : isChunkDataPayload spec.payloadType = false := by
      rw [isChunkDataPayload, hfirst]
      rfl
    simp [-Nat.reducePow, hdrop, getBE_encodeBE, getBE_last, hfirst, htype, hlines, hlayout, hchunks,
      hdata, Except.map, BlockSpec.trailerFields, ← hsent, hlength]
  · by_cases hflag : spec.payloadType &&& payloadTypeExtendedChunk = 0
    · have hchunks : hasExtendedChunks spec.payloadType = false := by
        simp [hasExtendedChunks, hfirst, hflag]
      simp [-Nat.reducePow, hdrop, getBE_encodeBE, getBE_last, hfirst, hflag, htype, hsize, hfield,
        hchunks, Except.map, BlockSpec.trailerFields]
    · have hchunks : hasExtendedChunks spec.payloadType = true := by
        simp [hasExtendedChunks, hflag]
      simp [-Nat.reducePow, hdrop, getBE_encodeBE, getBE_last, hfirst, hflag, htype, hsize, hfield,
        hlayout, hchunks, Except.map, BlockSpec.trailerFields, ← hsent, hlength]

theorem chunks_flatten {stride : Nat} (hstride : 0 < stride) (data : List UInt8) :
    (chunks stride data).flatten = data := by
  induction hlen : data.length using Nat.strong_induction_on generalizing data with
  | _ len ih =>
    rw [chunks]
    split
    · rename_i h
      rcases h with rfl | h
      · rfl
      · omega
    · rename_i h
      have hpos := List.length_pos_iff.mpr (not_or.mp h).1
      rw [List.flatten_cons, ih (data.drop stride).length (by rw [List.length_drop]; omega) _ rfl,
        List.take_append_drop]

theorem chunks_bounded {stride : Nat} {data piece : List UInt8} (h : piece ∈ chunks stride data) :
    piece ≠ [] ∧ piece.length ≤ stride := by
  induction hlen : data.length using Nat.strong_induction_on generalizing data with
  | _ len ih =>
    rw [chunks] at h
    split at h
    · cases h
    · rename_i hmore
      obtain ⟨hdata, hstride⟩ := not_or.mp hmore
      have hpos := List.length_pos_iff.mpr hdata
      rcases List.mem_cons.mp h with heq | hrest
      · rw [heq]
        refine ⟨fun hnil => ?_, List.length_take_le _ _⟩
        rcases List.take_eq_nil_iff.mp hnil with hzero | hnone
        · exact hstride hzero
        · exact hdata hnone
      · exact ih (data.drop stride).length (by rw [List.length_drop]; omega) hrest rfl

/-- What the receiver makes of the packets from `packetId` on. -/
def readFrom (spec : BlockSpec) (payloadLen packetId : Nat) :
    List (List UInt8) → List GvspPacketRef
  | [] =>
    [{ header := spec.header spec.trailerStatus packetId
       content := .trailer (spec.trailerFields payloadLen) }]
  | piece :: rest =>
    { header := spec.header 0 packetId, content := .payload piece } ::
      readFrom spec payloadLen (packetId + 1) rest

theorem parse_packetsFrom (hfits : spec.Fits) {payloadLen packetId : Nat}
    {parts : List (List UInt8)}
    (hids : ∀ datagram ∈ packetsFrom spec payloadLen packetId parts,
      datagram.packetId < spec.packetIds) :
    (packetsFrom spec payloadLen packetId parts).map (fun datagram =>
        parsePacketRef datagram.bytes) =
      (readFrom spec payloadLen packetId parts).map .ok := by
  induction parts generalizing packetId with
  | nil =>
    rw [packetsFrom] at hids ⊢
    rw [readFrom, List.map_singleton, List.map_singleton,
      parse_trailer hfits (hids _ List.mem_cons_self)]
  | cons piece rest ih =>
    rw [packetsFrom] at hids ⊢
    rw [readFrom, List.map_cons, List.map_cons, parse_payload hfits (hids _ List.mem_cons_self),
      ih fun datagram h => hids datagram (List.mem_cons_of_mem _ h)]

/-- What the receiver makes of a block: a leader that says what is sent, the block's
bytes in packets that count up from 1, none empty or over the stride, and a trailer
with the status and the lines of the block behind the last. -/
theorem parse_blockDatagrams (hfits : spec.Fits) (packetSize : Nat) (data : List UInt8)
    (hids : ∀ datagram ∈ blockDatagrams spec packetSize data,
      datagram.packetId < spec.packetIds) :
    ∃ pieces : List (List UInt8), pieces.flatten = data ∧
      (∀ piece ∈ pieces, piece ≠ [] ∧ piece.length ≤ max (spec.payloadStride packetSize) 1) ∧
      (blockDatagrams spec packetSize data).map (fun datagram => parsePacketRef datagram.bytes) =
        .ok { header := spec.header 0 0, content := .leader spec.leaderFields } ::
          (readFrom spec data.length 1 pieces).map .ok := by
  refine ⟨chunks (max (spec.payloadStride packetSize) 1) data, chunks_flatten (by omega) data,
    fun piece hmem => chunks_bounded hmem, ?_⟩
  rw [blockDatagrams, List.map_cons, parse_leader hfits,
    parse_packetsFrom hfits fun datagram h => hids datagram (List.mem_cons_of_mem _ h)]

/-- A line of three bytes at two bytes a packet, with chunks behind it. -/
def chunkedLine : BlockSpec :=
  { blockId := 7, payloadType := 0x4001, width := 3, height := 1, sizeY := 1 }

theorem chunkedLine_fits : chunkedLine.Fits := by
  constructor <;> simp [chunkedLine]

theorem parse_blockDatagrams_chunkedLine :
    ∃ pieces : List (List UInt8), pieces.flatten = [1, 2, 3] ∧
      (∀ piece ∈ pieces, piece ≠ [] ∧ piece.length ≤ max (chunkedLine.payloadStride 38) 1) ∧
      (blockDatagrams chunkedLine 38 [1, 2, 3]).map (fun datagram =>
          parsePacketRef datagram.bytes) =
        .ok { header := chunkedLine.header 0 0, content := .leader chunkedLine.leaderFields } ::
          (readFrom chunkedLine 3 1 pieces).map .ok :=
  parse_blockDatagrams chunkedLine_fits 38 [1, 2, 3] (by
    simp [blockDatagrams, packetsFrom, chunks, chunkedLine, BlockSpec.packetIds,
      BlockSpec.payloadStride, BlockSpec.headerLen, headerLenOf, gvspHeaderSize])

end VivaGenicam.FakeCamera
