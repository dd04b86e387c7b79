import VivaGenicam.Service.FrameHeader

/-!
The envelope carries its pixels and metadata unchanged: what is encoded is
decoded to the same header and the same pixels, and what is decoded can be
encoded again to the same.
-/

namespace VivaGenicam.Service

open VivaGenicam.Pixel Library.Bytes Library.Checked

namespace FrameHeader

variable {buf : List UInt8}

theorem field_eq {offset width : Nat} (h : offset + width ≤ buf.length) :
    field buf offset width = some (fieldLE buf offset width) := by
  rw [field, slice_eq h]
  rfl

theorem field_written (before after : List UInt8) (offset width value : Nat)
    (hoffset : before.length = offset) (hvalue : value < 256 ^ width) :
    field (before ++ (encodeLE width value ++ after)) offset width = some value := by
  rw [field_eq, fieldLE_encodeLE before after offset width value hoffset hvalue]
  simp only [List.length_append, length_encodeLE]
  omega

@[simp] theorem length_fixed (header : FrameHeader) (size : Nat) :
    (header.fixed size).length = headerSize := by
  simp [fixed, headerSize]

/-- The fields of a prefix, wherever it is followed by. -/
structure Prefixed (header : FrameHeader) (size : Nat) (buf : List UInt8) : Prop where
  magic : field buf 0 2 = some frameMagic
  version : field buf 2 1 = some supportedVersion
  code : field buf 3 1 = some (pixelFormatToU8 header.pixelFormat)
  width : field buf 4 4 = some header.width.toNat
  height : field buf 8 4 = some header.height.toNat
  seq : field buf 12 4 = some header.seq.toNat
  stride : field buf 16 4 = some (header.rowStride.getD 0).toNat
  size : field buf 20 4 = some size

theorem code_lt (format : PixelFormat) : pixelFormatToU8 format < 256 := by
  unfold pixelFormatToU8
  split
  · rename_i code named hfind
    have hall : ∀ entry ∈ wireCodes, entry.1 < 256 := by decide
    exact hall _ (List.mem_of_find?_eq_some hfind)
  · decide

theorem fixed_prefixed (header : FrameHeader) {size : Nat} (hsize : size < 2 ^ 32)
    (rest : List UInt8) : Prefixed header size (header.fixed size ++ rest) := by
  have hwidth := header.width.toNat_lt
  have hheight := header.height.toNat_lt
  have hseq := header.seq.toNat_lt
  have hstride := (header.rowStride.getD 0).toNat_lt
  have hcode := code_lt header.pixelFormat
  unfold fixed
  simp only [List.append_assoc]
  set magic := encodeLE 2 frameMagic
  set version := encodeLE 1 supportedVersion
  set code := encodeLE 1 (pixelFormatToU8 header.pixelFormat)
  set width := encodeLE 4 header.width.toNat
  set height := encodeLE 4 header.height.toNat
  set seq := encodeLE 4 header.seq.toNat
  set stride := encodeLE 4 (header.rowStride.getD 0).toNat
  constructor
  · exact field_written [] _ 0 2 _ rfl (by decide)
  · exact field_written magic _ 2 1 _ (length_encodeLE ..) (by decide)
  · have := field_written (magic ++ version) (width ++ (height ++ (seq ++ (stride ++
      (encodeLE 4 size ++ rest))))) 3 1 _ (by simp [magic, version]) (show _ < 256 ^ 1 from hcode)
    simpa only [List.append_assoc] using this
  · have := field_written (magic ++ (version ++ code)) (height ++ (seq ++ (stride ++
      (encodeLE 4 size ++ rest)))) 4 4 _ (by simp [magic, version, code])
      (show header.width.toNat < 256 ^ 4 by omega)
    simpa only [List.append_assoc] using this
  · have := field_written (magic ++ (version ++ (code ++ width))) (seq ++ (stride ++
      (encodeLE 4 size ++ rest))) 8 4 _ (by simp [magic, version, code, width])
      (show header.height.toNat < 256 ^ 4 by omega)
    simpa only [List.append_assoc] using this
  · have := field_written (magic ++ (version ++ (code ++ (width ++ height)))) (stride ++
      (encodeLE 4 size ++ rest)) 12 4 _ (by simp [magic, version, code, width, height])
      (show header.seq.toNat < 256 ^ 4 by omega)
    simpa only [List.append_assoc] using this
  · have := field_written (magic ++ (version ++ (code ++ (width ++ (height ++ seq)))))
      (encodeLE 4 size ++ rest) 16 4 _ (by simp [magic, version, code, width, height, seq])
      (show (header.rowStride.getD 0).toNat < 256 ^ 4 by omega)
    simpa only [List.append_assoc] using this
  · have := field_written (magic ++ (version ++ (code ++ (width ++ (height ++ (seq ++ stride))))))
      rest 20 4 _ (by simp [magic, version, code, width, height, seq, stride])
      (show size < 256 ^ 4 by omega)
    simpa only [List.append_assoc] using this

theorem u8ToPixelFormat_code {format : PixelFormat} (h : pixelFormatToU8 format ≠ 0) :
    u8ToPixelFormat (pixelFormatToU8 format) = format := by
  unfold pixelFormatToU8 at h ⊢
  cases hfind : wireCodes.find? fun entry => entry.2 = format with
  | none =>
    rw [hfind] at h
    exact absurd rfl h
  | some entry =>
    obtain ⟨code, named⟩ := entry
    have hmem := List.mem_of_find?_eq_some hfind
    have hnamed : named = format := by simpa using List.find?_some hfind
    have hinverse : ∀ entry ∈ wireCodes, u8ToPixelFormat entry.1 = entry.2 := by decide
    dsimp only
    rw [← hnamed]
    exact hinverse _ hmem

theorem u8ToPixelFormat_again (code : Nat) :
    u8ToPixelFormat (pixelFormatToU8 (u8ToPixelFormat code)) = u8ToPixelFormat code := by
  have hcases : u8ToPixelFormat code = .unknown 0 ∨
      ∃ entry ∈ wireCodes, u8ToPixelFormat code = entry.2 := by
    unfold u8ToPixelFormat
    cases hfind : wireCodes.find? fun entry => entry.1 = code with
    | none => exact Or.inl rfl
    | some entry => exact Or.inr ⟨entry, List.mem_of_find?_eq_some hfind, rfl⟩
  have htable : ∀ entry ∈ wireCodes,
      u8ToPixelFormat (pixelFormatToU8 entry.2) = entry.2 := by decide
  rcases hcases with heq | ⟨entry, hmem, heq⟩
  · rw [heq]
    rfl
  · rw [heq]
    exact htable entry hmem

/-- The header a decoder makes of a prefix and its metadata. -/
def seen (header : FrameHeader) (metadata : Option FrameMetadata) : FrameHeader :=
  { header with
    pixelFormat := u8ToPixelFormat (pixelFormatToU8 header.pixelFormat)
    rowStride := if (header.rowStride.getD 0).toNat ≠ 0 then
      some (UInt32.ofNat (header.rowStride.getD 0).toNat) else none
    metadata := metadata }

variable {text : List UInt8} (json : Json)

theorem decode_fixed (header : FrameHeader)
    (hsize : text.length ≤ maxFrameMetadataBytes) (pixels : List UInt8)
    {metadata : Option FrameMetadata}
    (hmetadata : (if text.length = 0 then .ok none
      else (FrameMetadata.decode json text).map some) = Except.ok (ε := Text) metadata) :
    decode json (header.fixed text.length ++ text ++ pixels) =
      some (.ok (header.seen metadata, pixels)) := by
  have hfields := @fixed_prefixed header text.length
    (by unfold maxFrameMetadataBytes at hsize; omega) (text ++ pixels)
  rw [← List.append_assoc] at hfields
  have hlength : (header.fixed text.length ++ text ++ pixels).length =
      headerSize + text.length + pixels.length := by
    rw [List.length_append, List.length_append, length_fixed]
  have htext : slice (header.fixed text.length ++ text ++ pixels) headerSize text.length =
      some text := by
    rw [slice_eq (by omega), List.append_assoc, List.drop_left' (length_fixed header _),
      List.take_left' rfl]
  have hrest : (header.fixed text.length ++ text ++ pixels).drop (headerSize + text.length) =
      pixels := List.drop_left' (by simp)
  rw [decode, if_neg (by omega), hfields.magic]
  simp only [Option.bind_eq_bind, Option.bind_some, ne_eq, not_true_eq_false, if_false,
    hfields.version, hfields.size]
  rw [if_neg (by omega), if_neg (by omega), htext]
  simp only [Option.bind_some, hmetadata, hfields.stride, hfields.code, hfields.width,
    hfields.height, hfields.seq, hrest]
  simp only [seen, UInt32.ofNat_toNat]

variable {header : FrameHeader}

theorem seen_rowStride (h : header.rowStride ≠ some 0)
    (metadata : Option FrameMetadata) : (header.seen metadata).rowStride = header.rowStride := by
  unfold seen
  cases hstride : header.rowStride with
  | none => rfl
  | some stride =>
    have hpos : stride.toNat ≠ 0 := by
      intro hzero
      rw [hstride] at h
      exact h (congrArg some (UInt32.toNat_inj.mp (by rw [hzero]; rfl)))
    simp [hpos]

theorem encode_eq {kept : Option FrameMetadata} (h : header.keptMetadata json = .ok (kept, text)) :
    header.encode json = .ok (header.fixed text.length ++ text) := by
  rw [encode, h]
  rfl

theorem keptMetadata_decodes {kept : Option FrameMetadata}
    (h : header.keptMetadata json = .ok (kept, text))
    (hjson : ∀ metadata, kept = some metadata →
      json.fromSlice (json.toVec metadata) = .ok metadata ∧ json.toVec metadata ≠ []) :
    text.length ≤ maxFrameMetadataBytes ∧
      (if text.length = 0 then .ok none
        else (FrameMetadata.decode json text).map some) = Except.ok (ε := Text) kept := by
  unfold keptMetadata at h
  cases hmetadata : header.metadata with
  | none =>
    rw [hmetadata] at h
    cases h
    exact ⟨Nat.zero_le _, rfl⟩
  | some metadata =>
    rw [hmetadata] at h
    dsimp only at h
    cases hkept : FrameMetadata.encodeKept json metadata with
    | error error =>
      rw [hkept] at h
      cases h
    | ok result =>
      obtain ⟨value, bytes⟩ := result
      rw [hkept] at h
      cases h
      obtain ⟨hvalid, htext, hlength⟩ := FrameMetadata.encodeKept_spec json hkept
      obtain ⟨hround, hsome⟩ := hjson value rfl
      rw [← htext] at hround hsome
      have hpos : text.length ≠ 0 := fun hzero => hsome (List.eq_nil_of_length_eq_zero hzero)
      refine ⟨hlength, ?_⟩
      rw [if_neg hpos, FrameMetadata.decode, if_neg (Nat.not_lt.mpr hlength), hround]
      dsimp only
      rw [hvalid]
      rfl

/-- What an accepted buffer is: its metadata where its length field says, the
pixels right after, and a header read off the prefix. -/
structure Accepted (json : Json) (buf : List UInt8) (header : FrameHeader) (rest : List UInt8)
    (size : Nat) : Prop where
  sized : field buf 20 4 = some size
  small : size ≤ maxFrameMetadataBytes
  inside : headerSize + size ≤ buf.length
  remaining : rest = buf.drop (headerSize + size)
  decoded : (if size = 0 then .ok none
    else (FrameMetadata.decode json ((buf.drop headerSize).take size)).map some) =
      Except.ok (ε := Text) header.metadata
  format : ∃ code, header.pixelFormat = u8ToPixelFormat code
  stride : header.rowStride ≠ some 0

theorem ofNat_stride_ne {stride : Nat} (hpos : stride ≠ 0) (hsmall : stride < 2 ^ 32) :
    UInt32.ofNat stride ≠ 0 := by
  intro hzero
  have := congrArg UInt32.toNat hzero
  rw [UInt32.toNat_ofNat_of_lt' (by simpa [UInt32.size] using hsmall)] at this
  exact hpos this

theorem decode_spec (buf : List UInt8) :
    ∃ result, decode json buf = some result ∧ ∀ header rest, result = .ok (header, rest) →
      ∃ size, Accepted json buf header rest size := by
  unfold decode
  split
  · exact ⟨_, rfl, fun header rest heq => by cases heq⟩
  · rename_i hlong
    unfold headerSize at hlong
    simp only [field_eq (show 0 + 2 ≤ buf.length by omega),
      field_eq (show 2 + 1 ≤ buf.length by omega), field_eq (show 20 + 4 ≤ buf.length by omega),
      field_eq (show 16 + 4 ≤ buf.length by omega), field_eq (show 3 + 1 ≤ buf.length by omega),
      field_eq (show 4 + 4 ≤ buf.length by omega), field_eq (show 8 + 4 ≤ buf.length by omega),
      field_eq (show 12 + 4 ≤ buf.length by omega), Option.bind_eq_bind, Option.bind_some]
    split
    · exact ⟨_, rfl, fun header rest heq => by cases heq⟩
    · split
      · exact ⟨_, rfl, fun header rest heq => by cases heq⟩
      · split
        · exact ⟨_, rfl, fun header rest heq => by cases heq⟩
        · rename_i hsmall
          split
          · exact ⟨_, rfl, fun header rest heq => by cases heq⟩
          · rename_i hinside
            rw [slice_eq (by omega), Option.bind_some]
            cases hmetadata : (if fieldLE buf 20 4 = 0 then .ok none
              else (FrameMetadata.decode json ((buf.drop headerSize).take
                (fieldLE buf 20 4))).map some : Except Text (Option FrameMetadata)) with
            | error error => exact ⟨_, rfl, fun header rest heq => by cases heq⟩
            | ok metadata =>
              refine ⟨_, rfl, fun header rest heq => ?_⟩
              cases heq
              refine ⟨fieldLE buf 20 4, field_eq (by omega), by omega, by omega, rfl, hmetadata,
                ⟨_, rfl⟩, ?_⟩
              have hstride := fieldLE_lt buf 16 4
              dsimp only
              split
              · rename_i hpos
                intro heq
                exact ofNat_stride_ne hpos hstride (Option.some.inj heq)
              · simp

theorem Accepted.seen {json : Json} {rest : List UInt8} {size : Nat}
    (h : Accepted json buf header rest size) : header.seen header.metadata = header := by
  obtain ⟨code, hcode⟩ := h.format
  have hstride := seen_rowStride h.stride header.metadata
  have hformat : (header.seen header.metadata).pixelFormat = header.pixelFormat := by
    change u8ToPixelFormat (pixelFormatToU8 header.pixelFormat) = header.pixelFormat
    rw [hcode, u8ToPixelFormat_again]
  exact FrameHeader.ext hformat rfl rfl rfl hstride rfl

theorem Accepted.encode_again {json : Json} {rest : List UInt8}
    {size : Nat} (h : Accepted json buf header rest size)
    (hcanonical : ∀ metadata, header.metadata = some metadata →
      json.toVec metadata = (buf.drop headerSize).take size) :
    ∃ again, header.encode json = .ok again ∧
      decode json (again ++ rest) = some (.ok (header, rest)) := by
  have hsmall := h.small
  have hinside := h.inside
  have htextLength : ((buf.drop headerSize).take size).length = size := by
    rw [List.length_take, List.length_drop]
    omega
  have hkept : header.keptMetadata json =
      .ok (header.metadata, (buf.drop headerSize).take size) := by
    have hmetadata := h.decoded
    unfold keptMetadata
    cases hsome : header.metadata with
    | none =>
      rw [hsome] at hmetadata
      have hzero : size = 0 := by
        by_contra hpos
        rw [if_neg hpos] at hmetadata
        cases hdecode : FrameMetadata.decode json ((buf.drop headerSize).take size) with
        | error error =>
          rw [hdecode] at hmetadata
          cases hmetadata
        | ok value =>
          rw [hdecode] at hmetadata
          cases hmetadata
      rw [hzero, List.take_zero]
    | some metadata =>
      have htext := hcanonical metadata hsome
      rw [hsome] at hmetadata
      split at hmetadata
      · cases hmetadata
      · have hdecode : FrameMetadata.decode json ((buf.drop headerSize).take size) =
            .ok metadata := by
          cases hresult : FrameMetadata.decode json ((buf.drop headerSize).take size) with
          | error error =>
            rw [hresult] at hmetadata
            cases hmetadata
          | ok value =>
            rw [hresult] at hmetadata
            cases hmetadata
            rfl
        have hvalid := FrameMetadata.validate_of_decode hdecode
        have hencode : FrameMetadata.encodeKept json metadata =
            .ok (metadata, (buf.drop headerSize).take size) := by
          rw [FrameMetadata.encodeKept, FrameMetadata.bound_of_valid hvalid, hvalid]
          dsimp only
          rw [FrameMetadata.fit, htext, if_pos (by omega)]
        dsimp only
        rw [hencode]
  refine ⟨_, encode_eq json hkept, ?_⟩
  rw [decode_fixed json header (by omega) rest (by rw [htextLength]; exact h.decoded), h.seen]

/-- The envelope carries its pixels and metadata unchanged. -/
theorem envelope_exact :
    (∀ (header : FrameHeader) kept text pixels, header.keptMetadata json = .ok (kept, text) →
      pixelFormatToU8 header.pixelFormat ≠ 0 → header.rowStride ≠ some 0 →
      (∀ metadata, kept = some metadata →
        json.fromSlice (json.toVec metadata) = .ok metadata ∧ json.toVec metadata ≠ []) →
      ∃ bytes, header.encode json = .ok bytes ∧
        decode json (bytes ++ pixels) = some (.ok ({ header with metadata := kept }, pixels))) ∧
    ∀ buf, ∃ result, decode json buf = some result ∧
      ∀ (header : FrameHeader) rest, result = .ok (header, rest) → ∃ size, field buf 20 4 = some size ∧ headerSize + size ≤ buf.length ∧
        rest = buf.drop (headerSize + size) ∧
        ((∀ metadata, header.metadata = some metadata →
            json.toVec metadata = (buf.drop headerSize).take size) →
          ∃ again, header.encode json = .ok again ∧
            decode json (again ++ rest) = some (.ok (header, rest))) := by
  constructor
  · intro header kept text pixels hkept hcode hstride hjson
    obtain ⟨hsmall, hdecodes⟩ := keptMetadata_decodes json hkept hjson
    refine ⟨_, encode_eq json hkept, ?_⟩
    rw [decode_fixed json header hsmall pixels hdecodes]
    have hseen : header.seen kept = { header with metadata := kept } :=
      FrameHeader.ext (u8ToPixelFormat_code hcode) rfl rfl rfl (seen_rowStride hstride kept) rfl
    rw [hseen]
  · intro buf
    obtain ⟨result, hresult, haccepted⟩ := decode_spec json buf
    refine ⟨result, hresult, fun header rest heq => ?_⟩
    obtain ⟨size, haccepted⟩ := haccepted header rest heq
    exact ⟨size, haccepted.sized, haccepted.inside, haccepted.remaining, haccepted.encode_again⟩

/-- The metadata of a plain image, and its JSON text. -/
def plainMetadata : FrameMetadata := ⟨['7'], none, none, true, [], [], none, false⟩

def plainText : List UInt8 :=
  [123, 34, 98, 108, 111, 99, 107, 95, 105, 100, 34, 58, 34, 55, 34, 44, 34, 116, 115, 95, 100,
    101, 118, 34, 58, 110, 117, 108, 108, 44, 34, 116, 115, 95, 104, 111, 115, 116, 95, 110, 115,
    34, 58, 110, 117, 108, 108, 44, 34, 99, 111, 109, 112, 108, 101, 116, 101, 34, 58, 116, 114,
    117, 101, 44, 34, 99, 104, 117, 110, 107, 115, 34, 58, 91, 93, 44, 34, 102, 101, 97, 116,
    117, 114, 101, 115, 34, 58, 91, 93, 44, 34, 99, 104, 117, 110, 107, 95, 101, 114, 114, 111,
    114, 34, 58, 110, 117, 108, 108, 44, 34, 116, 114, 117, 110, 99, 97, 116, 101, 100, 34, 58,
    102, 97, 108, 115, 101, 125]

def plainJson : Json where
  toVec _ := plainText
  fromSlice bytes := if bytes = plainText then .ok plainMetadata else .error ['?']

theorem plain_encodeKept :
    FrameMetadata.encodeKept plainJson plainMetadata = .ok (plainMetadata, plainText) := by
  have hbound : plainMetadata.bound = plainMetadata := by decide
  have hvalid : plainMetadata.validate = .ok () := by decide
  rw [FrameMetadata.encodeKept, hbound, hvalid]
  dsimp only
  rw [FrameMetadata.fit, if_pos (by decide +kernel)]
  rfl

theorem plain_keptMetadata :
    keptMetadata plainJson ⟨.mono8, 2, 1, 5, some 4, some plainMetadata⟩ =
      .ok (some plainMetadata, plainText) := by
  rw [keptMetadata]
  dsimp only
  rw [plain_encodeKept]

theorem envelope_exact_plain :
    ∃ bytes, encode plainJson ⟨.mono8, 2, 1, 5, some 4, some plainMetadata⟩ = .ok bytes ∧
      decode plainJson (bytes ++ [10, 20]) =
        some (.ok (⟨.mono8, 2, 1, 5, some 4, some plainMetadata⟩, [10, 20])) :=
  (envelope_exact plainJson).1 _ _ _ [10, 20] plain_keptMetadata (by decide) (by decide)
    (by rintro _ ⟨⟩; exact ⟨by simp [plainJson], by decide⟩)

end FrameHeader

end VivaGenicam.Service
