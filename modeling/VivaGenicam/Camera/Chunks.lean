import VivaGenicam.Gige.Chunks
import VivaGenicam.Gige.Gvsp
import VivaGenicam.U3v.Chunks

/-!
A block's image and chunks from its whole payload, over either transport, and the
chunks that lie within a consumer's buffer.
-/

namespace VivaGenicam.Camera

open Library.Bytes Gvsp
open U3v (U3vError)

/-- The data of each chunk with its id, in payload order. -/
abbrev ChunkData := List (Nat × List UInt8)

/-- The bytes `offset .. offset + length` of a payload. -/
def slice (payload : List UInt8) (offset length : Nat) : List UInt8 :=
  (payload.drop offset).take length

def chunkData (payload : List UInt8) : Except ChunkError ChunkData :=
  (parseChunks payload).map fun chunks =>
    chunks.map fun chunk => (chunk.id, slice payload chunk.offset chunk.data.length)

/-- Whether a block of `payloadType` is made of chunks: chunk data, or any type with
extended chunks. -/
def carriesChunks (payloadType : Nat) : Bool :=
  hasExtendedChunks payloadType || payloadType &&& 0x3FFF == payloadTypeChunkData

/-- A GigE Vision block's image and chunks. A payload that does not tile into
chunks keeps its bytes and has none. -/
def split (payload : List UInt8) (payloadType : Nat) :
    List UInt8 × Option (Except ChunkError ChunkData) :=
  if !carriesChunks payloadType then (payload, none)
  else
    match chunkData payload with
    | .ok data =>
      let image :=
        (data.head?.filter fun _ => isImagePayload payloadType).map fun first => first.2
      (image.getD payload, some (.ok data))
    | .error err => (payload, some (.error err))

/-- Whether a payload type has the chunk flag. -/
def hasChunkFlag (payloadType : Nat) : Bool := payloadType &&& 0x4000 != 0

/-- Whether the low bits of a payload type name an image. -/
def namesImage (payloadType : Nat) : Bool := payloadType &&& 0x3FFF == 0x0001

def splitU3v (payload : List UInt8) (payloadType : Nat) :
    List UInt8 × Option (Except U3vError ChunkData) :=
  if !hasChunkFlag payloadType then (payload, none)
  else
    match U3v.parseChunks payload with
    | .ok chunks =>
      let data := chunks.map fun chunk => (chunk.1, slice payload chunk.2.1 chunk.2.2)
      let image :=
        (chunks.head?.filter fun _ => namesImage payloadType).map fun first =>
          slice payload first.2.1 first.2.2
      (image.getD payload, some (.ok data))
    | .error err => (payload, some (.error err))

/-- The chunks of a GigE Vision payload that lie within its first `filled` bytes, as
id, offset and length, in the order they sit in the buffer. -/
def chunkLayout (payload : List UInt8) (filled : Nat) : List (Nat × Nat × Nat) :=
  let chunks : List (Nat × Nat × Nat) :=
    match parseChunks payload with
    | .ok chunks =>
      (chunks.map fun chunk => (chunk.id, chunk.offset, chunk.data.length)).filter
        fun chunk => chunk.2.1 + chunk.2.2 ≤ filled
    | .error _ => []
  chunks.mergeSort fun a b => a.2.1 ≤ b.2.1

/-- The front of a payload that ends in no chunk. -/
inductive Front where
  | empty
  | truncated (rest : List UInt8) (pos : 0 < rest.length) (short : rest.length < 8)
  | pastStart (data : List UInt8) (id length : Nat) (id_lt : id < 2 ^ 32)
    (length_lt : length < 2 ^ 32) (past : data.length < length)

/-- How a tag is written. -/
abbrev TagOrder := Nat → Nat → List UInt8

def Front.encode (tag : TagOrder) : Front → List UInt8
  | .empty => []
  | .truncated rest _ _ => rest
  | .pastStart data id length _ _ _ => data ++ tag id length

/-- A payload as the tags divide it, in whatever order their bytes are. -/
structure Layout where
  front : Front
  chunks : List Chunk

def Layout.encode (tag : TagOrder) (layout : Layout) : List UInt8 :=
  layout.front.encode tag ++
    layout.chunks.flatMap fun chunk => chunk.data ++ tag chunk.id chunk.data.length

/-- Whether only chunks make up the payload. -/
def Layout.Tiled (layout : Layout) : Prop := layout.front = .empty

def Layout.places (layout : Layout) : List (Nat × Nat × Nat) := U3v.placeChunks 0 layout.chunks

def Layout.chunkData (layout : Layout) : ChunkData :=
  layout.chunks.map fun chunk => (chunk.id, chunk.data)

/-- Any eight bytes are a tag of one id and length. -/
def Covers (tag : TagOrder) : Prop :=
  ∀ bytes : List UInt8, bytes.length = 8 →
    ∃ id length, id < 2 ^ 32 ∧ length < 2 ^ 32 ∧ bytes = tag id length

theorem covers_big : Covers Gvsp.chunkTag := by
  intro bytes hlength
  obtain ⟨data, id, length, hid, hlt, hbytes⟩ := exists_chunkTag (Nat.le_of_eq hlength.symm)
  have hempty : data = [] := by
    have hsum := congrArg List.length hbytes
    rw [List.length_append, Gvsp.length_chunkTag] at hsum
    exact List.length_eq_zero_iff.mp (by omega)
  rw [hempty, List.nil_append] at hbytes
  exact ⟨id, length, hid, hlt, hbytes⟩

theorem covers_little : Covers U3v.chunkTag := by
  intro bytes hlength
  refine ⟨fieldLE bytes 0 4, fieldLE bytes 4 4, fieldLE_lt bytes 0 4, fieldLE_lt bytes 4 4, ?_⟩
  rw [U3v.chunkTag, encodeLE_fieldLE (by omega), encodeLE_fieldLE (by omega), List.drop_zero,
    List.take_of_length_le (l := bytes.drop 4) (by rw [List.length_drop]; omega),
    List.take_append_drop]

variable {tag : TagOrder}

theorem exists_layout (htag : Covers tag) (payload : List UInt8) :
    ∃ layout : Layout, payload = layout.encode tag := by
  induction hlength : payload.length using Nat.strong_induction_on generalizing payload with
  | _ n ih =>
    by_cases hempty : payload = []
    · exact ⟨⟨.empty, []⟩, by rw [hempty]; rfl⟩
    have hpos : 0 < payload.length := List.length_pos_iff.mpr hempty
    by_cases hshort : payload.length < 8
    · exact ⟨⟨.truncated payload hpos hshort, []⟩, by simp [Layout.encode, Front.encode]⟩
    have hbytes : (payload.drop (payload.length - 8)).length = 8 := by
      rw [List.length_drop]
      omega
    obtain ⟨id, length, hid, hlt, htagged⟩ := htag _ hbytes
    have hsplit := (List.take_append_drop (payload.length - 8) payload).symm
    rw [htagged] at hsplit
    have hdata : (payload.take (payload.length - 8)).length = payload.length - 8 := by
      rw [List.length_take]
      omega
    generalize payload.take (payload.length - 8) = data at hsplit hdata
    by_cases hpast : data.length < length
    · refine ⟨⟨.pastStart data id length hid hlt hpast, []⟩, ?_⟩
      simpa [Layout.encode, Front.encode] using hsplit
    -- the last chunk, and what is in front of it
    obtain ⟨before, body, rfl, hbody⟩ : ∃ before body, data = before ++ body ∧
        body.length = length :=
      ⟨data.take (data.length - length), data.drop (data.length - length), by simp, by
        rw [List.length_drop]
        omega⟩
    subst hbody
    rw [List.length_append] at hdata
    obtain ⟨layout, rfl⟩ := ih before.length (by omega) before rfl
    refine ⟨⟨layout.front, layout.chunks ++ [⟨id, body, hid, hlt⟩]⟩, ?_⟩
    rw [hsplit]
    simp [Layout.encode]

theorem slice_places (htag : ∀ id length, (tag id length).length = 8)
    (front : List UInt8) (chunks : List Chunk) :
    (U3v.placeChunks front.length chunks).map (fun place =>
        (place.1, slice (front ++ chunks.flatMap fun chunk =>
          chunk.data ++ tag chunk.id chunk.data.length) place.2.1 place.2.2)) =
      chunks.map fun chunk => (chunk.id, chunk.data) := by
  induction chunks generalizing front with
  | nil => rfl
  | cons chunk rest ih =>
    have hdata : slice (front ++ (chunk :: rest).flatMap fun chunk =>
        chunk.data ++ tag chunk.id chunk.data.length) front.length chunk.data.length =
          chunk.data := by
      rw [slice, List.drop_left, List.flatMap_cons, List.append_assoc, List.take_left]
    have hrest := ih (front ++ (chunk.data ++ tag chunk.id chunk.data.length))
    have hlength : (front ++ (chunk.data ++ tag chunk.id chunk.data.length)).length =
        front.length + chunk.data.length + 8 := by
      rw [List.length_append, List.length_append, htag]
      omega
    rw [hlength, List.append_assoc] at hrest
    rw [U3v.placeChunks, List.map_cons, List.map_cons, hdata]
    exact congrArg _ hrest

variable {layout : Layout}

theorem Layout.slice_places (htag : ∀ id length, (tag id length).length = 8)
    (htiled : layout.Tiled) :
    layout.places.map (fun place => (place.1, slice (layout.encode tag) place.2.1 place.2.2)) =
      layout.chunkData := by
  have hall := Camera.slice_places htag [] layout.chunks
  rw [List.nil_append] at hall
  have hencode : layout.encode tag = layout.chunks.flatMap fun chunk =>
      chunk.data ++ tag chunk.id chunk.data.length := by
    rw [Layout.encode, htiled]
    rfl
  rw [Layout.places, hencode]
  exact hall

theorem places_big (offset : Nat) (chunks : List Chunk) :
    (Gvsp.placeChunks offset chunks).map (fun chunk =>
        (chunk.id, chunk.offset, chunk.data.length)) = U3v.placeChunks offset chunks := by
  induction chunks generalizing offset with
  | nil => rfl
  | cons chunk rest ih =>
    rw [Gvsp.placeChunks, U3v.placeChunks, List.map_cons, ih, Chunk.length_encode, Nat.add_assoc]

theorem parseChunks_big (layout : Layout) :
    (layout.Tiled → parseChunks (layout.encode Gvsp.chunkTag) =
        .ok (Gvsp.placeChunks 0 layout.chunks)) ∧
      (¬ layout.Tiled → ∃ err, parseChunks (layout.encode Gvsp.chunkTag) = .error err) := by
  obtain ⟨front, chunks⟩ := layout
  have hchunks : (chunks.flatMap fun chunk =>
      chunk.data ++ Gvsp.chunkTag chunk.id chunk.data.length) = Gvsp.encodeChunks chunks := rfl
  cases front with
  | empty =>
    refine ⟨fun _ => ?_, fun h => absurd rfl h⟩
    exact parseChunks_encode chunks
  | truncated rest hpos hshort =>
    refine ⟨fun h => (by cases h), fun _ => ?_⟩
    exact ⟨_, parseChunks_untagged (.truncatedTag rest hpos hshort) chunks⟩
  | pastStart data id length hid hlength hpast =>
    refine ⟨fun h => (by cases h), fun _ => ?_⟩
    exact ⟨_, parseChunks_untagged (.lengthPastStart data id length hid hlength hpast) chunks⟩

theorem parseChunks_little (layout : Layout) :
    (layout.Tiled → U3v.parseChunks (layout.encode U3v.chunkTag) = .ok layout.places) ∧
      (¬ layout.Tiled → ∃ err, U3v.parseChunks (layout.encode U3v.chunkTag) = .error err) := by
  obtain ⟨front, chunks⟩ := layout
  cases front with
  | empty =>
    refine ⟨fun _ => ?_, fun h => absurd rfl h⟩
    exact U3v.parseChunks_encode chunks
  | truncated rest hpos hshort =>
    refine ⟨fun h => (by cases h), fun _ => ?_⟩
    exact ⟨_, U3v.parseChunks_truncated hpos hshort chunks⟩
  | pastStart data id length hid hlength hpast =>
    refine ⟨fun h => (by cases h), fun _ => ?_⟩
    exact ⟨_, U3v.parseChunks_pastStart hid hlength hpast chunks⟩

theorem chunkData_big (htiled : layout.Tiled) :
    chunkData (layout.encode Gvsp.chunkTag) = .ok layout.chunkData := by
  have hslices := Layout.slice_places Gvsp.length_chunkTag htiled
  rw [Layout.places, ← places_big, List.map_map] at hslices
  rw [chunkData, (parseChunks_big layout).1 htiled]
  exact congrArg Except.ok hslices

theorem split_tiled (first : Chunk) (rest : List Chunk) (payloadType : Nat) :
    let layout : Layout := ⟨.empty, first :: rest⟩
    (carriesChunks payloadType = true → split (layout.encode Gvsp.chunkTag) payloadType =
        (if isImagePayload payloadType then first.data else layout.encode Gvsp.chunkTag,
          some (.ok layout.chunkData))) ∧
      (hasChunkFlag payloadType = true → splitU3v (layout.encode U3v.chunkTag) payloadType =
        (if namesImage payloadType then first.data else layout.encode U3v.chunkTag,
          some (.ok layout.chunkData))) := by
  intro layout
  have htiled : layout.Tiled := rfl
  refine ⟨fun hcarries => ?_, fun hflag => ?_⟩
  · rw [split, hcarries, chunkData_big htiled]
    cases isImagePayload payloadType with
    | false => rfl
    | true => rfl
  · have hslices := Layout.slice_places U3v.length_chunkTag htiled
    have hfirst : slice (layout.encode U3v.chunkTag) 0 first.data.length = first.data := by
      have hhead := congrArg List.head? hslices
      simpa [Layout.places, U3v.placeChunks, Layout.chunkData, layout] using hhead
    rw [splitU3v, hflag, (parseChunks_little layout).1 htiled]
    simp only [hslices]
    cases namesImage payloadType with
    | false => rfl
    | true => exact congrArg (·, some (Except.ok layout.chunkData)) hfirst

theorem split_untiled (htiled : ¬ layout.Tiled) :
    ∃ err err', parseChunks (layout.encode Gvsp.chunkTag) = .error err ∧
      U3v.parseChunks (layout.encode U3v.chunkTag) = .error err' ∧ ∀ payloadType,
        (carriesChunks payloadType = true → split (layout.encode Gvsp.chunkTag) payloadType =
          (layout.encode Gvsp.chunkTag, some (.error err))) ∧
        (hasChunkFlag payloadType = true → splitU3v (layout.encode U3v.chunkTag) payloadType =
          (layout.encode U3v.chunkTag, some (.error err'))) := by
  obtain ⟨err, hbig⟩ := (parseChunks_big layout).2 htiled
  obtain ⟨err', hlittle⟩ := (parseChunks_little layout).2 htiled
  refine ⟨err, err', hbig, hlittle, fun payloadType => ⟨fun hcarries => ?_, fun hflag => ?_⟩⟩
  · rw [split, hcarries, chunkData, hbig]
    rfl
  · rw [splitU3v, hflag, hlittle]
    rfl

theorem le_offset_of_mem {offset : Nat} {chunks : List Chunk} {place : Nat × Nat × Nat}
    (h : place ∈ U3v.placeChunks offset chunks) : offset ≤ place.2.1 := by
  induction chunks generalizing offset with
  | nil => cases h
  | cons chunk rest ih =>
    rcases List.mem_cons.mp h with rfl | h
    · exact le_rfl
    · have hrest := ih h
      omega

theorem places_ascending (offset : Nat) (chunks : List Chunk) :
    (U3v.placeChunks offset chunks).Pairwise fun a b => a.2.1 < b.2.1 := by
  induction chunks generalizing offset with
  | nil => exact List.Pairwise.nil
  | cons chunk rest ih =>
    refine List.pairwise_cons.mpr ⟨fun place hplace => ?_, ih _⟩
    have hle := le_offset_of_mem hplace
    simp only at hle ⊢
    omega

theorem chunkLayout_tiled (htiled : layout.Tiled) (filled : Nat) :
    chunkLayout (layout.encode Gvsp.chunkTag) filled =
      layout.places.filter fun place => place.2.1 + place.2.2 ≤ filled := by
  rw [chunkLayout, (parseChunks_big layout).1 htiled]
  simp only [places_big]
  apply List.mergeSort_of_pairwise
  refine List.Pairwise.filter _ ((places_ascending 0 layout.chunks).imp ?_)
  intro a b hlt
  exact decide_eq_true (Nat.le_of_lt hlt)

theorem first_prefix (tag : TagOrder) (first : Chunk) (rest : List Chunk) :
    first.data <+: Layout.encode tag ⟨.empty, first :: rest⟩ := by
  have hsplit : Layout.encode tag ⟨.empty, first :: rest⟩ =
      first.data ++ (tag first.id first.data.length ++
        rest.flatMap fun chunk => chunk.data ++ tag chunk.id chunk.data.length) := by
    simp [Layout.encode, Front.encode]
  rw [hsplit]
  exact List.prefix_append _ _

/-- Both transports split chunk payloads alike up to the byte order of the tags,
save that only GigE Vision knows the types `0x0004` and `0x0005` without the chunk
flag, and an image in `0x4005`; a payload without an image stays whole. -/
theorem chunk_payload_laws :
    (∀ (first : Chunk) (rest : List Chunk) (payloadType : Nat),
      let layout : Layout := ⟨.empty, first :: rest⟩
      (carriesChunks payloadType = true → split (layout.encode Gvsp.chunkTag) payloadType =
          (if isImagePayload payloadType then first.data else layout.encode Gvsp.chunkTag,
            some (.ok layout.chunkData))) ∧
        (hasChunkFlag payloadType = true → splitU3v (layout.encode U3v.chunkTag) payloadType =
          (if namesImage payloadType then first.data else layout.encode U3v.chunkTag,
            some (.ok layout.chunkData))) ∧
        (hasChunkFlag payloadType = true → carriesChunks payloadType = true) ∧
        (payloadType &&& 0x3FFF ≠ payloadTypeExtendedChunkData →
          isImagePayload payloadType = namesImage payloadType) ∧
        first.data <+: layout.encode Gvsp.chunkTag ∧ first.data <+: layout.encode U3v.chunkTag) ∧
      (∀ layout : Layout, layout.Tiled →
        (∃ raw, parseChunks (layout.encode Gvsp.chunkTag) = .ok raw ∧
          raw.map (fun chunk => (chunk.id, chunk.offset, chunk.data.length)) = layout.places) ∧
        U3v.parseChunks (layout.encode U3v.chunkTag) = .ok layout.places ∧
        (∀ tag, tag = Gvsp.chunkTag ∨ tag = U3v.chunkTag →
          layout.places.map (fun place =>
            (place.1, slice (layout.encode tag) place.2.1 place.2.2)) = layout.chunkData) ∧
        layout.places.Pairwise (fun a b => a.2.1 < b.2.1) ∧
        ∀ filled, chunkLayout (layout.encode Gvsp.chunkTag) filled =
          layout.places.filter fun place => place.2.1 + place.2.2 ≤ filled) ∧
      (∀ layout : Layout, ¬ layout.Tiled →
        ∃ err err', parseChunks (layout.encode Gvsp.chunkTag) = .error err ∧
          U3v.parseChunks (layout.encode U3v.chunkTag) = .error err' ∧ ∀ payloadType,
            (carriesChunks payloadType = true → split (layout.encode Gvsp.chunkTag) payloadType =
              (layout.encode Gvsp.chunkTag, some (.error err))) ∧
            (hasChunkFlag payloadType = true →
              splitU3v (layout.encode U3v.chunkTag) payloadType =
                (layout.encode U3v.chunkTag, some (.error err')))) ∧
      ∀ payload : List UInt8, (∃ layout : Layout, payload = layout.encode Gvsp.chunkTag) ∧
        ∃ layout : Layout, payload = layout.encode U3v.chunkTag := by
  refine ⟨fun first rest payloadType => ?_, fun layout htiled => ?_,
    fun layout htiled => split_untiled htiled,
    fun payload => ⟨exists_layout covers_big payload, exists_layout covers_little payload⟩⟩
  · obtain ⟨hbig, hlittle⟩ := split_tiled first rest payloadType
    refine ⟨hbig, hlittle, fun hflag => ?_, fun hother => ?_, ?_, ?_⟩
    · rw [hasChunkFlag] at hflag
      rw [carriesChunks, hasExtendedChunks, payloadTypeExtendedChunk, hflag]
      rfl
    · rw [isImagePayload, namesImage, payloadTypeMask, payloadTypeImage]
      rw [beq_false_of_ne hother, Bool.or_false]
    · exact first_prefix Gvsp.chunkTag first rest
    · exact first_prefix U3v.chunkTag first rest
  · refine ⟨⟨_, (parseChunks_big layout).1 htiled, places_big 0 layout.chunks⟩,
      (parseChunks_little layout).1 htiled, ?_, places_ascending 0 layout.chunks,
      chunkLayout_tiled htiled⟩
    rintro tag (rfl | rfl)
    · exact layout.slice_places Gvsp.length_chunkTag htiled
    · exact layout.slice_places U3v.length_chunkTag htiled

def imageAndValue : Layout :=
  ⟨.empty, [⟨0x0D, [1, 2], by decide, by decide⟩, ⟨1, [42], by decide, by decide⟩]⟩

theorem chunk_payload_laws_imageAndValue :
    split (imageAndValue.encode Gvsp.chunkTag) 0x4001 =
        ([1, 2], some (.ok [(0x0D, [1, 2]), (1, [42])])) ∧
      splitU3v (imageAndValue.encode U3v.chunkTag) 0x4001 =
        ([1, 2], some (.ok [(0x0D, [1, 2]), (1, [42])])) := by
  obtain ⟨hbig, hlittle, -⟩ := chunk_payload_laws.1 ⟨0x0D, [1, 2], by decide, by decide⟩
    [⟨1, [42], by decide, by decide⟩] 0x4001
  exact ⟨hbig (by decide), hlittle (by decide)⟩

/-- Chunk data without the chunk flag is only split over GigE Vision, and a payload
that stays whole has the byte order of its transport. -/
theorem chunk_data_differs :
    carriesChunks 0x0004 = true ∧
      (split (imageAndValue.encode Gvsp.chunkTag) 0x0004).2 =
        some (.ok [(0x0D, [1, 2]), (1, [42])]) ∧
      (splitU3v (imageAndValue.encode U3v.chunkTag) 0x0004).2 = none ∧
      (split (imageAndValue.encode Gvsp.chunkTag) 0x4004).1 ≠
        (splitU3v (imageAndValue.encode U3v.chunkTag) 0x4004).1 := by
  have htiled := split_tiled ⟨0x0D, [1, 2], by decide, by decide⟩
    [⟨1, [42], by decide, by decide⟩]
  refine ⟨by decide, ?_, rfl, ?_⟩
  · exact congrArg Prod.snd ((htiled 0x0004).1 (by decide))
  · have hbig := congrArg Prod.fst ((htiled 0x4004).1 (by decide))
    have hlittle := congrArg Prod.fst ((htiled 0x4004).2 (by decide))
    intro heq
    have hwhole := hbig.symm.trans (heq.trans hlittle)
    exact absurd hwhole (by decide)

end VivaGenicam.Camera
