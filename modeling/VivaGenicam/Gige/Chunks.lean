import VivaGenicam.Library.Bytes

/-!
Chunk payloads: each chunk is its data and then a tag of its id and the length
of the data, so that a payload is read from its end. The payload is remote
input.
-/

namespace VivaGenicam.Gvsp

open Library.Bytes

/-- Length of a chunk tag: chunk id and data length, 32 bits each. -/
def chunkTagLen : Nat := 8

/-- One chunk of a payload. -/
structure ChunkRaw where
  id : Nat
  /-- Where the chunk's data starts in the payload. -/
  offset : Nat
  data : List UInt8
deriving DecidableEq, Repr

/-- A chunk payload that does not tile into tagged chunks. -/
inductive ChunkError where
  /-- What remains at the front of the payload is too short for a tag. -/
  | truncatedTag (remaining : Nat)
  /-- A tag claims more data than precedes it. -/
  | lengthPastStart (id tagOffset length : Nat)
deriving DecidableEq, Repr

/-- The scan, from `stop` back to the start of the payload; `chunks` are those
behind `stop`. -/
def scanChunks (payload : List UInt8) (stop : Nat) (chunks : List ChunkRaw) :
    Except ChunkError (List ChunkRaw) :=
  if stop = 0 then
    .ok chunks
  else if stop < chunkTagLen then
    .error (.truncatedTag stop)
  else
    let tagOffset := stop - chunkTagLen
    let id := fieldBE payload tagOffset 4
    let length := fieldBE payload (tagOffset + 4) 4
    if tagOffset < length then
      .error (.lengthPastStart id tagOffset length)
    else
      let start := tagOffset - length
      scanChunks payload start
        ({ id, offset := start, data := (payload.drop start).take length } :: chunks)
termination_by stop
decreasing_by
  simp only [chunkTagLen] at *
  omega

/-- Split a chunk payload into its chunks, in payload order. -/
def parseChunks (payload : List UInt8) : Except ChunkError (List ChunkRaw) :=
  scanChunks payload payload.length []

/-- A chunk whose id and length fit their fields. -/
structure Chunk where
  id : Nat
  data : List UInt8
  id_lt : id < 2 ^ 32
  length_lt : data.length < 2 ^ 32

/-- The tag that closes a chunk of `length` bytes. -/
def chunkTag (id length : Nat) : List UInt8 := encodeBE 4 id ++ encodeBE 4 length

def Chunk.encode (chunk : Chunk) : List UInt8 :=
  chunk.data ++ chunkTag chunk.id chunk.data.length

def encodeChunks (chunks : List Chunk) : List UInt8 := chunks.flatMap Chunk.encode

/-- The chunks with where their data starts, the first at `offset`. -/
def placeChunks : Nat → List Chunk → List ChunkRaw
  | _, [] => []
  | offset, chunk :: rest =>
    { id := chunk.id, offset, data := chunk.data } ::
      placeChunks (offset + chunk.encode.length) rest

/-- Bytes that end in no chunk, and what is wrong with them. -/
inductive Untagged : List UInt8 → ChunkError → Prop
  | truncatedTag (rest : List UInt8) (hpos : 0 < rest.length) (hshort : rest.length < 8) :
    Untagged rest (.truncatedTag rest.length)
  | lengthPastStart (data : List UInt8) (id length : Nat) (hid : id < 2 ^ 32)
    (hlength : length < 2 ^ 32) (hpast : data.length < length) :
    Untagged (data ++ chunkTag id length) (.lengthPastStart id data.length length)

@[simp] theorem length_chunkTag (id length : Nat) : (chunkTag id length).length = 8 := by
  simp [chunkTag]

theorem Chunk.length_encode (chunk : Chunk) : chunk.encode.length = chunk.data.length + 8 := by
  simp [Chunk.encode]

@[simp] theorem encodeChunks_nil : encodeChunks [] = [] := rfl

theorem encodeChunks_snoc (chunks : List Chunk) (chunk : Chunk) :
    encodeChunks (chunks ++ [chunk]) = encodeChunks chunks ++ chunk.encode := by
  simp [encodeChunks]

theorem placeChunks_snoc (offset : Nat) (chunks : List Chunk) (chunk : Chunk) :
    placeChunks offset (chunks ++ [chunk]) = placeChunks offset chunks ++
      [{ id := chunk.id, offset := offset + (encodeChunks chunks).length, data := chunk.data }] := by
  induction chunks generalizing offset with
  | nil => rfl
  | cons first rest ih =>
    have hlength : (encodeChunks (first :: rest)).length =
        first.encode.length + (encodeChunks rest).length := by
      simp [encodeChunks]
    rw [List.cons_append, placeChunks, ih, placeChunks, List.cons_append, hlength, Nat.add_assoc]

theorem read_chunkTag (data after : List UInt8) {id length : Nat} (hid : id < 2 ^ 32)
    (hlength : length < 2 ^ 32) :
    fieldBE (data ++ (chunkTag id length ++ after)) data.length 4 = id ∧
      fieldBE (data ++ (chunkTag id length ++ after)) (data.length + 4) 4 = length := by
  constructor
  · rw [chunkTag, List.append_assoc]
    exact fieldBE_encodeBE data (encodeBE 4 length ++ after) _ 4 id rfl hid
  · have hsplit : data ++ (chunkTag id length ++ after) =
        (data ++ encodeBE 4 id) ++ (encodeBE 4 length ++ after) := by
      simp [chunkTag]
    rw [hsplit]
    exact fieldBE_encodeBE _ after _ 4 length (by simp) hlength

theorem scanChunks_chunk (front after : List UInt8) (chunk : Chunk) (chunks : List ChunkRaw) :
    scanChunks (front ++ (chunk.encode ++ after)) (front.length + chunk.encode.length) chunks =
      scanChunks (front ++ (chunk.encode ++ after)) front.length
        ({ id := chunk.id, offset := front.length, data := chunk.data } :: chunks) := by
  have hpayload : front ++ (chunk.encode ++ after) =
      (front ++ chunk.data) ++ (chunkTag chunk.id chunk.data.length ++ after) := by
    simp [Chunk.encode]
  obtain ⟨hid, hlength⟩ := read_chunkTag (front ++ chunk.data) after chunk.id_lt chunk.length_lt
  have htagOffset : front.length + chunk.encode.length - chunkTagLen =
      (front ++ chunk.data).length := by
    rw [Chunk.length_encode, chunkTagLen, List.length_append]
    omega
  have hdata : ((front ++ (chunk.encode ++ after)).drop front.length).take chunk.data.length =
      chunk.data := by
    rw [List.drop_left, Chunk.encode, List.append_assoc, List.take_left]
  have hstart : (front ++ chunk.data).length - chunk.data.length = front.length := by
    rw [List.length_append]
    omega
  rw [scanChunks, if_neg (by rw [Chunk.length_encode]; omega),
    if_neg (by rw [Chunk.length_encode, chunkTagLen]; omega), htagOffset, hpayload]
  dsimp only
  rw [hid, hlength, if_neg (by rw [List.length_append]; omega), hstart, ← hpayload, hdata]

theorem scanChunks_encode (front after : List UInt8) (chunks : List Chunk)
    (behind : List ChunkRaw) :
    scanChunks (front ++ (encodeChunks chunks ++ after))
        (front.length + (encodeChunks chunks).length) behind =
      scanChunks (front ++ (encodeChunks chunks ++ after)) front.length
        (placeChunks front.length chunks ++ behind) := by
  induction chunks using List.reverseRecOn generalizing after behind with
  | nil => rfl
  | append_singleton chunks chunk ih =>
    have hpayload : front ++ (encodeChunks (chunks ++ [chunk]) ++ after) =
        (front ++ encodeChunks chunks) ++ (chunk.encode ++ after) := by
      rw [encodeChunks_snoc]
      simp
    have hstop : front.length + (encodeChunks (chunks ++ [chunk])).length =
        (front ++ encodeChunks chunks).length + chunk.encode.length := by
      rw [encodeChunks_snoc, List.length_append, List.length_append]
      omega
    rw [hpayload, hstop, scanChunks_chunk, List.length_append, List.append_assoc,
      ih (chunk.encode ++ after), placeChunks_snoc, List.append_assoc]
    rfl

theorem scanChunks_untagged {rest : List UInt8} {error : ChunkError} (h : Untagged rest error)
    (after : List UInt8) (behind : List ChunkRaw) :
    scanChunks (rest ++ after) rest.length behind = .error error := by
  cases h with
  | truncatedTag _ hpos hshort =>
    rw [scanChunks, if_neg (by omega), if_pos (by rw [chunkTagLen]; omega)]
  | lengthPastStart data id length hid hlength hpast =>
    obtain ⟨hreadId, hreadLength⟩ := read_chunkTag data after hid hlength
    have hstop : (data ++ chunkTag id length).length - chunkTagLen = data.length := by
      rw [List.length_append, length_chunkTag, chunkTagLen]
      omega
    rw [scanChunks, if_neg (by simp), if_neg (by simp [chunkTagLen]), hstop, List.append_assoc]
    dsimp only
    rw [hreadId, hreadLength, if_pos hpast]

theorem exists_chunkTag {payload : List UInt8} (hlong : 8 ≤ payload.length) :
    ∃ data id length, id < 2 ^ 32 ∧ length < 2 ^ 32 ∧ payload = data ++ chunkTag id length := by
  obtain ⟨data, tag, rfl, htag⟩ : ∃ data tag, payload = data ++ tag ∧ tag.length = 8 :=
    ⟨payload.take (payload.length - 8), payload.drop (payload.length - 8), by simp, by
      rw [List.length_drop]
      omega⟩
  have hbytes : ∀ bytes : List UInt8, bytes.length = 4 →
      encodeBE 4 (decodeBE bytes) = bytes ∧ decodeBE bytes < 2 ^ 32 := by
    intro bytes hfour
    have hle : decodeBE bytes < 256 ^ bytes.length := decodeBE_lt bytes
    have hencode := encodeLE_decodeLE bytes.reverse
    rw [List.length_reverse, hfour] at hencode
    rw [hfour] at hle
    refine ⟨?_, hle⟩
    rw [encodeBE_eq, decodeBE_eq, hencode, List.reverse_reverse]
  have hfirst := hbytes (tag.take 4) (by rw [List.length_take]; omega)
  have hsecond := hbytes (tag.drop 4) (by rw [List.length_drop]; omega)
  refine ⟨data, _, _, hfirst.2, hsecond.2, ?_⟩
  rw [chunkTag, hfirst.1, hsecond.1, List.take_append_drop]

theorem exists_chunks (payload : List UInt8) :
    (∃ chunks, payload = encodeChunks chunks) ∨
      ∃ rest chunks error, payload = rest ++ encodeChunks chunks ∧ Untagged rest error := by
  induction hlength : payload.length using Nat.strong_induction_on generalizing payload with
  | _ n ih =>
    by_cases hempty : payload.length = 0
    · exact .inl ⟨[], by rwa [List.length_eq_zero_iff] at hempty⟩
    by_cases hshort : payload.length < 8
    · exact .inr ⟨payload, [], _, by simp, .truncatedTag payload (by omega) hshort⟩
    obtain ⟨data, id, length, hid, hlt, rfl⟩ := exists_chunkTag (Nat.le_of_not_lt hshort)
    by_cases hpast : data.length < length
    · exact .inr ⟨_, [], _, by simp, .lengthPastStart data id length hid hlt hpast⟩
    -- the last chunk, and what is in front of it
    obtain ⟨front, body, rfl, hbody⟩ : ∃ front body, data = front ++ body ∧ body.length = length :=
      ⟨data.take (data.length - length), data.drop (data.length - length), by simp, by
        rw [List.length_drop]
        omega⟩
    subst hbody
    have hsplit : front ++ body ++ chunkTag id body.length =
        front ++ (Chunk.mk id body hid hlt).encode := by
      simp [Chunk.encode]
    have hfront : front.length < n := by
      rw [← hlength]
      simp
    rw [hsplit]
    rcases ih front.length hfront front rfl with ⟨chunks, heq⟩ | ⟨rest, chunks, error, heq, hrest⟩
    · exact .inl ⟨chunks ++ [⟨id, body, hid, hlt⟩], by rw [encodeChunks_snoc, heq]⟩
    · refine .inr ⟨rest, chunks ++ [⟨id, body, hid, hlt⟩], error, ?_, hrest⟩
      rw [encodeChunks_snoc, heq, List.append_assoc]

theorem parseChunks_encode (chunks : List Chunk) :
    parseChunks (encodeChunks chunks) = .ok (placeChunks 0 chunks) := by
  have hscan := scanChunks_encode [] [] chunks []
  simp only [List.nil_append, List.append_nil, List.length_nil, Nat.zero_add] at hscan
  rw [parseChunks, hscan, scanChunks, if_pos rfl]

theorem parseChunks_untagged {rest : List UInt8} {error : ChunkError} (h : Untagged rest error)
    (chunks : List Chunk) : parseChunks (rest ++ encodeChunks chunks) = .error error := by
  have hscan := scanChunks_encode rest [] chunks []
  simp only [List.append_nil] at hscan
  rw [parseChunks, List.length_append, hscan]
  exact scanChunks_untagged h _ _

/-- Chunks are read back as they were sent; nothing else is read; and an error
says what ends in no chunk once the chunks behind it are read. -/
theorem parse_chunks_laws :
    (∀ chunks, parseChunks (encodeChunks chunks) = .ok (placeChunks 0 chunks)) ∧
      ∀ payload,
        (∀ raw, parseChunks payload = .ok raw ↔
          ∃ chunks, payload = encodeChunks chunks ∧ raw = placeChunks 0 chunks) ∧
        ∀ error, parseChunks payload = .error error ↔
          ∃ rest chunks, payload = rest ++ encodeChunks chunks ∧ Untagged rest error := by
  refine ⟨parseChunks_encode, fun payload => ⟨fun raw => ⟨fun hraw => ?_, ?_⟩,
    fun error => ⟨fun herror => ?_, ?_⟩⟩⟩
  · rcases exists_chunks payload with ⟨chunks, rfl⟩ | ⟨rest, chunks, error, rfl, hrest⟩
    · rw [parseChunks_encode] at hraw
      cases hraw
      exact ⟨chunks, rfl, rfl⟩
    · rw [parseChunks_untagged hrest] at hraw
      cases hraw
  · rintro ⟨chunks, rfl, rfl⟩
    exact parseChunks_encode chunks
  · rcases exists_chunks payload with ⟨chunks, rfl⟩ | ⟨rest, chunks, other, rfl, hrest⟩
    · rw [parseChunks_encode] at herror
      cases herror
    · rw [parseChunks_untagged hrest] at herror
      cases herror
      exact ⟨rest, chunks, rfl, hrest⟩
  · rintro ⟨rest, chunks, rfl, hrest⟩
    exact parseChunks_untagged hrest chunks

/-- An image, an empty chunk and a tag that claims three bytes of two. -/
example : parseChunks ([7, 9] ++ chunkTag 1 2 ++ chunkTag 5 0) =
      .ok [⟨1, 0, [7, 9]⟩, ⟨5, 10, []⟩] ∧
    parseChunks ([7, 9] ++ chunkTag 1 3 ++ chunkTag 5 0) = .error (.lengthPastStart 1 2 3) := by
  constructor
  · exact parseChunks_encode [⟨1, [7, 9], by decide, by decide⟩, ⟨5, [], by decide, by decide⟩]
  · exact parseChunks_untagged (.lengthPastStart [7, 9] 1 3 (by decide) (by decide) (by decide))
      [⟨5, [], by decide, by decide⟩]

end VivaGenicam.Gvsp
