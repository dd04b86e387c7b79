import VivaGenicam.Gige.Chunks
import VivaGenicam.Library.Bytes
import VivaGenicam.U3v.Framing

/-!
Chunk payloads of a USB3 Vision device: GigE Vision's layout with little-endian
tags, read from the end.
-/

namespace VivaGenicam.U3v

open Library.Bytes
open Gvsp (Chunk chunkTagLen)

def malformedChunks (problem : String) : U3vError := .malformed "chunk layout" problem

/-- The scan, from `stop` back to the start of the payload. -/
def scanChunks (payload : List UInt8) (stop : Nat) (chunks : List (Nat × Nat × Nat)) :
    Except U3vError (List (Nat × Nat × Nat)) :=
  if stop = 0 then
    .ok chunks
  else if stop < chunkTagLen then
    .error (malformedChunks "ends in a tag shorter than eight bytes")
  else
    let tagOffset := stop - chunkTagLen
    let id := fieldLE payload tagOffset 4
    let length := fieldLE payload (tagOffset + 4) 4
    if tagOffset < length then
      .error (malformedChunks "has a tag claiming more data than precedes it")
    else
      let start := tagOffset - length
      scanChunks payload start ((id, start, length) :: chunks)
termination_by stop
decreasing_by
  simp only [chunkTagLen] at *
  omega

/-- The chunks of a payload, as id, offset and length, in payload order. -/
def parseChunks (payload : List UInt8) : Except U3vError (List (Nat × Nat × Nat)) :=
  scanChunks payload payload.length []

/-- The tag that closes a chunk of `length` bytes, little-endian. -/
def chunkTag (id length : Nat) : List UInt8 := encodeLE 4 id ++ encodeLE 4 length

def encodeChunk (chunk : Chunk) : List UInt8 := chunk.data ++ chunkTag chunk.id chunk.data.length

def encodeChunks (chunks : List Chunk) : List UInt8 := chunks.flatMap encodeChunk

/-- Where each chunk's data is, the first at `offset`. -/
def placeChunks : Nat → List Chunk → List (Nat × Nat × Nat)
  | _, [] => []
  | offset, chunk :: rest =>
    (chunk.id, offset, chunk.data.length) :: placeChunks (offset + chunk.data.length + 8) rest

@[simp] theorem length_chunkTag (id length : Nat) : (chunkTag id length).length = 8 := by
  simp [chunkTag]

theorem length_encodeChunk (chunk : Chunk) :
    (encodeChunk chunk).length = chunk.data.length + 8 := by
  simp [encodeChunk]

theorem encodeChunks_snoc (chunks : List Chunk) (chunk : Chunk) :
    encodeChunks (chunks ++ [chunk]) = encodeChunks chunks ++ encodeChunk chunk := by
  simp [encodeChunks]

theorem placeChunks_snoc (offset : Nat) (chunks : List Chunk) (chunk : Chunk) :
    placeChunks offset (chunks ++ [chunk]) = placeChunks offset chunks ++
      [(chunk.id, offset + (encodeChunks chunks).length, chunk.data.length)] := by
  induction chunks generalizing offset with
  | nil => rfl
  | cons first rest ih =>
    have hlength : offset + (encodeChunks (first :: rest)).length =
        offset + first.data.length + 8 + (encodeChunks rest).length := by
      have hfirst := length_encodeChunk first
      simp only [encodeChunks, List.flatMap_cons, List.length_append] at hfirst ⊢
      omega
    rw [List.cons_append, placeChunks, ih, placeChunks, List.cons_append, hlength]

theorem read_chunkTag (data after : List UInt8) {id length : Nat} (hid : id < 2 ^ 32)
    (hlength : length < 2 ^ 32) :
    fieldLE (data ++ (chunkTag id length ++ after)) data.length 4 = id ∧
      fieldLE (data ++ (chunkTag id length ++ after)) (data.length + 4) 4 = length := by
  rw [chunkTag, List.append_assoc]
  constructor
  · exact fieldLE_encodeLE data (encodeLE 4 length ++ after) _ 4 id rfl hid
  · rw [fieldLE_append _ _ (by omega), Nat.add_sub_cancel_left, fieldLE_skip _ _ _ (by decide)]
    exact fieldLE_first _ hlength

theorem scanChunks_chunk (front after : List UInt8) (chunk : Chunk)
    (chunks : List (Nat × Nat × Nat)) :
    scanChunks (front ++ (encodeChunk chunk ++ after)) (front.length + (encodeChunk chunk).length)
        chunks =
      scanChunks (front ++ (encodeChunk chunk ++ after)) front.length
        ((chunk.id, front.length, chunk.data.length) :: chunks) := by
  have hpayload : front ++ (encodeChunk chunk ++ after) =
      (front ++ chunk.data) ++ (chunkTag chunk.id chunk.data.length ++ after) := by
    simp [encodeChunk]
  obtain ⟨hid, hlength⟩ := read_chunkTag (front ++ chunk.data) after chunk.id_lt chunk.length_lt
  have htag : chunkTagLen = 8 := rfl
  have hsize := length_encodeChunk chunk
  have htagOffset : front.length + (encodeChunk chunk).length - chunkTagLen =
      (front ++ chunk.data).length := by
    rw [List.length_append]
    omega
  have hstart : (front ++ chunk.data).length - chunk.data.length = front.length := by
    rw [List.length_append]
    omega
  rw [scanChunks, if_neg (by omega), if_neg (by omega), htagOffset, hpayload]
  dsimp only
  rw [hid, hlength, if_neg (by rw [List.length_append]; omega), hstart]

theorem scanChunks_encode (front after : List UInt8) (chunks : List Chunk)
    (behind : List (Nat × Nat × Nat)) :
    scanChunks (front ++ (encodeChunks chunks ++ after))
        (front.length + (encodeChunks chunks).length) behind =
      scanChunks (front ++ (encodeChunks chunks ++ after)) front.length
        (placeChunks front.length chunks ++ behind) := by
  induction chunks using List.reverseRecOn generalizing after behind with
  | nil => rfl
  | append_singleton chunks chunk ih =>
    have hpayload : front ++ (encodeChunks (chunks ++ [chunk]) ++ after) =
        (front ++ encodeChunks chunks) ++ (encodeChunk chunk ++ after) := by
      rw [encodeChunks_snoc]
      simp
    have hstop : front.length + (encodeChunks (chunks ++ [chunk])).length =
        (front ++ encodeChunks chunks).length + (encodeChunk chunk).length := by
      rw [encodeChunks_snoc, List.length_append, List.length_append]
      omega
    rw [hpayload, hstop, scanChunks_chunk, List.length_append, List.append_assoc,
      ih (encodeChunk chunk ++ after), placeChunks_snoc, List.append_assoc]
    rfl

theorem parseChunks_encode (chunks : List Chunk) :
    parseChunks (encodeChunks chunks) = .ok (placeChunks 0 chunks) := by
  have hscan := scanChunks_encode [] [] chunks []
  simp only [List.nil_append, List.append_nil, List.length_nil, Nat.zero_add] at hscan
  rw [parseChunks, hscan, scanChunks, if_pos rfl]

theorem parseChunks_truncated {rest : List UInt8} (hpos : 0 < rest.length)
    (hshort : rest.length < 8) (chunks : List Chunk) :
    parseChunks (rest ++ encodeChunks chunks) =
      .error (malformedChunks "ends in a tag shorter than eight bytes") := by
  have hscan := scanChunks_encode rest [] chunks []
  simp only [List.append_nil] at hscan
  rw [parseChunks, List.length_append, hscan, scanChunks, if_neg (by omega),
    if_pos (by rw [chunkTagLen]; omega)]

theorem parseChunks_pastStart {data : List UInt8} {id length : Nat} (hid : id < 2 ^ 32)
    (hlength : length < 2 ^ 32) (hpast : data.length < length) (chunks : List Chunk) :
    parseChunks ((data ++ chunkTag id length) ++ encodeChunks chunks) =
      .error (malformedChunks "has a tag claiming more data than precedes it") := by
  obtain ⟨hreadId, hreadLength⟩ := read_chunkTag data (encodeChunks chunks) hid hlength
  have hscan := scanChunks_encode (data ++ chunkTag id length) [] chunks []
  simp only [List.append_nil] at hscan
  have htag : chunkTagLen = 8 := rfl
  have hstop : (data ++ chunkTag id length).length - chunkTagLen = data.length := by
    rw [List.length_append, length_chunkTag]
    omega
  rw [parseChunks, List.length_append, hscan, scanChunks, if_neg (by simp),
    if_neg (by rw [List.length_append, length_chunkTag]; omega), hstop, List.append_assoc]
  dsimp only
  rw [hreadLength, if_pos hpast]

end VivaGenicam.U3v
