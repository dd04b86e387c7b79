import Mathlib.Tactic

/-!
The facts of one frame that travel in the packet of its pixels: bounded before
they are written, checked before they are believed. JSON text is the business
of a serializer; `Json` stands for it.
-/

namespace VivaGenicam.Service

/-- A string as its characters. -/
abbrev Text := List Char

def maxFrameMetadataBytes : Nat := 64 * 1024
def maxFrameMetadataItems : Nat := 128
def maxFrameMetadataText : Nat := 1024

structure FrameChunk where
  id : Text
  bytes : Nat
deriving DecidableEq, Repr

structure FrameFeature where
  name : Text
  value : Option Text
  error : Option Text
deriving DecidableEq, Repr

structure FrameMetadata where
  blockId : Text
  tsDev : Option Text
  tsHostNs : Option Text
  complete : Bool
  chunks : List FrameChunk
  features : List FrameFeature
  chunkError : Option Text
  truncated : Bool
deriving DecidableEq, Repr

/-- Writing a metadata object as JSON text, and reading one. -/
structure Json where
  toVec : FrameMetadata → List UInt8
  fromSlice : List UInt8 → Except Text FrameMetadata

def decimalValue (digits : Text) : Nat :=
  digits.foldl (fun value digit => 10 * value + (digit.toNat - '0'.toNat)) 0

def allDigits (text : Text) : Bool := text ≠ [] ∧ text.all Char.isDigit

def decimalU64 (text : Text) : Bool := allDigits text ∧ decimalValue text < 2 ^ 64

def signedNs (text : Text) : Bool :=
  match text with
  | '-' :: digits => allDigits digits ∧ decimalValue digits ≤ 2 ^ 127
  | digits => allDigits digits ∧ decimalValue digits < 2 ^ 127

def textOk (text : Text) : Bool := text.length ≤ maxFrameMetadataText

namespace FrameFeature

def valid (feature : FrameFeature) : Bool :=
  textOk feature.name && feature.value.all textOk && feature.error.all textOk &&
    feature.value.isSome != feature.error.isSome

end FrameFeature

namespace FrameChunk

def valid (chunk : FrameChunk) : Bool :=
  decimalU64 chunk.id && chunk.bytes ≤ 9007199254740991

end FrameChunk

/-- The text cut to its limit, and whether it was cut. -/
def clipped (text : Text) (truncated : Bool) : Text × Bool :=
  if maxFrameMetadataText < text.length then (text.take maxFrameMetadataText, true)
  else (text, truncated)

def clippedOption (text : Option Text) (truncated : Bool) : Option Text × Bool :=
  match text with
  | some text => ((clipped text truncated).1, (clipped text truncated).2)
  | none => (none, truncated)

def clippedFeature (feature : FrameFeature) (truncated : Bool) : FrameFeature × Bool :=
  let name := clipped feature.name truncated
  let value := clippedOption feature.value name.2
  let error := clippedOption feature.error value.2
  (⟨name.1, value.1, error.1⟩, error.2)

def clippedFeatures : List FrameFeature → Bool → List FrameFeature × Bool
  | [], truncated => ([], truncated)
  | feature :: rest, truncated =>
    let first := clippedFeature feature truncated
    let others := clippedFeatures rest first.2
    (first.1 :: others.1, others.2)

namespace FrameMetadata

/-- The limits a decoder holds untrusted metadata to. -/
def validate (metadata : FrameMetadata) : Except Text Unit :=
  if ¬ decimalU64 metadata.blockId ∨ metadata.tsDev.any (fun text => ¬ decimalU64 text) ∨
      metadata.tsHostNs.any (fun text => ¬ signedNs text) then
    .error "invalid decimal frame identifier or timestamp".toList
  else if maxFrameMetadataItems < metadata.chunks.length ∨
      maxFrameMetadataItems < metadata.features.length ∨
      metadata.chunkError.any (fun text => ¬ textOk text) ∨
      metadata.chunks.any (fun chunk => ¬ chunk.valid) ∨
      metadata.features.any (fun feature => ¬ feature.valid) then
    .error "frame metadata exceeds item/text limits or has an invalid feature".toList
  else .ok ()

def bound (metadata : FrameMetadata) : FrameMetadata :=
  let overChunks := maxFrameMetadataItems < metadata.chunks.length
  let overFeatures := maxFrameMetadataItems < metadata.features.length
  let features := clippedFeatures (metadata.features.take maxFrameMetadataItems)
    (metadata.truncated || overChunks || overFeatures)
  let chunkError := clippedOption metadata.chunkError features.2
  { metadata with
    chunks := metadata.chunks.take maxFrameMetadataItems
    features := features.1
    chunkError := chunkError.1
    truncated := chunkError.2 }

/-- The encoder's loop: the value that fits, and its text. -/
def fit (json : Json) (value : FrameMetadata) : Except Text (FrameMetadata × List UInt8) :=
  if (json.toVec value).length ≤ maxFrameMetadataBytes then .ok (value, json.toVec value)
  else if value.features ≠ [] then
    fit json { value with
      truncated := true
      features := value.features.take (value.features.length / 2) }
  else if value.chunks ≠ [] then
    fit json { value with
      truncated := true
      chunks := value.chunks.take (value.chunks.length / 2) }
  else .error "fixed frame metadata exceeds the packet limit".toList
termination_by value.features.length + value.chunks.length
decreasing_by
  · rename_i hsome
    have hpos : 0 < value.features.length := List.length_pos_of_ne_nil hsome
    simp only [List.length_take]
    omega
  · rename_i hsome
    have hpos : 0 < value.chunks.length := List.length_pos_of_ne_nil hsome
    simp only [List.length_take]
    omega

/-- What the encoder keeps of the metadata, and its text. -/
def encodeKept (json : Json) (metadata : FrameMetadata) :
    Except Text (FrameMetadata × List UInt8) :=
  match metadata.bound.validate with
  | .error error => .error error
  | .ok () => fit json metadata.bound

def encode (json : Json) (metadata : FrameMetadata) : Except Text (List UInt8) :=
  (encodeKept json metadata).map Prod.snd

def decode (json : Json) (bytes : List UInt8) : Except Text FrameMetadata :=
  if maxFrameMetadataBytes < bytes.length then .error "frame metadata exceeds 64 KiB".toList
  else
    match json.fromSlice bytes with
    | .error error => .error error
    | .ok value =>
      match value.validate with
      | .error error => .error error
      | .ok () => .ok value

variable {metadata : FrameMetadata}

theorem validate_ok (h : metadata.validate = .ok ()) :
    metadata.chunks.length ≤ maxFrameMetadataItems ∧
      metadata.features.length ≤ maxFrameMetadataItems ∧
      metadata.chunkError.all textOk ∧ (∀ chunk ∈ metadata.chunks, chunk.valid = true) ∧
      ∀ feature ∈ metadata.features, feature.valid = true := by
  unfold validate at h
  split at h
  · cases h
  · split at h
    · cases h
    · rename_i hlimits
      simp only [not_or, Nat.not_lt] at hlimits
      obtain ⟨hchunks, hfeatures, herror, hchunk, hfeature⟩ := hlimits
      refine ⟨hchunks, hfeatures, ?_, ?_, ?_⟩
      · cases htext : metadata.chunkError with
        | none => rfl
        | some text => simpa [htext] using herror
      · intro chunk hmem
        simp only [List.any_eq_true, not_exists, not_and] at hchunk
        simpa using hchunk chunk hmem
      · intro feature hmem
        simp only [List.any_eq_true, not_exists, not_and] at hfeature
        simpa using hfeature feature hmem

variable {kept : FrameMetadata}

theorem validate_sublists (h : metadata.validate = .ok ())
    (hblockId : kept.blockId = metadata.blockId) (htsDev : kept.tsDev = metadata.tsDev)
    (htsHostNs : kept.tsHostNs = metadata.tsHostNs)
    (hchunkError : kept.chunkError = metadata.chunkError)
    (hchunks : kept.chunks.Sublist metadata.chunks)
    (hfeatures : kept.features.Sublist metadata.features) : kept.validate = .ok () := by
  have hok := validate_ok h
  have hchunksLength := hchunks.length_le
  have hfeaturesLength := hfeatures.length_le
  unfold validate at h ⊢
  rw [hblockId, htsDev, htsHostNs, hchunkError]
  split at h
  · cases h
  · rename_i htimes
    rw [if_neg htimes]
    split at h
    · cases h
    · rename_i hlimits
      rw [if_neg]
      simp only [not_or, Nat.not_lt] at hlimits ⊢
      refine ⟨by omega, by omega, hlimits.2.2.1, ?_, ?_⟩
      · simp only [List.any_eq_true, not_exists, not_and]
        intro chunk hmem
        simp [hok.2.2.2.1 chunk (hchunks.subset hmem)]
      · simp only [List.any_eq_true, not_exists, not_and]
        intro feature hmem
        simp [hok.2.2.2.2 feature (hfeatures.subset hmem)]

variable {bytes : List UInt8}

theorem fit_spec (json : Json) {value : FrameMetadata}
    (hvalid : value.validate = .ok ()) (h : fit json value = .ok (kept, bytes)) :
    kept.validate = .ok () ∧ bytes = json.toVec kept ∧ bytes.length ≤ maxFrameMetadataBytes := by
  induction hsize : value.features.length + value.chunks.length using Nat.strong_induction_on
    generalizing value with
  | _ size ih =>
    rw [fit] at h
    split at h
    · rename_i hfits
      cases h
      exact ⟨hvalid, rfl, hfits⟩
    · split at h
      · rename_i hsome
        have hpos : 0 < value.features.length := List.length_pos_of_ne_nil hsome
        refine ih _ ?_ ?_ h rfl
        · simp only [List.length_take]
          omega
        · exact validate_sublists hvalid rfl rfl rfl rfl (List.Sublist.refl _)
            (List.take_sublist _ _)
      · split at h
        · rename_i hsome
          have hpos : 0 < value.chunks.length := List.length_pos_of_ne_nil hsome
          refine ih _ ?_ ?_ h rfl
          · simp only [List.length_take]
            omega
          · exact validate_sublists hvalid rfl rfl rfl rfl (List.take_sublist _ _)
              (List.Sublist.refl _)
        · cases h

theorem encodeKept_spec (json : Json) (h : encodeKept json metadata = .ok (kept, bytes)) :
    kept.validate = .ok () ∧ bytes = json.toVec kept ∧ bytes.length ≤ maxFrameMetadataBytes := by
  unfold encodeKept at h
  cases hvalid : metadata.bound.validate with
  | error error =>
    rw [hvalid] at h
    cases h
  | ok _ =>
    rw [hvalid] at h
    exact fit_spec json hvalid h

theorem validate_of_decode {json : Json}
    (h : decode json bytes = .ok metadata) : metadata.validate = .ok () := by
  unfold decode at h
  split at h
  · cases h
  · cases hvalue : json.fromSlice bytes with
    | error error =>
      rw [hvalue] at h
      cases h
    | ok value =>
      rw [hvalue] at h
      dsimp only at h
      cases hvalid : value.validate with
      | error error =>
        rw [hvalid] at h
        cases h
      | ok _ =>
        rw [hvalid] at h
        cases h
        exact hvalid

theorem clipped_of_textOk {text : Text} (h : textOk text = true) (truncated : Bool) :
    clipped text truncated = (text, truncated) := by
  unfold textOk at h
  rw [decide_eq_true_eq] at h
  exact if_neg (Nat.not_lt.mpr h)

theorem clippedOption_of_textOk {text : Option Text} (h : text.all textOk = true)
    (truncated : Bool) : clippedOption text truncated = (text, truncated) := by
  cases text with
  | none => rfl
  | some text =>
    rw [clippedOption, clipped_of_textOk (by simpa using h)]

theorem clippedFeatures_of_valid {features : List FrameFeature}
    (h : ∀ feature ∈ features, feature.valid = true) (truncated : Bool) :
    clippedFeatures features truncated = (features, truncated) := by
  induction features with
  | nil => rfl
  | cons feature rest ih =>
    have hfeature := h feature (by simp)
    simp only [FrameFeature.valid, Bool.and_eq_true] at hfeature
    obtain ⟨⟨⟨hname, hvalue⟩, herror⟩, -⟩ := hfeature
    rw [clippedFeatures, clippedFeature, clipped_of_textOk hname]
    dsimp only
    rw [clippedOption_of_textOk hvalue]
    dsimp only
    rw [clippedOption_of_textOk herror]
    dsimp only
    rw [ih fun other hmem => h other (by simp [hmem])]

theorem bound_of_valid (h : metadata.validate = .ok ()) :
    metadata.bound = metadata := by
  obtain ⟨hchunks, hfeatures, herror, -, hfeature⟩ := validate_ok h
  unfold bound
  dsimp only
  rw [List.take_of_length_le hchunks, List.take_of_length_le hfeatures,
    decide_eq_false (Nat.not_lt.mpr hchunks), decide_eq_false (Nat.not_lt.mpr hfeatures),
    clippedFeatures_of_valid hfeature]
  dsimp only
  rw [clippedOption_of_textOk herror]
  simp

end FrameMetadata

end VivaGenicam.Service
