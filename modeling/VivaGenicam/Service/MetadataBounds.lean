import VivaGenicam.Service.Images
import VivaGenicam.Library.Utf8

/-!
Why a frame's metadata never keeps its pixels from being sent: whatever it holds, the
encoder finds a part of it that fits, says so, and the decoder takes it.
-/

namespace VivaGenicam.Service

/-- A JSON string: each character as `escape` has it. -/
def stringText (escape : Char → List UInt8) (text : Text) : List UInt8 :=
  34 :: text.flatMap escape ++ [34]

def nullText : List UInt8 := [110, 117, 108, 108]

def optionText (escape : Char → List UInt8) : Option Text → List UInt8
  | none => nullText
  | some text => stringText escape text

def boolText : Bool → List UInt8
  | true => [116, 114, 117, 101]
  | false => [102, 97, 108, 115, 101]

def memberText (name : Text) (value : List UInt8) : List UInt8 :=
  34 :: Library.Utf8.encode name ++ [34, 58] ++ value

def joined (parts : List (List UInt8)) : List UInt8 := [44].intercalate parts

def objectText (members : List (List UInt8)) : List UInt8 := 123 :: joined members ++ [125]

def arrayText (items : List (List UInt8)) : List UInt8 := 91 :: joined items ++ [93]

section Members

variable (escape : Char → List UInt8)

def FrameChunk.toText (chunk : FrameChunk) : List UInt8 :=
  objectText [memberText ['i', 'd'] (stringText escape chunk.id),
    memberText ['b', 'y', 't', 'e', 's'] (Library.Utf8.encode (decimal chunk.bytes))]

def FrameFeature.toText (feature : FrameFeature) : List UInt8 :=
  objectText [memberText ['n', 'a', 'm', 'e'] (stringText escape feature.name),
    memberText ['v', 'a', 'l', 'u', 'e'] (optionText escape feature.value),
    memberText ['e', 'r', 'r', 'o', 'r'] (optionText escape feature.error)]

/-- The compact form, its members in the order of the struct's fields. -/
def FrameMetadata.toText (metadata : FrameMetadata) : List UInt8 :=
  objectText [
    memberText ['b', 'l', 'o', 'c', 'k', '_', 'i', 'd'] (stringText escape metadata.blockId),
    memberText ['t', 's', '_', 'd', 'e', 'v'] (optionText escape metadata.tsDev),
    memberText ['t', 's', '_', 'h', 'o', 's', 't', '_', 'n', 's']
      (optionText escape metadata.tsHostNs),
    memberText ['c', 'o', 'm', 'p', 'l', 'e', 't', 'e'] (boolText metadata.complete),
    memberText ['c', 'h', 'u', 'n', 'k', 's']
      (arrayText (metadata.chunks.map (FrameChunk.toText escape))),
    memberText ['f', 'e', 'a', 't', 'u', 'r', 'e', 's']
      (arrayText (metadata.features.map (FrameFeature.toText escape))),
    memberText ['c', 'h', 'u', 'n', 'k', '_', 'e', 'r', 'r', 'o', 'r']
      (optionText escape metadata.chunkError),
    memberText ['t', 'r', 'u', 'n', 'c', 'a', 't', 'e', 'd'] (boolText metadata.truncated)]

end Members

/-- How `serde_json` writes metadata: compactly, a character in six bytes at most. -/
structure WritesCompact (json : Json) (escape : Char → List UInt8) : Prop where
  short : ∀ c, (escape c).length ≤ 6
  written : ∀ metadata, json.toVec metadata = metadata.toText escape

namespace FrameMetadata

/-- It reads back what the encoder has it write for this metadata. -/
def ReadsBack (json : Json) (metadata : FrameMetadata) : Prop :=
  ∀ kept bytes, metadata.encodeKept json = .ok (kept, bytes) → json.fromSlice bytes = .ok kept

/-- The loop over evaluated features, each with its value or its error's text. -/
def takeFeatures : Nat → FrameMetadata → List (Text × Except Text Text) → FrameMetadata
  | _, metadata, [] => metadata
  | index, metadata, (name, value) :: rest =>
    if index = maxFrameMetadataItems then { metadata with truncated := true }
    else
      let name := clipped name metadata.truncated
      match value with
      | .ok value =>
        let value := clipped value name.2
        takeFeatures (index + 1) { metadata with
          features := metadata.features ++ [⟨name.1, some value.1, none⟩]
          truncated := value.2 } rest
      | .error error =>
        let error := clipped error name.2
        takeFeatures (index + 1) { metadata with
          features := metadata.features ++ [⟨name.1, none, some error.1⟩]
          truncated := error.2 } rest

def withFeatures (metadata : FrameMetadata) (features : List (Text × Except Text Text)) :
    FrameMetadata :=
  (takeFeatures 0 metadata features).bound

end FrameMetadata

def asFeature : Text × Except Text Text → FrameFeature
  | (name, .ok value) => ⟨name, some value, none⟩
  | (name, .error error) => ⟨name, none, some error⟩

/-- The metadata with every evaluated feature whole. -/
def FrameMetadata.withAll (metadata : FrameMetadata)
    (features : List (Text × Except Text Text)) : FrameMetadata :=
  { metadata with features := metadata.features ++ features.map asFeature }

def cutText (text : Text) : Text := text.take maxFrameMetadataText

def FrameFeature.cut (feature : FrameFeature) : FrameFeature :=
  ⟨cutText feature.name, feature.value.map cutText, feature.error.map cutText⟩

/-- The texts of a feature are within the limit. -/
def FrameFeature.within (feature : FrameFeature) : Bool :=
  textOk feature.name && feature.value.all textOk && feature.error.all textOk

/-- The kept metadata is the given one with items left off at the ends and texts cut, and
says so unless nothing was. -/
structure KeptOf (given kept : FrameMetadata) : Prop where
  blockId : kept.blockId = given.blockId
  tsDev : kept.tsDev = given.tsDev
  tsHostNs : kept.tsHostNs = given.tsHostNs
  complete : kept.complete = given.complete
  chunks : kept.chunks <+: given.chunks
  features : kept.features <+: given.features.map FrameFeature.cut
  chunkError : kept.chunkError = given.chunkError.map cutText
  untouched : kept.truncated = false → kept = given

/-- Counts and texts are within their limits. -/
structure Within (metadata : FrameMetadata) : Prop where
  chunks : metadata.chunks.length ≤ maxFrameMetadataItems
  features : metadata.features.length ≤ maxFrameMetadataItems
  chunkError : metadata.chunkError.all textOk = true
  texts : ∀ feature ∈ metadata.features, feature.within = true

def IsU64 (text : Text) : Prop := ∃ number < 2 ^ 64, text = decimal number

def IsI128 (text : Text) : Prop :=
  ∃ number : Int, -2 ^ 127 ≤ number ∧ number < 2 ^ 127 ∧ text = decimalNs number

/-- Identifiers and timestamps in range, and exactly one of value and error for each
feature. -/
structure WellFormed (metadata : FrameMetadata) : Prop where
  blockId : IsU64 metadata.blockId
  tsDev : ∀ text ∈ metadata.tsDev, IsU64 text
  tsHostNs : ∀ text ∈ metadata.tsHostNs, IsI128 text
  chunks : ∀ chunk ∈ metadata.chunks, IsU64 chunk.id ∧ chunk.bytes ≤ 2 ^ 53 - 1
  features : ∀ feature ∈ metadata.features, feature.value.isSome ≠ feature.error.isSome

/-- Encoding one metadata delivers what is kept of the given one. -/
def Delivered (json : Json) (given encoded : FrameMetadata) : Prop :=
  ∃ bytes kept, encoded.encode json = .ok bytes ∧ bytes.length ≤ maxFrameMetadataBytes ∧
    FrameMetadata.decode json bytes = .ok kept ∧ KeptOf given kept ∧
    (Within given → (json.toVec given).length ≤ maxFrameMetadataBytes → kept = given)

theorem clipped_eq (text : Text) (truncated : Bool) :
    clipped text truncated = (cutText text, truncated || !textOk text) := by
  unfold clipped cutText textOk
  split
  · rename_i hlong
    simp [Nat.not_le.mpr hlong]
  · rename_i hshort
    have hle := Nat.not_lt.mp hshort
    simp [hle, List.take_of_length_le hle]

theorem clippedOption_eq (text : Option Text) (truncated : Bool) :
    clippedOption text truncated = (text.map cutText, truncated || !text.all textOk) := by
  cases text with
  | none => simp [clippedOption]
  | some text => simp [clippedOption, clipped_eq]

theorem clippedFeature_eq (feature : FrameFeature) (truncated : Bool) :
    clippedFeature feature truncated = (feature.cut, truncated || !feature.within) := by
  simp [clippedFeature, clipped_eq, clippedOption_eq, FrameFeature.cut, FrameFeature.within,
    Bool.or_assoc, Bool.not_and]

theorem clippedFeatures_eq (features : List FrameFeature) (truncated : Bool) :
    clippedFeatures features truncated =
      (features.map FrameFeature.cut, truncated || !features.all FrameFeature.within) := by
  induction features generalizing truncated with
  | nil => simp [clippedFeatures]
  | cons feature rest ih =>
    simp [clippedFeatures, clippedFeature_eq, ih, Bool.or_assoc, Bool.not_and]

theorem textOk_cutText (text : Text) : textOk (cutText text) = true := by
  simp [textOk, cutText]

variable {text : Text}

theorem cutText_of_textOk (h : textOk text = true) : cutText text = text :=
  List.take_of_length_le (by simpa [textOk] using h)

theorem map_cutText_of_all {text : Option Text} (h : text.all textOk = true) :
    text.map cutText = text := by
  cases text with
  | none => rfl
  | some text => rw [Option.map_some, cutText_of_textOk (by simpa using h)]

theorem FrameFeature.within_cut (feature : FrameFeature) : feature.cut.within = true := by
  cases hvalue : feature.value <;> cases herror : feature.error <;>
    simp [FrameFeature.cut, FrameFeature.within, textOk_cutText, hvalue, herror]

theorem FrameFeature.cut_of_within {feature : FrameFeature} (h : feature.within = true) :
    feature.cut = feature := by
  simp only [FrameFeature.within, Bool.and_eq_true] at h
  rw [FrameFeature.cut, cutText_of_textOk h.1.1, map_cutText_of_all h.1.2, map_cutText_of_all h.2]

theorem map_cut_of_within {features : List FrameFeature}
    (h : ∀ feature ∈ features, feature.within = true) :
    features.map FrameFeature.cut = features := by
  have hid : features.map FrameFeature.cut = features.map id :=
    List.map_congr_left fun feature hmem => FrameFeature.cut_of_within (h feature hmem)
  rw [hid, List.map_id]

variable {metadata : FrameMetadata}

namespace FrameMetadata

theorem bound_eq (metadata : FrameMetadata) :
    metadata.bound = { metadata with
      chunks := metadata.chunks.take maxFrameMetadataItems
      features := (metadata.features.take maxFrameMetadataItems).map FrameFeature.cut
      chunkError := metadata.chunkError.map cutText
      truncated := metadata.truncated || decide (maxFrameMetadataItems < metadata.chunks.length) ||
        decide (maxFrameMetadataItems < metadata.features.length) ||
        !(metadata.features.take maxFrameMetadataItems).all FrameFeature.within ||
        !metadata.chunkError.all textOk } := by
  simp only [bound, clippedFeatures_eq, clippedOption_eq]

theorem within_bound (metadata : FrameMetadata) : Within metadata.bound := by
  rw [bound_eq]
  refine ⟨List.length_take_le _ _, ?_, ?_, ?_⟩
  · rw [List.length_map]
    exact List.length_take_le _ _
  · cases metadata.chunkError with
    | none => rfl
    | some text => exact textOk_cutText text
  · intro feature hmem
    obtain ⟨other, -, rfl⟩ := List.mem_map.mp hmem
    exact other.within_cut

theorem bound_of_within (h : Within metadata) :
    metadata.bound = metadata := by
  have hall : metadata.features.all FrameFeature.within = true := List.all_eq_true.mpr h.texts
  rw [bound_eq, List.take_of_length_le h.chunks, List.take_of_length_le h.features,
    map_cut_of_within h.texts, map_cutText_of_all h.chunkError, hall, h.chunkError,
    decide_eq_false (Nat.not_lt.mpr h.chunks), decide_eq_false (Nat.not_lt.mpr h.features)]
  simp

theorem takeFeatures_eq (index : Nat) (metadata : FrameMetadata)
    (features : List (Text × Except Text Text)) (hindex : index ≤ maxFrameMetadataItems) :
    takeFeatures index metadata features = { metadata with
      features := metadata.features ++
        ((features.take (maxFrameMetadataItems - index)).map asFeature).map FrameFeature.cut
      truncated := metadata.truncated ||
        !((features.take (maxFrameMetadataItems - index)).map asFeature).all FrameFeature.within ||
        decide (maxFrameMetadataItems - index < features.length) } := by
  induction features generalizing index metadata with
  | nil => simp [takeFeatures]
  | cons feature rest ih =>
    obtain ⟨name, value⟩ := feature
    by_cases hfull : index = maxFrameMetadataItems
    · simp [takeFeatures, hfull]
    · obtain ⟨room, hroom⟩ : ∃ room, maxFrameMetadataItems - index = room + 1 :=
        ⟨maxFrameMetadataItems - index - 1, by omega⟩
      have hnext : maxFrameMetadataItems - (index + 1) = room := by omega
      cases value with
      | ok value =>
        simp only [takeFeatures, if_neg hfull, clipped_eq]
        rw [ih (index + 1) _ (by omega), hroom, hnext]
        simp [asFeature, FrameFeature.cut, FrameFeature.within, Bool.or_assoc, Bool.not_and]
      | error error =>
        simp only [takeFeatures, if_neg hfull, clipped_eq]
        rw [ih (index + 1) _ (by omega), hroom, hnext]
        simp [asFeature, FrameFeature.cut, FrameFeature.within, Bool.or_assoc, Bool.not_and]

theorem keptOf_bound (metadata : FrameMetadata) : KeptOf metadata metadata.bound := by
  refine ⟨?_, ?_, ?_, ?_, ?_, ?_, ?_, ?_⟩
  · rw [bound_eq]
  · rw [bound_eq]
  · rw [bound_eq]
  · rw [bound_eq]
  · rw [bound_eq]
    exact List.take_prefix _ _
  · rw [bound_eq]
    exact (List.take_prefix _ _).map _
  · rw [bound_eq]
  · intro hwhole
    refine bound_of_within ?_
    rw [bound_eq] at hwhole
    simp only [Bool.or_eq_false_iff, decide_eq_false_iff_not, Nat.not_lt, Bool.not_eq_false'] at hwhole
    obtain ⟨⟨⟨⟨-, hchunks⟩, hfeatures⟩, htexts⟩, herror⟩ := hwhole
    rw [List.take_of_length_le hfeatures, List.all_eq_true] at htexts
    exact ⟨hchunks, hfeatures, herror, htexts⟩

end FrameMetadata

variable {given : FrameMetadata}

theorem KeptOf.trans {middle kept : FrameMetadata} (h : KeptOf given middle)
    (hkept : KeptOf middle kept) : KeptOf given kept := by
  have hcut : ∀ feature : FrameFeature, feature.cut.cut = feature.cut :=
    fun feature => FrameFeature.cut_of_within feature.within_cut
  have htext : ∀ text : Text, cutText (cutText text) = cutText text :=
    fun text => cutText_of_textOk (textOk_cutText text)
  refine ⟨hkept.blockId.trans h.blockId, hkept.tsDev.trans h.tsDev,
    hkept.tsHostNs.trans h.tsHostNs, hkept.complete.trans h.complete,
    hkept.chunks.trans h.chunks, ?_, ?_, ?_⟩
  · refine hkept.features.trans ?_
    have hmap := h.features.map FrameFeature.cut
    rw [List.map_map] at hmap
    have hsame : FrameFeature.cut ∘ FrameFeature.cut = FrameFeature.cut := funext hcut
    rwa [hsame] at hmap
  · rw [hkept.chunkError, h.chunkError, Option.map_map]
    have hsame : cutText ∘ cutText = cutText := funext htext
    rw [hsame]
  · intro hwhole
    have hmiddle := hkept.untouched hwhole
    rw [hmiddle] at hwhole ⊢
    exact h.untouched hwhole

namespace FrameMetadata

theorem keptOf_withFeatures (metadata : FrameMetadata)
    (features : List (Text × Except Text Text)) :
    KeptOf (metadata.withAll features) (metadata.withFeatures features) := by
  have htaken := takeFeatures_eq 0 metadata features (Nat.zero_le _)
  rw [Nat.sub_zero] at htaken
  have hbound := keptOf_bound (takeFeatures 0 metadata features)
  unfold withFeatures
  rw [htaken] at hbound ⊢
  refine ⟨hbound.blockId, hbound.tsDev, hbound.tsHostNs, hbound.complete, hbound.chunks, ?_,
    hbound.chunkError, ?_⟩
  · refine hbound.features.trans ?_
    have hcut : ∀ feature : FrameFeature, feature.cut.cut = feature.cut :=
      fun feature => FrameFeature.cut_of_within feature.within_cut
    have hsame : FrameFeature.cut ∘ FrameFeature.cut = FrameFeature.cut := funext hcut
    simp only [withAll, List.map_append, List.map_map]
    rw [← Function.comp_assoc, hsame, ← List.map_map, ← List.map_map]
    exact List.prefix_append_right_inj _ |>.mpr
      (((List.take_prefix _ _).map _).map _)
  · intro hwhole
    have hsame := hbound.untouched hwhole
    rw [hsame] at hwhole ⊢
    simp only [Bool.or_eq_false_iff, Bool.not_eq_false', decide_eq_false_iff_not,
      Nat.not_lt] at hwhole
    obtain ⟨⟨htruncated, htexts⟩, hcount⟩ := hwhole
    rw [List.take_of_length_le hcount] at htexts ⊢
    rw [map_cut_of_within (List.all_eq_true.mp htexts), htexts, htruncated,
      decide_eq_false (Nat.not_lt.mpr hcount), withAll, htruncated]
    rfl

theorem withFeatures_of_within
    {features : List (Text × Except Text Text)} (h : Within (metadata.withAll features)) :
    metadata.withFeatures features = metadata.withAll features := by
  have hcount : features.length ≤ maxFrameMetadataItems := by
    have hfeatures := h.features
    simp only [withAll, List.length_append, List.length_map] at hfeatures
    omega
  have htexts : ∀ feature ∈ features.map asFeature, feature.within = true :=
    fun feature hmem => h.texts feature (List.mem_append_right _ hmem)
  have htaken : takeFeatures 0 metadata features = metadata.withAll features := by
    rw [takeFeatures_eq 0 metadata features (Nat.zero_le _), Nat.sub_zero,
      List.take_of_length_le hcount, map_cut_of_within htexts, List.all_eq_true.mpr htexts,
      decide_eq_false (Nat.not_lt.mpr hcount)]
    simp [withAll]
  rw [withFeatures, htaken, bound_of_within h]

end FrameMetadata

theorem decimal_eq (number : Nat) : decimal number = Nat.toDigits 10 number := Nat.toList_repr

theorem decimalValue_decimal (number : Nat) : decimalValue (decimal number) = number := by
  rw [decimal_eq]
  calc
    decimalValue (Nat.toDigits 10 number)
        = Nat.ofDigitChars 10 (Nat.toDigits 10 number) 0 := (Nat.ofDigitChars_eq_foldl).symm
    _ = number := Nat.ofDigitChars_ten_toDigits

theorem allDigits_decimal (number : Nat) : allDigits (decimal number) = true := by
  rw [decimal_eq, allDigits, decide_eq_true_eq, List.all_eq_true]
  exact ⟨Nat.toDigits_ne_nil, fun c hc => Nat.isDigit_of_mem_toDigits (by decide) le_rfl hc⟩

theorem length_decimal_le {number digits : Nat} (hpos : 0 < digits) (h : number < 10 ^ digits) :
    (decimal number).length ≤ digits := by
  rw [decimal_eq]
  exact (Nat.length_toDigits_le_iff (by decide) hpos).mpr h

theorem IsU64.decimalU64 (h : IsU64 text) : decimalU64 text = true := by
  obtain ⟨number, hlt, rfl⟩ := h
  rw [Service.decimalU64, decide_eq_true_eq, decimalValue_decimal]
  exact ⟨allDigits_decimal number, hlt⟩

theorem IsU64.length_le {text : Text} (h : IsU64 text) : text.length ≤ 20 := by
  obtain ⟨number, hlt, rfl⟩ := h
  exact length_decimal_le (by decide) (by omega)

theorem IsI128.signedNs (h : IsI128 text) : signedNs text = true := by
  obtain ⟨number, hlow, hhigh, rfl⟩ := h
  unfold decimalNs
  split
  · rw [Service.signedNs, decide_eq_true_eq, decimalValue_decimal]
    exact ⟨allDigits_decimal _, by omega⟩
  · have hdigits := allDigits_decimal number.natAbs
    have hvalue := decimalValue_decimal number.natAbs
    unfold Service.signedNs
    split
    · rename_i digits hminus
      rw [hminus] at hdigits
      simp [allDigits] at hdigits
    · rw [decide_eq_true_eq, hvalue]
      exact ⟨hdigits, by omega⟩

theorem IsI128.length_le {text : Text} (h : IsI128 text) : text.length ≤ 40 := by
  obtain ⟨number, hlow, hhigh, rfl⟩ := h
  have hdigits : (decimal number.natAbs).length ≤ 39 := length_decimal_le (by decide) (by omega)
  unfold decimalNs
  split
  · rw [List.length_cons]
    omega
  · omega

namespace FrameMetadata

theorem validate_of_wellFormed (hformed : WellFormed metadata)
    (hwithin : Within metadata) : metadata.validate = .ok () := by
  have hchunk : ∀ chunk ∈ metadata.chunks, chunk.valid = true := by
    intro chunk hmem
    obtain ⟨hid, hbytes⟩ := hformed.chunks chunk hmem
    rw [FrameChunk.valid, Bool.and_eq_true, decide_eq_true_eq]
    exact ⟨hid.decimalU64, by omega⟩
  have hfeature : ∀ feature ∈ metadata.features, feature.valid = true := by
    intro feature hmem
    have htexts := hwithin.texts feature hmem
    rw [FrameFeature.within] at htexts
    rw [FrameFeature.valid, htexts, Bool.true_and, bne_iff_ne]
    exact hformed.features feature hmem
  have htsDev : metadata.tsDev.any (fun text => !decimalU64 text) = false := by
    cases htext : metadata.tsDev with
    | none => rfl
    | some text =>
      have hdecimal := (hformed.tsDev text (by rw [htext]; rfl)).decimalU64
      simp [hdecimal]
  have htsHostNs : metadata.tsHostNs.any (fun text => !signedNs text) = false := by
    cases htext : metadata.tsHostNs with
    | none => rfl
    | some text =>
      have hsigned := (hformed.tsHostNs text (by rw [htext]; rfl)).signedNs
      simp [hsigned]
  have herror : metadata.chunkError.any (fun text => !textOk text) = false := by
    have hall := hwithin.chunkError
    cases htext : metadata.chunkError with
    | none => rfl
    | some text =>
      rw [htext] at hall
      simpa using hall
  unfold validate
  rw [if_neg, if_neg]
  · simp only [not_or, Nat.not_lt]
    refine ⟨hwithin.chunks, hwithin.features, by simp [herror], ?_, ?_⟩
    · simp only [List.any_eq_true, not_exists, not_and]
      intro chunk hmem
      simp [hchunk chunk hmem]
    · simp only [List.any_eq_true, not_exists, not_and]
      intro feature hmem
      simp [hfeature feature hmem]
  · simp [hformed.blockId.decimalU64, htsDev, htsHostNs]

end FrameMetadata

theorem KeptOf.wellFormed {kept : FrameMetadata} (h : KeptOf given kept)
    (hformed : WellFormed given) : WellFormed kept := by
  refine ⟨h.blockId ▸ hformed.blockId, h.tsDev ▸ hformed.tsDev, h.tsHostNs ▸ hformed.tsHostNs,
    fun chunk hmem => hformed.chunks chunk (h.chunks.subset hmem), ?_⟩
  intro feature hmem
  obtain ⟨whole, hwhole, rfl⟩ := List.mem_map.mp (h.features.subset hmem)
  simpa [FrameFeature.cut] using hformed.features whole hwhole

theorem WellFormed.withAll (h : WellFormed metadata)
    (features : List (Text × Except Text Text)) : WellFormed (metadata.withAll features) := by
  refine ⟨h.blockId, h.tsDev, h.tsHostNs, h.chunks, ?_⟩
  intro feature hmem
  rcases List.mem_append.mp hmem with hmem | hmem
  · exact h.features feature hmem
  · obtain ⟨⟨name, value⟩, -, rfl⟩ := List.mem_map.mp hmem
    cases value <;> simp [asFeature]

def FrameMetadata.fixed (metadata : FrameMetadata) (truncated : Bool) : FrameMetadata :=
  { metadata with chunks := [], features := [], truncated := truncated }

theorem length_stringText_le {escape : Char → List UInt8} (h : ∀ c, (escape c).length ≤ 6)
    (text : Text) : (stringText escape text).length ≤ 6 * text.length + 2 := by
  have hflat : (text.flatMap escape).length ≤ 6 * text.length := by
    induction text with
    | nil => exact Nat.zero_le _
    | cons c rest ih =>
      have hc := h c
      rw [List.flatMap_cons, List.length_append, List.length_cons]
      omega
  simp only [stringText, List.length_cons, List.length_append, List.length_nil]
  omega

theorem length_optionText_le {escape : Char → List UInt8} (h : ∀ c, (escape c).length ≤ 6)
    {text : Option Text} {limit : Nat} (hlimit : ∀ whole ∈ text, whole.length ≤ limit) :
    (optionText escape text).length ≤ 6 * limit + 4 := by
  cases text with
  | none =>
    rw [optionText, nullText]
    exact Nat.le_add_left _ _
  | some text =>
    have hstring := length_stringText_le h text
    have htext := hlimit text rfl
    rw [optionText]
    omega

theorem length_memberText_le (name : Text) (value : List UInt8) :
    (memberText name value).length ≤ 4 * name.length + value.length + 3 := by
  have hname : (Library.Utf8.encode name).length ≤ 4 * name.length := by
    induction name with
    | nil => exact Nat.zero_le _
    | cons c rest ih =>
      have hc : (String.utf8EncodeChar c).length ≤ 4 := by
        rw [String.length_utf8EncodeChar]
        exact Char.utf8Size_le_four c
      rw [Library.Utf8.encode_cons, List.length_append, List.length_cons]
      omega
  simp only [memberText, List.length_cons, List.length_append, List.length_nil]
  omega

theorem length_joined_le (parts : List (List UInt8)) :
    (joined parts).length ≤ (parts.map fun part => part.length + 1).sum := by
  induction parts with
  | nil => exact Nat.zero_le _
  | cons part rest ih =>
    cases rest with
    | nil => simp [joined, List.intercalate]
    | cons next rest =>
      have hjoined : joined (part :: next :: rest) = part ++ 44 :: joined (next :: rest) := by
        simp [joined, List.intercalate]
      rw [hjoined, List.map_cons, List.sum_cons, List.length_append, List.length_cons]
      omega

theorem length_fixed_le {escape : Char → List UInt8} (h : ∀ c, (escape c).length ≤ 6)
    (hformed : WellFormed metadata)
    (herror : metadata.chunkError.all textOk = true) (truncated : Bool) :
    ((metadata.fixed truncated).toText escape).length ≤ maxFrameMetadataBytes := by
  have hid := length_stringText_le h metadata.blockId
  have hidLength := hformed.blockId.length_le
  have hdev := length_optionText_le h fun text hmem => (hformed.tsDev text hmem).length_le
  have hhost := length_optionText_le h fun text hmem => (hformed.tsHostNs text hmem).length_le
  have hchunkError : (optionText escape metadata.chunkError).length ≤
      6 * maxFrameMetadataText + 4 := by
    refine length_optionText_le h fun text hmem => ?_
    rw [Option.mem_def.mp hmem] at herror
    simpa [textOk] using herror
  have hbool : ∀ value : Bool, (boolText value).length ≤ 5 := by decide
  have hcomplete := hbool metadata.complete
  have htruncated := hbool truncated
  have hjoined := length_joined_le [
    memberText ['b', 'l', 'o', 'c', 'k', '_', 'i', 'd'] (stringText escape metadata.blockId),
    memberText ['t', 's', '_', 'd', 'e', 'v'] (optionText escape metadata.tsDev),
    memberText ['t', 's', '_', 'h', 'o', 's', 't', '_', 'n', 's']
      (optionText escape metadata.tsHostNs),
    memberText ['c', 'o', 'm', 'p', 'l', 'e', 't', 'e'] (boolText metadata.complete),
    memberText ['c', 'h', 'u', 'n', 'k', 's'] (arrayText []),
    memberText ['f', 'e', 'a', 't', 'u', 'r', 'e', 's'] (arrayText []),
    memberText ['c', 'h', 'u', 'n', 'k', '_', 'e', 'r', 'r', 'o', 'r']
      (optionText escape metadata.chunkError),
    memberText ['t', 'r', 'u', 'n', 'c', 'a', 't', 'e', 'd'] (boolText truncated)]
  have hmember := length_memberText_le
  simp only [List.map_cons, List.map_nil, List.sum_cons, List.sum_nil] at hjoined
  have hm1 := hmember ['b', 'l', 'o', 'c', 'k', '_', 'i', 'd'] (stringText escape metadata.blockId)
  have hm2 := hmember ['t', 's', '_', 'd', 'e', 'v'] (optionText escape metadata.tsDev)
  have hm3 := hmember ['t', 's', '_', 'h', 'o', 's', 't', '_', 'n', 's']
    (optionText escape metadata.tsHostNs)
  have hm4 := hmember ['c', 'o', 'm', 'p', 'l', 'e', 't', 'e'] (boolText metadata.complete)
  have hm5 := hmember ['c', 'h', 'u', 'n', 'k', 's'] (arrayText [])
  have hm6 := hmember ['f', 'e', 'a', 't', 'u', 'r', 'e', 's'] (arrayText [])
  have hm7 := hmember ['c', 'h', 'u', 'n', 'k', '_', 'e', 'r', 'r', 'o', 'r']
    (optionText escape metadata.chunkError)
  have hm8 := hmember ['t', 'r', 'u', 'n', 'c', 'a', 't', 'e', 'd'] (boolText truncated)
  have harray : (arrayText []).length = 2 := by decide
  have hbytes : maxFrameMetadataBytes = 65536 := by decide
  have htext : maxFrameMetadataText = 1024 := rfl
  simp only [List.length_cons, List.length_nil] at hm1 hm2 hm3 hm4 hm5 hm6 hm7 hm8
  simp only [FrameMetadata.toText, FrameMetadata.fixed, objectText, List.map_nil,
    List.length_append, List.length_cons, List.length_nil]
  omega

namespace FrameMetadata

theorem keptOf_self (h : Within metadata) : KeptOf metadata metadata :=
  ⟨rfl, rfl, rfl, rfl, List.prefix_rfl, by rw [map_cut_of_within h.texts],
    (map_cutText_of_all h.chunkError).symm, fun _ => rfl⟩

theorem keptOf_take (h : Within metadata) (chunks features : Nat) :
    KeptOf metadata { metadata with
      chunks := metadata.chunks.take chunks
      features := metadata.features.take features
      truncated := true } := by
  refine ⟨rfl, rfl, rfl, rfl, List.take_prefix _ _, ?_, (map_cutText_of_all h.chunkError).symm,
    fun hwhole => by cases hwhole⟩
  rw [map_cut_of_within h.texts]
  exact List.take_prefix _ _

theorem within_take (h : Within metadata) (chunks features : Nat) :
    Within { metadata with
      chunks := metadata.chunks.take chunks
      features := metadata.features.take features
      truncated := true } :=
  ⟨(List.length_take_le' _ _).trans h.chunks, (List.length_take_le' _ _).trans h.features,
    h.chunkError, fun feature hmem => h.texts feature (List.mem_of_mem_take hmem)⟩

theorem fit_delivers (json : Json) {value : FrameMetadata} (hwithin : Within value)
    (hfixed : ∀ truncated, (json.toVec (value.fixed truncated)).length ≤ maxFrameMetadataBytes) :
    ∃ kept bytes, fit json value = .ok (kept, bytes) ∧ KeptOf value kept := by
  induction hsize : value.features.length + value.chunks.length using Nat.strong_induction_on
    generalizing value with
  | _ size ih =>
    rw [fit]
    split
    · exact ⟨value, _, rfl, keptOf_self hwithin⟩
    · rename_i hlong
      split
      · rename_i hsome
        have hpos : 0 < value.features.length := List.length_pos_of_ne_nil hsome
        have hchunks : value.chunks = value.chunks.take value.chunks.length :=
          (List.take_length).symm
        have hkept := keptOf_take hwithin value.chunks.length (value.features.length / 2)
        have hsmaller := within_take hwithin value.chunks.length (value.features.length / 2)
        rw [← hchunks] at hkept hsmaller
        obtain ⟨kept, bytes, hfit, hpart⟩ := ih _ (by simp only [List.length_take]; omega)
          hsmaller hfixed rfl
        exact ⟨kept, bytes, hfit, hkept.trans hpart⟩
      · rename_i hnone
        split
        · rename_i hsome
          have hpos : 0 < value.chunks.length := List.length_pos_of_ne_nil hsome
          have hfeatures : value.features = value.features.take value.features.length :=
            (List.take_length).symm
          have hkept := keptOf_take hwithin (value.chunks.length / 2) value.features.length
          have hsmaller := within_take hwithin (value.chunks.length / 2) value.features.length
          rw [← hfeatures] at hkept hsmaller
          obtain ⟨kept, bytes, hfit, hpart⟩ := ih _ (by simp only [List.length_take]; omega)
            hsmaller hfixed rfl
          exact ⟨kept, bytes, hfit, hkept.trans hpart⟩
        · rename_i hempty
          have hvalue : value.fixed value.truncated = value := by
            rw [fixed, ← not_not.mp hempty, ← not_not.mp hnone]
          exact absurd (hvalue ▸ hfixed value.truncated) hlong

end FrameMetadata

variable {json : Json}

theorem delivered {escape : Char → List UInt8} (hjson : WritesCompact json escape)
    {encoded : FrameMetadata} (hformed : WellFormed encoded) (hkept : KeptOf given encoded)
    (hwhole : Within given → encoded = given) (hreads : encoded.ReadsBack json) :
    Delivered json given encoded := by
  have hbound := FrameMetadata.keptOf_bound encoded
  have hwithin := FrameMetadata.within_bound encoded
  have hvalid := FrameMetadata.validate_of_wellFormed (hbound.wellFormed hformed) hwithin
  have hfixed : ∀ truncated,
      (json.toVec (encoded.bound.fixed truncated)).length ≤ maxFrameMetadataBytes := by
    intro truncated
    rw [hjson.written]
    exact length_fixed_le hjson.short (hbound.wellFormed hformed) hwithin.chunkError truncated
  obtain ⟨kept, bytes, hfit, hpart⟩ := FrameMetadata.fit_delivers json hwithin hfixed
  have hencode : encoded.encodeKept json = .ok (kept, bytes) := by
    rw [FrameMetadata.encodeKept, hvalid]
    exact hfit
  obtain ⟨hkeptValid, -, hshort⟩ := FrameMetadata.encodeKept_spec json hencode
  refine ⟨bytes, kept, ?_, hshort, ?_, hkept.trans (hbound.trans hpart), ?_⟩
  · rw [FrameMetadata.encode, hencode]
    rfl
  · rw [FrameMetadata.decode, if_neg (Nat.not_lt.mpr hshort), hreads kept bytes hencode]
    dsimp only
    rw [hkeptValid]
  · intro hgiven hfits
    have hsame := hwhole hgiven
    rw [hsame, FrameMetadata.bound_of_within hgiven, FrameMetadata.fit, if_pos hfits] at hfit
    cases hfit
    rfl

/-- Frame metadata never suppresses its image: encoding ends with at most 64 KiB that
decode again, to a part of what was given, whole if it is small enough and marked as
truncated otherwise. -/
theorem metadata_is_delivered {escape : Char → List UInt8}
    (hjson : WritesCompact json escape) (hformed : WellFormed metadata)
    (features : List (Text × Except Text Text)) (hreads : metadata.ReadsBack json)
    (hfeatured : (metadata.withFeatures features).ReadsBack json) :
    Delivered json metadata metadata ∧
      Delivered json (metadata.withAll features) (metadata.withFeatures features) := by
  have hkept := FrameMetadata.keptOf_withFeatures metadata features
  constructor
  · have hbound := FrameMetadata.keptOf_bound metadata
    have hpart : FrameMetadata.encodeKept json metadata.bound =
        FrameMetadata.encodeKept json metadata := by
      rw [FrameMetadata.encodeKept, FrameMetadata.encodeKept,
        FrameMetadata.bound_of_within (FrameMetadata.within_bound metadata)]
    obtain ⟨bytes, kept, hencode, hrest⟩ := delivered hjson (hbound.wellFormed hformed) hbound
      FrameMetadata.bound_of_within fun kept bytes hencode => hreads kept bytes (hpart ▸ hencode)
    refine ⟨bytes, kept, ?_, hrest⟩
    rw [FrameMetadata.encode, ← hpart]
    exact hencode
  · exact delivered hjson (hkept.wellFormed (hformed.withAll features)) hkept
      FrameMetadata.withFeatures_of_within hfeatured

/-- How `serde_json` escapes a character. -/
def serdeEscape (c : Char) : List UInt8 :=
  if c = '"' then [92, 34]
  else if c.toNat = 92 then [92, 92]
  else if c.toNat = 8 then [92, 98]
  else if c.toNat = 9 then [92, 116]
  else if c.toNat = 10 then [92, 110]
  else if c.toNat = 12 then [92, 102]
  else if c.toNat = 13 then [92, 114]
  else if c.toNat < 32 then
    [92, 117, 48, 48] ++ Library.Utf8.encode
      [Nat.digitChar (c.toNat / 16), Nat.digitChar (c.toNat % 16)]
  else String.utf8EncodeChar c

def sampleMetadata : FrameMetadata where
  blockId := ['7']
  tsDev := some ['4', '2']
  tsHostNs := some ['-', '1']
  complete := true
  chunks := [⟨['1'], 8⟩]
  features := []
  chunkError := none
  truncated := false

def sampleFeatures : List (Text × Except Text Text) :=
  [(['G'], .ok ['1']), (['T'], .error ['"'])]

/-- A serializer, and a reader of the two texts it writes of the sample. -/
def sampleJson : Json where
  toVec := FrameMetadata.toText serdeEscape
  fromSlice bytes :=
    if bytes = sampleMetadata.toText serdeEscape then .ok sampleMetadata
    else if bytes = (sampleMetadata.withAll sampleFeatures).toText serdeEscape then
      .ok (sampleMetadata.withAll sampleFeatures)
    else .error ['?']

theorem length_serdeEscape_le (c : Char) : (serdeEscape c).length ≤ 6 := by
  have hdigit : ∀ n < 16, (String.utf8EncodeChar (Nat.digitChar n)).length = 1 := by decide
  unfold serdeEscape
  repeat' split
  all_goals first
    | decide
    | skip
  · rename_i hcontrol
    simp [Library.Utf8.encode, hdigit (c.toNat / 16) (by omega),
      hdigit (c.toNat % 16) (by omega)]
  · rw [String.length_utf8EncodeChar]
    exact (Char.utf8Size_le_four c).trans (by decide)

theorem readsBack_of_fits (hwithin : Within metadata)
    (hfits : (json.toVec metadata).length ≤ maxFrameMetadataBytes)
    (hreads : json.fromSlice (json.toVec metadata) = .ok metadata) :
    metadata.ReadsBack json := by
  intro kept bytes hencode
  rw [FrameMetadata.encodeKept, FrameMetadata.bound_of_within hwithin] at hencode
  split at hencode
  · cases hencode
  · rw [FrameMetadata.fit, if_pos hfits] at hencode
    cases hencode
    exact hreads

theorem wellFormed_sampleMetadata : WellFormed sampleMetadata := by
  refine ⟨⟨7, by decide, by decide⟩, ?_, ?_, ?_, ?_⟩
  · rintro text ⟨⟩
    exact ⟨42, by decide, by decide⟩
  · rintro text ⟨⟩
    exact ⟨-1, by decide, by decide, by decide⟩
  · intro chunk hmem
    rw [List.mem_singleton.mp hmem]
    exact ⟨⟨1, by decide, by decide⟩, by decide⟩
  · intro feature hmem
    cases hmem

theorem sample_metadata_is_delivered :
    Delivered sampleJson sampleMetadata sampleMetadata ∧
      Delivered sampleJson (sampleMetadata.withAll sampleFeatures)
        (sampleMetadata.withFeatures sampleFeatures) := by
  have hwithin : Within sampleMetadata := ⟨by decide, by decide, rfl, by decide⟩
  have hall : Within (sampleMetadata.withAll sampleFeatures) :=
    ⟨by decide, by decide, rfl, by decide⟩
  have hdistinct : (sampleMetadata.withAll sampleFeatures).toText serdeEscape ≠
      sampleMetadata.toText serdeEscape := by decide +kernel
  have hjson : WritesCompact sampleJson serdeEscape := ⟨length_serdeEscape_le, fun _ => rfl⟩
  refine metadata_is_delivered hjson wellFormed_sampleMetadata sampleFeatures
    (readsBack_of_fits hwithin (by decide +kernel) (by simp only [sampleJson, if_pos])) ?_
  rw [FrameMetadata.withFeatures_of_within hall]
  exact readsBack_of_fits hall (by decide +kernel)
    (by simp only [sampleJson, if_neg hdistinct, if_pos])

end VivaGenicam.Service
