import VivaGenicam.Service.Images
import VivaGenicam.Service.Envelope
import VivaGenicam.Pixel.Exact

/-!
What a remote viewer makes of a published image: the frame's own geometry, at
least its image bytes, and the same RGB pixels.
-/

namespace VivaGenicam.Service

open VivaGenicam.Pixel Library.Checked

/-- The geometry published is the frame's own: one run, or padded lines. -/
inductive Published (frame : Frame) : Option UInt32 → Option Nat → Prop
  | run (hstride : frame.rowStride = none) (hpadding : frame.paddingX = 0) :
    Published frame none (expectedPayloadLen frame.pixelFormat frame.width frame.height)
  | lines (stride : UInt32) (line : Nat) (hpos : stride ≠ 0)
    (hline : frame.pixelFormat.lineBytes frame.width = some line) (hle : line ≤ stride.toNat)
    (hstride : frame.rowStride = some stride.toNat) :
    Published frame (some stride) (some (stride.toNat * frame.height.toNat))

theorem imageGeometry_spec {frame : Frame} {rowStride : Option UInt32} {expected : Option Nat}
    (h : imageGeometry frame = some (rowStride, expected)) :
    Published frame rowStride expected := by
  have htail : (if frame.paddingX = 0 then
      some (none, expectedPayloadLen frame.pixelFormat frame.width frame.height)
    else do
      let line ← frame.pixelFormat.lineBytes frame.width
      let stride ← tryU32 (← add line frame.paddingX.toNat)
      let expected ← mul stride.toNat frame.height.toNat
      some (some stride, some expected)) = some (rowStride, expected) := by
    unfold imageGeometry at h
    cases hbpp : frame.pixelFormat.bytesPerPixel with
    | none =>
      rw [hbpp] at h
      exact h
    | some bpp =>
      rw [hbpp] at h
      simp only [Option.bind_eq_bind, Option.bind_eq_some_iff] at h
      obtain ⟨pixels, -, size, -, h⟩ := h
      exact h
  by_cases hpadding : frame.paddingX = 0
  · rw [if_pos hpadding] at htail
    cases htail
    exact .run (by rw [Frame.rowStride, if_pos hpadding]) hpadding
  · rw [if_neg hpadding] at htail
    simp only [Option.bind_eq_bind, Option.bind_eq_some_iff] at htail
    obtain ⟨size, hline, sum, hsum, stride, hstride, area, harea, heq⟩ := htail
    cases heq
    unfold add at hsum
    split at hsum
    · cases hsum
      unfold tryU32 at hstride
      split at hstride
      · rename_i hsmall
        cases hstride
        unfold mul at harea
        split at harea
        · cases harea
          have hstride : (UInt32.ofNat (size + frame.paddingX.toNat)).toNat =
              size + frame.paddingX.toNat :=
            UInt32.toNat_ofNat_of_lt' (by simpa [UInt32.size] using hsmall)
          have hpos : frame.paddingX.toNat ≠ 0 := fun hzero =>
            hpadding (UInt16.toNat_inj.mp (by rw [hzero]; rfl))
          refine .lines _ size ?_ hline (by omega) ?_
          · intro hzero
            have := congrArg UInt32.toNat hzero
            rw [hstride, UInt32.toNat_zero] at this
            omega
          · rw [Frame.rowStride, if_neg hpadding, hline, hstride]
            rfl
        · cases harea
      · cases hstride
    · cases hsum

theorem imageBytes_spec {payload bytes : List UInt8} {expected : Option Nat}
    (h : imageBytes payload expected = some bytes) :
    bytes <+: payload ∧ (expected = none → bytes = payload) ∧
      ∀ size, expected = some size → bytes = payload.take size ∧ size ≤ payload.length := by
  cases expected with
  | none =>
    cases h
    exact ⟨List.prefix_rfl, fun _ => rfl, by simp⟩
  | some size =>
    unfold imageBytes at h
    dsimp only at h
    split at h
    · cases h
    · rename_i hlong
      cases h
      refine ⟨List.take_prefix _ _, by simp, ?_⟩
      rintro _ ⟨⟩
      exact ⟨rfl, Nat.not_lt.mp hlong⟩

/-- The bytes of a frame's payload that are its image. -/
def Frame.image (frame : Frame) : List UInt8 :=
  match frame.rowStride with
  | none =>
    match frame.pixelFormat.imageBytes frame.width frame.height with
    | some size => frame.payload.take size
    | none => frame.payload
  | some stride =>
    match frame.pixelFormat.lineBytes frame.width with
    | some line =>
      frame.payload.take (if frame.height.toNat = 0 then 0
        else stride * (frame.height.toNat - 1) + line)
    | none => frame.payload

variable {format : PixelFormat} {width height : UInt32}

theorem expectedPayloadLen_eq {size : Nat}
    (h : expectedPayloadLen format width height = some size) :
    format.imageBytes width height = some size := by
  unfold expectedPayloadLen at h
  split at h
  · cases h
  · simp only [Option.bind_eq_bind, Option.bind_eq_some_iff] at h
    obtain ⟨bpp, -, h⟩ := h
    exact h

variable {l : Layout}

section Converting

variable {frame : Frame} {rowStride : Option UInt32} {expected : Option Nat}
  {bytes : List UInt8}

theorem image_prefix (hpublished : Published frame rowStride expected)
    (hbytes : imageBytes frame.payload expected = some bytes) :
    frame.image <+: bytes := by
  obtain ⟨hfront, hwhole, hcut⟩ := imageBytes_spec hbytes
  cases hpublished with
  | run hstride hpadding =>
    rw [Frame.image, hstride]
    dsimp only
    cases hexpected : expectedPayloadLen frame.pixelFormat frame.width frame.height with
    | none =>
      rw [hwhole hexpected]
      split
      · exact List.take_prefix _ _
      · exact List.prefix_rfl
    | some size =>
      rw [expectedPayloadLen_eq hexpected, (hcut size hexpected).1]
  | lines stride size hpos hline hle hstride =>
    obtain ⟨hbytes, -⟩ := hcut _ rfl
    rw [Frame.image, hstride, hbytes]
    dsimp only
    rw [hline]
    apply List.take_prefix_take_left
    split
    · rename_i hzero
      rw [hzero]
      exact Nat.zero_le _
    · rename_i hrows
      calc
        stride.toNat * (frame.height.toNat - 1) + size
            ≤ stride.toNat * (frame.height.toNat - 1) + stride.toNat := by omega
        _ = stride.toNat * frame.height.toNat := by
          rw [← Nat.mul_succ, Nat.succ_eq_add_one, Nat.sub_add_cancel (by omega)]

theorem imageEnd_le (hl : layout frame.pixelFormat = some l)
    (hpublished : Published frame rowStride expected)
    (hbytes : imageBytes frame.payload expected = some bytes) :
    bytes = frame.payload ∨ imageEnd l frame.width frame.height frame.rowStride ≤ bytes.length ∧
      bytes <+: frame.payload := by
  obtain ⟨hfront, hwhole, hcut⟩ := imageBytes_spec hbytes
  cases hpublished with
  | run hstride hpadding =>
    cases hexpected : expectedPayloadLen frame.pixelFormat frame.width frame.height with
    | none => exact Or.inl (hwhole hexpected)
    | some size =>
      obtain ⟨hbytes, hle⟩ := hcut size hexpected
      have himage := expectedPayloadLen_eq hexpected
      rw [imageBytes_eq hl] at himage
      split at himage
      · cases himage
        refine Or.inr ⟨?_, hfront⟩
        have hrun := (Layout.runBytes_le (layout_spec hl).2
          (frame.width.toNat * frame.height.toNat)).1
        rw [hstride, hbytes, List.length_take, Nat.min_eq_left hle]
        exact hrun
      · cases himage
  | lines stride size hpos hline hle hstride =>
    obtain ⟨hbytes, hlong⟩ := hcut _ rfl
    refine Or.inr ⟨?_, hfront⟩
    rw [lineBytes_eq hl] at hline
    cases hline
    rw [hstride, hbytes, List.length_take, Nat.min_eq_left hlong, imageEnd]
    split
    · exact Nat.zero_le _
    · rename_i hrows
      calc
        stride.toNat * (frame.height.toNat - 1) + l.completed frame.width.toNat
            ≤ stride.toNat * (frame.height.toNat - 1) + stride.toNat := by omega
        _ = stride.toNat * frame.height.toNat := by
          rw [← Nat.mul_succ, Nat.succ_eq_add_one, Nat.sub_add_cancel (by omega)]

/-- Both succeed with the same pixels, or neither succeeds. -/
def SamePixels (left right : Except Stop (List UInt8)) : Prop :=
  (∃ out, left = .ok out ∧ right = .ok out) ∨ ∃ stop other, left = .error stop ∧
    right = .error other

theorem SamePixels.of_eq {left right : Except Stop (List UInt8)} (h : left = right) :
    SamePixels left right := by
  subst h
  cases left with
  | error stop => exact Or.inr ⟨stop, stop, rfl, rfl⟩
  | ok out => exact Or.inl ⟨out, rfl, rfl⟩

theorem layout_bayer {offsets : Nat × Nat}
    (hoffsets : format.cfaPattern = some offsets) (hl : layout format = some l) :
    ∃ single, l = .bayer single offsets := by
  cases format <;> simp only [PixelFormat.cfaPattern, reduceCtorEq] at hoffsets
  all_goals
    cases hoffsets
    cases hl
    exact ⟨_, rfl⟩

theorem toRgb8_overflow (hmosaic : format.cfaPattern.isSome)
    (hover : 2 ^ 64 ≤ width.toNat * height.toNat * 3) (stride : Option Nat) (src : List UInt8) :
    ∃ stop, toRgb8 format width height stride src = .error stop := by
  cases hl : layout format with
  | none =>
    refine ⟨.error (.unsupported format), ?_⟩
    rw [toRgb8, Converter.rgb8Into, hl, error_bind]
  | some l =>
    obtain ⟨offsets, hoffsets⟩ := Option.isSome_iff_exists.mp hmosaic
    obtain ⟨single, rfl⟩ := layout_bayer hoffsets hl
    have hdemosaic : ∀ mosaic : List UInt8,
        demosaicBilinear mosaic width.toNat height.toNat offsets = .error .panic := by
      intro mosaic
      rw [demosaicBilinear, mul_eq (pixels_lt width height), orPanic_some, ok_bind,
        mul_eq_none hover]
      rfl
    rw [toRgb8, Converter.rgb8Into, hl]
    dsimp only
    cases rows format width height stride src with
    | error stop => exact ⟨stop, rfl⟩
    | ok found =>
      rw [ok_bind]
      cases Converter.new.mosaic8 single found with
      | error stop => exact ⟨stop, rfl⟩
      | ok mosaic =>
        rw [ok_bind, hdemosaic]
        exact ⟨.panic, rfl⟩

theorem toRgb8_published (hsmall : frame.payload.length < 2 ^ 63)
    (hpublished : Published frame rowStride expected)
    (hbytes : imageBytes frame.payload expected = some bytes) :
    SamePixels (toRgb8 frame.pixelFormat frame.width frame.height frame.rowStride bytes)
      frame.toRgb8 := by
  have hfront := (imageBytes_spec hbytes).1
  unfold Frame.toRgb8
  cases hl : layout frame.pixelFormat with
  | none =>
    apply SamePixels.of_eq
    rw [toRgb8, toRgb8, Converter.rgb8Into, Converter.rgb8Into, hl]
  | some l =>
    by_cases hfits : frame.pixelFormat.cfaPattern.isSome →
        frame.width.toNat * frame.height.toNat * 3 < 2 ^ 64
    · apply SamePixels.of_eq
      rcases imageEnd_le hl hpublished hbytes with hwhole | ⟨henough, hpayload⟩
      · rw [hwhole]
      · obtain ⟨tail, htail⟩ := hpayload
        have hconverts := (@toRgb8_follows _ _ _ _ frame.rowStride hl hfits).converts hl
        have hlength : bytes.length + tail.length = frame.payload.length := by
          rw [← htail, List.length_append]
        apply hconverts.beyond bytes frame.payload (by omega) hsmall henough (by omega)
        rw [← htail, List.take_append_of_le_length henough]
    · simp only [Classical.not_imp, Nat.not_lt] at hfits
      obtain ⟨stop, hstop⟩ := toRgb8_overflow hfits.1 hfits.2 frame.rowStride bytes
      obtain ⟨other, hother⟩ := toRgb8_overflow hfits.1 hfits.2 frame.rowStride frame.payload
      exact Or.inr ⟨stop, other, hstop, hother⟩

end Converting

theorem bytesPerPixel_group {bpp : Nat}
    (hl : layout format = some l) (hbpp : format.bytesPerPixel = some bpp) :
    ¬ l.Packed ∧ bpp * l.group.1 = l.group.2 := by
  cases format <;> simp only [layout, monoOrBayer, PixelFormat.cfaPattern, reduceCtorEq] at hl
  all_goals
    cases hl
    cases hbpp
  all_goals exact ⟨by first | exact id | exact fun h => h rfl, by decide⟩

theorem toRgb8_ok {src out : List UInt8} (h : toRgb8 format width height none src = .ok out) :
    ∃ l, layout format = some l ∧ ¬ TooLarge l width height none ∧
      imageEnd l width height none ≤ src.length := by
  cases hl : layout format with
  | none =>
    rw [toRgb8, Converter.rgb8Into, hl] at h
    cases h
  | some l =>
    have hverdict := rows_verdict hl width height none src
    have hlong : ¬ StrideShort l width none := by
      rintro ⟨stride, heq, -⟩
      cases heq
    refine ⟨l, rfl, ?_, ?_⟩
    · intro hlarge
      rw [toRgb8, rgb8Into_refused _ hl (hverdict.large hlong hlarge)] at h
      cases h
    · by_contra hshort
      by_cases hlarge : TooLarge l width height none
      · rw [toRgb8, rgb8Into_refused _ hl (hverdict.large hlong hlarge)] at h
        cases h
      · rw [toRgb8, rgb8Into_refused _ hl
          (hverdict.payload hlong hlarge (Nat.lt_of_not_le hshort))] at h
        cases h

theorem convertible_published {frame : Frame} (hpadding : frame.paddingX = 0)
    {out : List UInt8} (h : frame.toRgb8 = .ok out) :
    ∃ expected bytes, imageGeometry frame = some (none, expected) ∧
      imageBytes frame.payload expected = some bytes := by
  have hstride : frame.rowStride = none := by rw [Frame.rowStride, if_pos hpadding]
  rw [Frame.toRgb8, hstride] at h
  obtain ⟨l, hl, hfits, henough⟩ := toRgb8_ok h
  simp only [TooLarge, not_or, not_le] at hfits
  have hgeometry : imageGeometry frame =
      some (none, expectedPayloadLen frame.pixelFormat frame.width frame.height) := by
    unfold imageGeometry
    cases hbpp : frame.pixelFormat.bytesPerPixel with
    | none => exact if_pos hpadding
    | some bpp =>
      obtain ⟨-, hgroup⟩ := bytesPerPixel_group hl hbpp
      have hcompleted : frame.width.toNat * frame.height.toNat * bpp ≤
          l.completed (frame.width.toNat * frame.height.toNat) := by
        have hpos := l.group_pos.1
        set pixels := frame.width.toNat * frame.height.toNat
        have hwhole : pixels ≤ (pixels + l.group.1 - 1) / l.group.1 * l.group.1 := by
          have hmod := Nat.mod_lt (pixels + l.group.1 - 1) hpos
          have hdiv := Nat.div_add_mod (pixels + l.group.1 - 1) l.group.1
          rw [Nat.mul_comm] at hdiv
          omega
        calc
          pixels * bpp ≤ (pixels + l.group.1 - 1) / l.group.1 * l.group.1 * bpp :=
            Nat.mul_le_mul_right _ hwhole
          _ = (pixels + l.group.1 - 1) / l.group.1 * l.group.2 := by
            rw [← hgroup, Nat.mul_assoc, Nat.mul_comm l.group.1]
      simp only [mul_eq (pixels_lt frame.width frame.height), Option.bind_eq_bind,
        Option.bind_some, mul_eq (hcompleted.trans_lt hfits.1)]
      exact if_pos hpadding
  cases hexpected : expectedPayloadLen frame.pixelFormat frame.width frame.height with
  | none =>
    rw [hexpected] at hgeometry
    exact ⟨none, frame.payload, hgeometry, rfl⟩
  | some size =>
    rw [hexpected] at hgeometry
    have hbpp : ∃ bpp, frame.pixelFormat.bytesPerPixel = some bpp := by
      unfold expectedPayloadLen at hexpected
      split at hexpected
      · cases hexpected
      · simp only [Option.bind_eq_bind, Option.bind_eq_some_iff] at hexpected
        obtain ⟨bpp, hbpp, -⟩ := hexpected
        exact ⟨bpp, hbpp⟩
    obtain ⟨bpp, hbpp⟩ := hbpp
    obtain ⟨hpacked, -⟩ := bytesPerPixel_group hl hbpp
    have hsize := expectedPayloadLen_eq hexpected
    rw [imageBytes_eq hl, if_pos hfits.1] at hsize
    cases hsize
    have hrun := (Layout.runBytes_le (layout_spec hl).2
      (frame.width.toNat * frame.height.toNat)).2 hpacked
    change l.runBytes (frame.width.toNat * frame.height.toNat) ≤ frame.payload.length at henough
    refine ⟨_, frame.payload.take (l.completed (frame.width.toNat * frame.height.toNat)),
      hgeometry, ?_⟩
    rw [imageBytes, if_neg (by omega)]

def publishedMetadata (frame : Frame) (metadata : Option FrameMetadata) : FrameMetadata :=
  metadata.getD frame.metadata

/-- A frame the envelope can carry: its format has a code, and its metadata can be
encoded and read back. -/
structure Carried (json : Json) (frame : Frame) (metadata : Option FrameMetadata) : Prop where
  code : pixelFormatToU8 frame.pixelFormat ≠ 0
  encodes : ∃ kept text, FrameMetadata.encodeKept json (publishedMetadata frame metadata) =
    .ok (kept, text) ∧ json.fromSlice (json.toVec kept) = .ok kept ∧ json.toVec kept ≠ []
  small : frame.payload.length < 2 ^ 63

/-- What a viewer decodes from the image published as number `index`. -/
structure Seen (json : Json) (frame : Frame) (index : Nat) (bytes : List UInt8)
    (header : FrameHeader) (payload : List UInt8) : Prop where
  decoded : FrameHeader.decode json bytes = some (.ok (header, payload))
  pixelFormat : header.pixelFormat = frame.pixelFormat
  width : header.width = frame.width
  height : header.height = frame.height
  rowStride : header.rowStride.map UInt32.toNat = frame.rowStride
  image : frame.image <+: payload
  pixels : SamePixels (toRgb8 header.pixelFormat header.width header.height
    (header.rowStride.map UInt32.toNat) payload) frame.toRgb8
  seq : header.seq.toNat = index % 2 ^ 32

theorem Published.stride {frame : Frame} {rowStride : Option UInt32} {expected : Option Nat}
    (h : Published frame rowStride expected) :
    rowStride.map UInt32.toNat = frame.rowStride ∧ rowStride ≠ some 0 := by
  cases h with
  | run hstride hpadding => exact ⟨hstride.symm, by simp⟩
  | lines stride line hpos hline hle hstride => exact ⟨hstride.symm, by simpa using hpos⟩

namespace BlockPublisher

theorem frameImage_spec (json : Json) (publisher : BlockPublisher) {frame : Frame}
    {metadata : Option FrameMetadata} (hcarried : Carried json frame metadata) {index : Nat}
    (hseq : publisher.imageSeq.toNat = index % 2 ^ 32) :
    (publisher.frameImage json frame metadata = (none, publisher) ∧
        ¬ (frame.paddingX = 0 ∧ ∃ out, frame.toRgb8 = .ok out)) ∨
      ∃ bytes after header payload,
        publisher.frameImage json frame metadata = (some (publisher.imageKey, bytes), after) ∧
        after.imageSeq.toNat = (index + 1) % 2 ^ 32 ∧
        Seen json frame index bytes header payload := by
  unfold frameImage
  cases hgeometry : imageGeometry frame with
  | none =>
    refine Or.inl ⟨rfl, ?_⟩
    rintro ⟨hpadding, out, hok⟩
    obtain ⟨expected, bytes, hsome, -⟩ := convertible_published hpadding hok
    rw [hgeometry] at hsome
    cases hsome
  | some geometry =>
    obtain ⟨rowStride, expected⟩ := geometry
    dsimp only
    cases hbytes : imageBytes frame.payload expected with
    | none =>
      refine Or.inl ⟨rfl, ?_⟩
      rintro ⟨hpadding, out, hok⟩
      obtain ⟨other, bytes, hsome, hother⟩ := convertible_published hpadding hok
      rw [hgeometry] at hsome
      cases hsome
      rw [hbytes] at hother
      cases hother
    | some bytes =>
      apply Or.inr
      dsimp only
      have hpublished := imageGeometry_spec hgeometry
      obtain ⟨hstride, hnonzero⟩ := hpublished.stride
      obtain ⟨kept, text, hkept, hround, hsome⟩ := hcarried.encodes
      set header : FrameHeader := ⟨frame.pixelFormat, frame.width, frame.height,
        publisher.imageSeq, rowStride, metadata.or (some frame.metadata)⟩ with hheader
      have hmetadata : header.metadata = some (publishedMetadata frame metadata) := by
        cases metadata <;> rfl
      have hkeptHeader : header.keptMetadata json = .ok (some kept, text) := by
        rw [FrameHeader.keptMetadata, hmetadata]
        dsimp only
        rw [hkept]
      obtain ⟨prefixBytes, hencode, hdecode⟩ :=
        (FrameHeader.envelope_exact json).1 header (some kept) text bytes hkeptHeader
          hcarried.code hnonzero (by rintro _ ⟨⟩; exact ⟨hround, hsome⟩)
      rw [hencode]
      have hsucc : (publisher.imageSeq + 1).toNat = (index + 1) % 2 ^ 32 := by
        rw [UInt32.toNat_add, hseq]
        simp
      refine ⟨prefixBytes ++ bytes, _, { header with metadata := some kept }, bytes, rfl, hsucc,
        hdecode, rfl, rfl, rfl, hstride, image_prefix hpublished hbytes, ?_, hseq⟩
      dsimp only
      rw [hstride]
      exact toRgb8_published hcarried.small hpublished hbytes

/-- An unpadded frame that can be converted to RGB. -/
def convertible (frame : Frame) : Bool :=
  frame.paddingX = 0 && frame.toRgb8.toOption.isSome

theorem convertible_iff {frame : Frame} :
    convertible frame = true ↔ frame.paddingX = 0 ∧ ∃ out, frame.toRgb8 = .ok out := by
  unfold convertible
  rw [Bool.and_eq_true, decide_eq_true_eq]
  cases frame.toRgb8 with
  | error stop => simp [Except.toOption]
  | ok out => simp [Except.toOption]

theorem frameImages_spec (json : Json) {frames : List (Frame × Option FrameMetadata)}
    (hcarried : ∀ entry ∈ frames, Carried json entry.1 entry.2) {publisher : BlockPublisher}
    {start : Nat} (hseq : publisher.imageSeq.toNat = start % 2 ^ 32) :
    (∀ index frame bytes,
      (publisher.frameImages json frames)[index]? = some (frame, bytes) →
        ∃ header payload, Seen json frame (start + index) bytes header payload) ∧
    ((publisher.frameImages json frames).map Prod.fst).Sublist (frames.map Prod.fst) ∧
    ((frames.map Prod.fst).filter convertible).Sublist
      ((publisher.frameImages json frames).map Prod.fst) := by
  induction frames generalizing publisher start with
  | nil =>
    refine ⟨?_, List.Sublist.refl _, List.Sublist.refl _⟩
    intro index frame bytes heq
    simp [frameImages] at heq
  | cons entry rest ih =>
    obtain ⟨frame, metadata⟩ := entry
    have hrest : ∀ entry ∈ rest, Carried json entry.1 entry.2 :=
      fun other hmem => hcarried other (by simp [hmem])
    rcases frameImage_spec json publisher (hcarried (frame, metadata) (by simp)) hseq with
      ⟨hdropped, hnot⟩ | ⟨bytes, after, header, payload, hpublished, hnext, hseen⟩
    · obtain ⟨hall, hsub, hfilter⟩ := ih hrest hseq
      have heq : publisher.frameImages json ((frame, metadata) :: rest) =
          publisher.frameImages json rest := by
        rw [frameImages, hdropped]
      rw [heq]
      refine ⟨hall, hsub.cons _, ?_⟩
      rw [List.map_cons, List.filter_cons_of_neg]
      · exact hfilter
      · rw [convertible_iff]
        exact hnot
    · obtain ⟨hall, hsub, hfilter⟩ := ih hrest hnext
      have heq : publisher.frameImages json ((frame, metadata) :: rest) =
          (frame, bytes) :: after.frameImages json rest := by
        rw [frameImages, hpublished]
      rw [heq, List.map_cons, List.map_cons]
      refine ⟨?_, hsub.cons_cons _, ?_⟩
      · intro index other found hindex
        cases index with
        | zero =>
          cases hindex
          exact ⟨header, payload, hseen⟩
        | succ index =>
          have := hall index other found hindex
          rwa [show start + 1 + index = start + (index + 1) by omega] at this
      · rw [List.filter_cons]
        split
        · exact hfilter.cons_cons _
        · exact hfilter.cons _

/-- A remote viewer sees the pixels the service received: what is published is
decoded to the frame's own geometry and pixels, numbered in order, and no
convertible unpadded frame is dropped. -/
theorem viewer_sees_pixels (json : Json) (imageKey : Text)
    (frames : List (Frame × Option FrameMetadata))
    (hcarried : ∀ entry ∈ frames, Carried json entry.1 entry.2) :
    (∀ index frame bytes,
      ((new imageKey).frameImages json frames)[index]? = some (frame, bytes) →
        ∃ header payload, Seen json frame index bytes header payload) ∧
    (((new imageKey).frameImages json frames).map Prod.fst).Sublist (frames.map Prod.fst) ∧
    ((frames.map Prod.fst).filter convertible).Sublist
      (((new imageKey).frameImages json frames).map Prod.fst) := by
  have hspec := @frameImages_spec json _ hcarried (new imageKey) 0 rfl
  simpa only [Nat.zero_add] using hspec

def plainFrame : Frame := ⟨[10, 20], 2, 1, .mono8, 0, 7, none, none, true, 1, none⟩

theorem viewer_sees_pixels_plain :
    ∃ bytes header payload, ((new []).frameImages FrameHeader.plainJson
        [(plainFrame, some FrameHeader.plainMetadata)])[0]? = some (plainFrame, bytes) ∧
      Seen FrameHeader.plainJson plainFrame 0 bytes header payload := by
  obtain ⟨hseen, hsub, hfilter⟩ := viewer_sees_pixels FrameHeader.plainJson []
    [(plainFrame, some FrameHeader.plainMetadata)] (by
      intro entry hmem
      rw [List.mem_singleton] at hmem
      subst hmem
      exact ⟨by decide, ⟨_, _, FrameHeader.plain_encodeKept, by simp [FrameHeader.plainJson],
        by decide⟩, by decide⟩)
  have hconvertible : convertible plainFrame = true := by decide
  rw [List.map_singleton, List.filter_cons_of_pos hconvertible] at hfilter
  have hmem : plainFrame ∈ ((new []).frameImages FrameHeader.plainJson
      [(plainFrame, some FrameHeader.plainMetadata)]).map Prod.fst :=
    hfilter.subset (by simp)
  have hlength := hsub.length_le
  obtain ⟨⟨frame, bytes⟩, hentry, hframe⟩ := List.mem_map.mp hmem
  obtain ⟨index, hlt, hindex⟩ := List.mem_iff_getElem.mp hentry
  dsimp only at hframe
  subst hframe
  rw [List.length_map, List.length_map, List.length_singleton] at hlength
  obtain rfl : index = 0 := by omega
  have hfirst := (List.getElem?_eq_getElem hlt).trans (congrArg some hindex)
  obtain ⟨header, payload, hone⟩ := hseen 0 plainFrame bytes hfirst
  exact ⟨bytes, header, payload, hfirst, hone⟩

end BlockPublisher

end VivaGenicam.Service
