import VivaGenicam.Pixel.Demosaic

/-!
The ways to convert a frame agree: grey is the samples narrowed, colour is the grey
repeated or the narrowed mosaic demosaiced, and full depth is the samples themselves.
-/

namespace VivaGenicam.Pixel

open Library.Checked

def Pixels.intoRgb : Pixels → Pixels
  | .gray8 gray => .rgb8 (triple gray)
  | .gray16 samples bits => .rgb16 (triple samples) bits
  | colour => colour

theorem narrow_toUInt16 (byte : UInt8) : narrow byte.toUInt16 8 = byte := by
  have hbyte := byte.toNat_lt
  have hshift : byte.toUInt16 >>> UInt16.ofNat (8 - 8) = byte.toUInt16 := by
    apply UInt16.toNat_inj.mp
    rw [UInt16.toNat_shiftRight]
    rfl
  rw [narrow, hshift]
  apply UInt8.toNat_inj.mp
  have hmin : min byte.toUInt16 0xFF = byte.toUInt16 := by
    refine if_pos ?_
    rw [UInt16.le_iff_toNat_le, UInt8.toNat_toUInt16]
    exact Nat.le_of_lt_succ hbyte
  rw [hmin, UInt16.toNat_toUInt8, UInt8.toNat_toUInt16, Nat.mod_eq_of_lt hbyte]

theorem map_narrow_toUInt16 {single : Single} (h8 : single.is8Bit = true) (bytes : List UInt8) :
    (bytes.map UInt8.toUInt16).map (fun v => narrow v single.bits) = bytes := by
  have hbits : single.bits = 8 := by simpa [Single.is8Bit] using h8
  rw [List.map_map, hbits]
  exact (List.map_congr_left fun byte _ => narrow_toUInt16 byte).trans (List.map_id bytes)

theorem triple_flatMap {β γ : Type} (items : List β) (found : β → List γ) :
    triple (items.flatMap found) = items.flatMap fun item => triple (found item) :=
  List.flatMap_assoc ..

section Rows

variable {format : PixelFormat} {l : Layout} {single : Single} {width height : UInt32}
  {rowStride : Option Nat} {src : List UInt8} {total : Nat} {found : Rows}

theorem rows_cases (hl : layout format = some l) (width height : UInt32) (rowStride : Option Nat)
    (hsmall : src.length < 2 ^ 63) :
    (∃ stop, rows format width height rowStride src = .error stop) ∨
      ∃ found, rows format width height rowStride src = .ok found ∧
        found.Sound l (width.toNat * height.toNat) := by
  have hverdict := rows_verdict hl width height rowStride src
  rcases Classical.em (StrideShort l width rowStride) with ⟨stride, hstride, hlt⟩ | hlong
  · exact .inl ⟨_, hverdict.short stride hstride hlt⟩
  · rcases Classical.em (TooLarge l width height rowStride) with hlarge | hfits
    · exact .inl ⟨_, hverdict.large hlong hlarge⟩
    · rcases Nat.lt_or_ge src.length (imageEnd l width height rowStride) with hshort | henough
      · exact .inl ⟨_, hverdict.payload hlong hfits hshort⟩
      · exact .inr ⟨_, hverdict.ok hlong hfits henough, rowsOf_sound hl hsmall hlong henough⟩

theorem eightBit_rows (hsingle : l.single = some single) (hvalid : l.Valid)
    (h8 : single.is8Bit = true) (hsound : found.Sound l total) :
    ∃ gray, gather8 found = .ok gray ∧
      unpackRows single found = .ok (gray.map UInt8.toUInt16) ∧
      appendEach (fun y => do .ok (triple (← orPanic (slice (← found.row y) 0 found.pixels))))
        (List.range found.count) = .ok (triple gray) := by
  obtain ⟨hunpacked, hrun⟩ := eight_bit hsingle hvalid h8
  have hpacking : single.packing = .unpacked := by
    by_contra hpacked
    exact absurd ((Layout.single_spec hsingle).2.1 hvalid |>.packed hpacked) (by
      have hbits : single.bits = 8 := by simpa [Single.is8Bit] using h8
      omega)
  have hholds := hsound.holds
  rw [hrun] at hholds
  have hrow : ∀ y ∈ List.range found.count, found.row y = .ok (found.line y) ∧
      orPanic (slice (found.line y) 0 found.pixels) = .ok ((found.line y).take found.pixels) := by
    intro y hmem
    obtain ⟨hrow, hlength⟩ := hsound.row (List.mem_range.mp hmem)
    exact ⟨hrow, slice_zero (by omega)⟩
  refine ⟨(List.range found.count).flatMap fun y => (found.line y).take found.pixels, ?_, ?_, ?_⟩
  · unfold gather8
    split
    · rename_i hcount
      have hproduct := hsound.product
      rw [hsound.total_eq, ok_bind, ← hproduct]
      rcases Nat.eq_zero_or_pos found.count with hzero | hpos
      · rw [hzero, Nat.mul_zero, slice_zero (Nat.zero_le _)]
        rfl
      · have hone : found.count = 1 := by omega
        have hinside := hsound.inside 0 hpos
        rw [Nat.zero_mul, Nat.zero_add] at hinside
        rw [hone, Nat.mul_one, slice_zero (by omega), List.range_one, List.flatMap_cons,
          List.flatMap_nil, List.append_nil, Rows.line, Nat.zero_mul, List.drop_zero,
          List.take_take, Nat.min_eq_left hholds]
    · exact appendEach_eq fun y hmem => by rw [(hrow y hmem).1, ok_bind, (hrow y hmem).2]
  · rw [unpackRows, hsound.total_eq, ok_bind, List.map_flatMap]
    refine appendEach_eq fun y hmem => ?_
    rw [(hrow y hmem).1, ok_bind, unpackAppend, hpacking]
    simp only [h8, if_true, (hrow y hmem).2, ok_bind]
  · rw [triple_flatMap]
    exact appendEach_eq fun y hmem => by rw [(hrow y hmem).1, ok_bind, (hrow y hmem).2, ok_bind]

theorem unpackRows_ok (hsingle : l.single = some single) (hvalid : l.Valid)
    (hsound : found.Sound l total) :
    ∃ samples, samples.length = total ∧ unpackRows single found = .ok samples := by
  obtain ⟨samples, hlength, hsamples, -⟩ :=
    unpackRows_spec hsingle hvalid hsound hsound ⟨rfl, rfl, fun _ _ => .inl rfl⟩
  exact ⟨samples, hlength, hsamples⟩

end Rows

section Paths

variable {format : PixelFormat} {single : Single} {offsets : Nat × Nat} {width height : UInt32}
  {rowStride : Option Nat} {src : List UInt8}

/-- The ways to convert a monochrome frame. -/
structure MonoPaths (single : Single) (format : PixelFormat) (width height : UInt32)
    (rowStride : Option Nat) (src : List UInt8) : Prop where
  gray : (Converter.new.gray8 format width height rowStride src).map Prod.fst =
    (unpackU16 format width height rowStride src).map fun samples =>
      samples.map fun v => narrow v single.bits
  colour : toRgb8 format width height rowStride src =
    ((Converter.new.gray8 format width height rowStride src).map Prod.fst).map triple
  depth : fullDepth format width height rowStride src =
    (unpackU16 format width height rowStride src).map fun samples =>
      if single.is8Bit then .gray8 (samples.map fun v => narrow v single.bits)
      else .gray16 samples single.bits
  bytes : single.is8Bit = true → ∀ samples,
    unpackU16 format width height rowStride src = .ok samples →
      (samples.map fun v => narrow v single.bits).map UInt8.toUInt16 = samples

theorem mono_paths (hl : layout format = some (.mono single)) (width height : UInt32)
    (rowStride : Option Nat) (hsmall : src.length < 2 ^ 63) :
    MonoPaths single format width height rowStride src := by
  have hvalid := (layout_spec hl).2
  have hunpack := @unpackU16_eq _ _ _ width height hl rfl rowStride src
  rcases rows_cases hl width height rowStride hsmall with ⟨stop, hstop⟩ | ⟨found, hfound, hsound⟩
  · have hgray : Converter.new.gray8 format width height rowStride src = .error stop := by
      simp only [Converter.gray8, hl, hstop, error_bind]
    rw [hstop, error_bind] at hunpack
    constructor
    · rw [hgray, hunpack]
      rfl
    · rw [toRgb8, rgb8Into_refused _ hl hstop, hgray]
      rfl
    · simp only [fullDepth, hl, hstop, hunpack, error_bind, Except.map]
    · intro _ samples hsamples
      rw [hunpack] at hsamples
      cases hsamples
  · rw [hfound, ok_bind] at hunpack
    cases h8 : single.is8Bit with
    | true =>
      obtain ⟨gray, hgather, hrows, htriple⟩ := eightBit_rows rfl hvalid h8 hsound
      have hnarrow := map_narrow_toUInt16 h8 gray
      rw [hrows] at hunpack
      have hgray : (Converter.new.gray8 format width height rowStride src).map Prod.fst =
          .ok gray := by
        simp only [Converter.gray8, hl, hfound, ok_bind, h8, if_true, hgather]
        rfl
      constructor
      · rw [hgray, hunpack, Except.map, hnarrow]
      · rw [hgray]
        simp only [toRgb8, Converter.rgb8Into, hl, hfound, ok_bind, h8, if_true, htriple, Except.map]
      · simp only [fullDepth, hl, hfound, ok_bind, h8, if_true, hgather, hunpack, Except.map,
          hnarrow]
      · intro _ samples hsamples
        rw [hunpack] at hsamples
        cases hsamples
        rw [hnarrow]
    | false =>
      obtain ⟨samples, -, hrows⟩ := unpackRows_ok (l := .mono single) rfl hvalid hsound
      rw [hrows] at hunpack
      have hgray : (Converter.new.gray8 format width height rowStride src).map Prod.fst =
          .ok (samples.map fun v => narrow v single.bits) := by
        simp only [Converter.gray8, hl, hfound, ok_bind, h8, Bool.false_eq_true, if_false, hrows]
        rfl
      constructor
      · rw [hgray, hunpack]
        rfl
      · rw [hgray]
        simp only [toRgb8, Converter.rgb8Into, hl, hfound, ok_bind, h8, Bool.false_eq_true, if_false,
          hrows, Except.map]
      · simp only [fullDepth, hl, hfound, ok_bind, h8, Bool.false_eq_true, if_false, hrows, hunpack,
          Except.map]
      · intro h
        exact absurd (h8.symm.trans h) (by simp)

/-- The ways to convert a Bayer frame. -/
structure BayerPaths (single : Single) (offsets : Nat × Nat) (format : PixelFormat)
    (width height : UInt32) (rowStride : Option Nat) (src : List UInt8) : Prop where
  colour : toRgb8 format width height rowStride src = (do
    let samples ← unpackU16 format width height rowStride src
    demosaicBilinear (samples.map fun v => narrow v single.bits) width.toNat height.toNat offsets)
  depth : fullDepth format width height rowStride src = (do
    let samples ← unpackU16 format width height rowStride src
    if single.is8Bit then
      (demosaicBilinear (samples.map fun v => narrow v single.bits) width.toNat height.toNat
        offsets).map Pixels.rgb8
    else
      (demosaicBilinear samples width.toNat height.toNat offsets).map fun image =>
        .rgb16 image single.bits)
  bytes : single.is8Bit = true → ∀ samples,
    unpackU16 format width height rowStride src = .ok samples →
      (demosaicBilinear (samples.map fun v => narrow v single.bits) width.toNat height.toNat
        offsets).map (List.map UInt8.toUInt16) =
      demosaicBilinear samples width.toNat height.toNat offsets

theorem demosaicBilinear_cases {α : Type} [Sample α] {mosaic : List α} {width height : Nat}
    (offsets : Nat × Nat) (hlength : mosaic.length = width * height) :
    (width * height * 3 < 2 ^ 64 ∧ demosaicBilinear mosaic width height offsets =
      .ok (demosaiced mosaic width height offsets)) ∨
    2 ^ 64 ≤ width * height * 3 ∧ demosaicBilinear mosaic width height offsets = .error .panic := by
  rcases Nat.lt_or_ge (width * height * 3) (2 ^ 64) with hfits | hlarge
  · exact .inl ⟨hfits, demosaicBilinear_eq offsets hlength hfits⟩
  · refine .inr ⟨hlarge, ?_⟩
    rcases Nat.lt_or_ge (width * height) (2 ^ 64) with hpixels | hpixels
    · rw [demosaicBilinear, mul_eq hpixels, orPanic_some, ok_bind, mul_eq_none hlarge]
      rfl
    · rw [demosaicBilinear, mul_eq_none hpixels]
      rfl

theorem demosaicBilinear_toUInt16 {bytes : List UInt8} {width height : Nat} (offsets : Nat × Nat)
    (hlength : bytes.length = width * height) :
    (demosaicBilinear bytes width height offsets).map (List.map UInt8.toUInt16) =
      demosaicBilinear (bytes.map UInt8.toUInt16) width height offsets := by
  have hwords : (bytes.map UInt8.toUInt16).length = width * height := by
    rw [List.length_map, hlength]
  rcases demosaicBilinear_cases offsets hlength with ⟨hfits, heq⟩ | ⟨hlarge, heq⟩
  · rw [heq, demosaicBilinear_eq offsets hwords hfits, Except.map,
      demosaiced_toUInt16 bytes width height offsets hlength]
  · rcases demosaicBilinear_cases offsets hwords with ⟨hfits, -⟩ | ⟨-, hpanic⟩
    · omega
    · rw [heq, hpanic]
      rfl

theorem bayer_paths (hl : layout format = some (.bayer single offsets)) (width height : UInt32)
    (rowStride : Option Nat) (hsmall : src.length < 2 ^ 63) :
    BayerPaths single offsets format width height rowStride src := by
  have hvalid := (layout_spec hl).2
  have hunpack := @unpackU16_eq _ _ _ width height hl rfl rowStride src
  rcases rows_cases hl width height rowStride hsmall with ⟨stop, hstop⟩ | ⟨found, hfound, hsound⟩
  · rw [hstop, error_bind] at hunpack
    constructor
    · rw [toRgb8, rgb8Into_refused _ hl hstop, hunpack]
      rfl
    · simp only [fullDepth, hl, hstop, hunpack, error_bind]
    · intro _ samples hsamples
      rw [hunpack] at hsamples
      cases hsamples
  · rw [hfound, ok_bind] at hunpack
    obtain ⟨samples, hlength, hrows⟩ := unpackRows_ok (l := .bayer single offsets) rfl hvalid hsound
    have hmosaic : ∃ after, Converter.new.mosaic8 single found =
        .ok (samples.map (fun v => narrow v single.bits), after) := by
      unfold Converter.mosaic8
      cases h8 : single.is8Bit with
      | true =>
        obtain ⟨gray, hgather, hgray, -⟩ :=
          eightBit_rows (l := .bayer single offsets) rfl hvalid h8 hsound
        rw [hrows] at hgray
        cases hgray
        rw [if_pos rfl, hgather, map_narrow_toUInt16 h8]
        exact ⟨_, rfl⟩
      | false =>
        rw [if_neg (by simp), hrows]
        exact ⟨_, rfl⟩
    obtain ⟨after, hmosaic⟩ := hmosaic
    rw [hrows] at hunpack
    have hcolour : toRgb8 format width height rowStride src =
        demosaicBilinear (samples.map fun v => narrow v single.bits) width.toNat height.toNat
          offsets := by
      simp only [toRgb8, Converter.rgb8Into, hl, hfound, ok_bind, hmosaic]
      cases demosaicBilinear (samples.map fun v => narrow v single.bits) width.toNat height.toNat
        offsets with
      | ok image => rfl
      | error stop => rfl
    constructor
    · rw [hcolour, hunpack, ok_bind]
    · rw [hunpack, ok_bind]
      cases h8 : single.is8Bit with
      | true =>
        simp only [fullDepth, hl, hfound, ok_bind, h8, if_true]
        rw [← hcolour, toRgb8]
        cases Converter.new.rgb8Into format width height rowStride src with
        | ok image => rfl
        | error stop => rfl
      | false =>
        simp only [fullDepth, hl, hfound, ok_bind, h8, Bool.false_eq_true, if_false, hrows]
        cases demosaicBilinear samples width.toNat height.toNat offsets with
        | ok image => rfl
        | error stop => rfl
    · intro h8 found' hfound'
      rw [hunpack] at hfound'
      cases hfound'
      obtain ⟨gray, -, hgray, -⟩ :=
        eightBit_rows (l := .bayer single offsets) rfl hvalid h8 hsound
      rw [hrows] at hgray
      cases hgray
      rw [map_narrow_toUInt16 h8]
      exact demosaicBilinear_toUInt16 offsets (by rw [← hlength, List.length_map])

def Layout.Bytes (l : Layout) : Prop := ∀ single, l.single = some single → single.is8Bit = true

theorem fullDepth_intoRgb {l : Layout} (hl : layout format = some l) (hbytes : l.Bytes)
    (hsmall : src.length < 2 ^ 63) :
    (fullDepth format width height rowStride src).map Pixels.intoRgb =
      (toRgb8 format width height rowStride src).map Pixels.rgb8 := by
  have hcolour : (do
      let result ← Converter.new.rgb8Into format width height rowStride src
      Except.ok (Pixels.rgb8 result.1)) =
        (toRgb8 format width height rowStride src).map Pixels.rgb8 := by
    rw [toRgb8]
    cases Converter.new.rgb8Into format width height rowStride src with
    | ok image => rfl
    | error stop => rfl
  have hinto : ∀ result : Except Stop (List UInt8),
      (result.map Pixels.rgb8).map Pixels.intoRgb = result.map Pixels.rgb8 := by
    intro result
    cases result with
    | ok image => rfl
    | error stop => rfl
  have hother : (fullDepth format width height rowStride src = (do
      let _ ← rows format width height rowStride src
      (toRgb8 format width height rowStride src).map Pixels.rgb8)) →
      (fullDepth format width height rowStride src).map Pixels.intoRgb =
        (toRgb8 format width height rowStride src).map Pixels.rgb8 := by
    intro hdepth
    rw [hdepth]
    cases hrows : rows format width height rowStride src with
    | ok found => exact hinto _
    | error stop =>
      rw [toRgb8, rgb8Into_refused _ hl hrows]
      rfl
  cases l with
  | mono single =>
    have h8 := hbytes single rfl
    have hpaths := mono_paths hl width height rowStride hsmall
    rw [hpaths.depth, hpaths.colour, hpaths.gray]
    cases unpackU16 format width height rowStride src with
    | ok samples => simp only [Except.map, h8, if_true, Pixels.intoRgb]
    | error stop => rfl
  | bayer single offsets =>
    apply hother
    simp only [fullDepth, hl, hbytes single rfl, if_true]
    exact bind_congr fun _ => hcolour
  | rgb order =>
    apply hother
    simp only [fullDepth, hl]
    exact bind_congr fun _ => hcolour
  | yuv order =>
    apply hother
    simp only [fullDepth, hl]
    exact bind_congr fun _ => hcolour

end Paths

end VivaGenicam.Pixel
