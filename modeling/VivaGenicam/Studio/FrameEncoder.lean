import VivaGenicam.Pixel.Agreement
import VivaGenicam.Studio.Bmp

/-!
The viewer's frames as BMP files. The encoder keeps its headers and the converter's
buffers from one frame to the next; what it returns for a frame shows the pixels the
library converts it to, whatever came before.
-/

namespace VivaGenicam.Pixel

def PixelFormat.isMono : PixelFormat → Bool
  | .mono8 | .mono10 | .mono12 | .mono14 | .mono16 | .mono10p | .mono12p | .mono10Packed
  | .mono12Packed => true
  | _ => false

end VivaGenicam.Pixel

namespace VivaGenicam.Studio

open Library.Checked Library.PaddedRows Pixel

inductive EncodeError where
  | convert (error : ConvertError)
  | bmp (error : BmpError)
deriving DecidableEq, Repr

/-- How an encode ends without a file. -/
inductive EncodeStop where
  | error (error : EncodeError)
  | panic
deriving DecidableEq, Repr

def EncodeStop.ofConvert : Stop → EncodeStop
  | .error failure => .error (.convert failure)
  | .panic => .panic

def EncodeStop.ofBmp : BmpStop → EncodeStop
  | .error failure => .error (.bmp failure)
  | .panic => .panic

structure FrameEncoder where
  size : UInt32 × UInt32
  gray : Option BmpEncoder
  rgb : Option BmpEncoder
  converter : Converter

namespace FrameEncoder

def new : FrameEncoder := ⟨(0, 0), none, none, .new⟩

/-- The encoder for frames of a size; those of another are dropped. -/
def resized (encoder : FrameEncoder) (width height : UInt32) : FrameEncoder :=
  if encoder.size ≠ (width, height) then
    { encoder with size := (width, height), gray := none, rgb := none }
  else encoder

/-- Encode one frame, and the encoder after. -/
def encode (encoder : FrameEncoder) (frame : Frame) :
    Except EncodeStop (List UInt8) × FrameEncoder :=
  let encoder := encoder.resized frame.width frame.height
  if frame.format.isMono then
    match encoder.converter.gray8InPlace frame.format frame.width frame.height frame.rowStride
        frame.src with
    | .error stop => (.error (.ofConvert stop), encoder)
    | .ok (gray, converter) =>
      match encoder.gray.or (BmpEncoder.new frame.width frame.height) with
      | none => (.error .panic, { encoder with converter := converter })
      | some bmp => ((bmp.encodeGray8 gray).mapError .ofBmp,
          { encoder with converter := converter, gray := some bmp })
  else
    match encoder.converter.rgb8InPlace frame.format frame.width frame.height frame.rowStride
        frame.src with
    | .error stop => (.error (.ofConvert stop), encoder)
    | .ok (rgb, converter) =>
      match encoder.rgb.or (BmpEncoder.newRgb24 frame.width frame.height) with
      | none => (.error .panic, { encoder with converter := converter })
      | some bmp => ((bmp.encodeRgb24 rgb).mapError .ofBmp,
          { encoder with converter := converter, rgb := some bmp })

/-- What one encoder returns for frame after frame. -/
def encodeAll : FrameEncoder → List Frame → List (Except EncodeStop (List UInt8))
  | _, [] => []
  | encoder, frame :: rest =>
    (encoder.encode frame).1 :: (encoder.encode frame).2.encodeAll rest

end FrameEncoder

/-- The headers kept are those of the size kept. -/
structure FrameEncoder.Kept (encoder : FrameEncoder) : Prop where
  gray : ∀ bmp, encoder.gray = some bmp →
    BmpEncoder.new encoder.size.1 encoder.size.2 = some bmp
  rgb : ∀ bmp, encoder.rgb = some bmp →
    BmpEncoder.newRgb24 encoder.size.1 encoder.size.2 = some bmp

def encoded (frame : Frame) : Except EncodeStop (List UInt8) :=
  if frame.format.isMono then
    match (Converter.new.gray8 frame.format frame.width frame.height frame.rowStride
        frame.src).map Prod.fst with
    | .error stop => .error (.ofConvert stop)
    | .ok gray =>
      match BmpEncoder.new frame.width frame.height with
      | none => .error .panic
      | some bmp => (bmp.encodeGray8 gray).mapError .ofBmp
  else
    match (Converter.new.rgb8 frame.format frame.width frame.height frame.rowStride
        frame.src).map Prod.fst with
    | .error stop => .error (.ofConvert stop)
    | .ok rgb =>
      match BmpEncoder.newRgb24 frame.width frame.height with
      | none => .error .panic
      | some bmp => (bmp.encodeRgb24 rgb).mapError .ofBmp

namespace FrameEncoder

variable {encoder : FrameEncoder}

theorem kept_new : new.Kept where
  gray _ h := (by cases h)
  rgb _ h := (by cases h)

theorem Kept.resized (h : encoder.Kept) (width height : UInt32) :
    (encoder.resized width height).Kept ∧
      (encoder.resized width height).size = (width, height) := by
  unfold FrameEncoder.resized
  split
  · exact ⟨⟨fun _ h => (by cases h), fun _ h => (by cases h)⟩, rfl⟩
  · rename_i hsame
    exact ⟨h, not_not.mp hsame⟩

theorem or_eq_of_kept {α : Type} {cached made : Option α}
    (h : ∀ value, cached = some value → made = some value) : cached.or made = made := by
  cases cached with
  | none => rfl
  | some value => exact (h value rfl).symm

theorem Kept.encode (h : encoder.Kept) (frame : Frame) :
    (encoder.encode frame).1 = encoded frame ∧ (encoder.encode frame).2.Kept := by
  obtain ⟨hkept, hsize⟩ := h.resized frame.width frame.height
  have hgray := or_eq_of_kept hkept.gray
  have hrgb := or_eq_of_kept hkept.rgb
  rw [hsize] at hgray hrgb
  unfold FrameEncoder.encode encoded
  dsimp only
  set sized := encoder.resized frame.width frame.height
  cases frame.format.isMono with
  | true =>
    rw [if_pos rfl, if_pos rfl, ← sized.converter.gray8InPlace_eq, hgray]
    cases sized.converter.gray8InPlace frame.format frame.width frame.height frame.rowStride
        frame.src with
    | error stop => exact ⟨rfl, hkept⟩
    | ok found =>
      cases hnew : BmpEncoder.new frame.width frame.height with
      | none => exact ⟨rfl, hkept.gray, hkept.rgb⟩
      | some bmp =>
        refine ⟨rfl, fun other hother => ?_, hkept.rgb⟩
        cases hother
        dsimp only
        rw [hsize, hnew]
  | false =>
    rw [if_neg (by simp), if_neg (by simp), ← sized.converter.rgb8InPlace_eq frame.src_small, hrgb]
    cases sized.converter.rgb8InPlace frame.format frame.width frame.height frame.rowStride
        frame.src with
    | error stop => exact ⟨rfl, hkept⟩
    | ok found =>
      cases hnew : BmpEncoder.newRgb24 frame.width frame.height with
      | none => exact ⟨rfl, hkept.gray, hkept.rgb⟩
      | some bmp =>
        refine ⟨rfl, hkept.gray, fun other hother => ?_⟩
        cases hother
        dsimp only
        rw [hsize, hnew]

theorem Kept.encodeAll (h : encoder.Kept) (frames : List Frame) :
    encoder.encodeAll frames = frames.map encoded := by
  induction frames generalizing encoder with
  | nil => rfl
  | cons frame rest ih =>
    obtain ⟨hfirst, hnext⟩ := h.encode frame
    rw [FrameEncoder.encodeAll, hfirst, ih hnext, List.map_cons]

end FrameEncoder

def bmpSize (frame : Frame) : Nat :=
  if frame.format.isMono then 1078 + (frame.width.toNat + 3) / 4 * 4 * frame.height.toNat
  else 54 + (frame.width.toNat * 3 + 3) / 4 * 4 * frame.height.toNat

/-- A frame of a size that a file can state. -/
structure Drawable (frame : Frame) : Prop where
  wide : 0 < frame.width.toNat
  tall : 0 < frame.height.toNat
  columns : frame.width.toNat < 2 ^ 31
  lines : frame.height.toNat < 2 ^ 31
  small : bmpSize frame < 2 ^ 32

def converted (frame : Frame) : Except Stop (List UInt8) :=
  toRgb8 frame.format frame.width frame.height frame.rowStride frame.src

/-- A result that draws a frame as the library converts it, or fails as it does. -/
structure Draws (frame : Frame) (result : Except EncodeStop (List UInt8)) : Prop where
  succeeds : (∃ bmp, result = .ok bmp) ↔ ∃ rgb, converted frame = .ok rgb
  refused : ∀ error, converted frame = .error (.error error) →
    result = .error (.error (.convert error))
  shows : ∀ bmp, result = .ok bmp → ∃ rgb, converted frame = .ok rgb ∧
    Shows bmp frame.width frame.height (if frame.format.isMono then 8 else 24)
      (if frame.format.isMono then 256 else 0) rgb

theorem layout_of_isMono {format : PixelFormat} (h : format.isMono = true) :
    ∃ single, layout format = some (.mono single) := by
  cases format <;> first | exact ⟨_, rfl⟩ | exact absurd h Bool.false_ne_true

theorem rgbAppend_rgb {pixels : Nat} {row : List UInt8} (h : pixels * 3 ≤ row.length) :
    rgbAppend .rgb pixels row = .ok (row.take (pixels * 3)) := by
  have hchunks : (chunksExact 3 row).take pixels = readRows row 3 3 pixels := by
    rw [chunksExact, readRows, ← List.map_take, List.take_range, Nat.min_eq_left (by omega)]
  have hstep : ∀ chunk ∈ readRows row 3 3 pixels,
      (do .ok [(← byteAt chunk 0), (← byteAt chunk 1), (← byteAt chunk 2)]) =
        Except.ok (ε := Stop) (id chunk) := by
    intro chunk hmem
    have hlength := length_of_mem_readRows hmem le_rfl h
    rcases chunk with _ | ⟨r, _ | ⟨g, _ | ⟨b, _ | ⟨more, rest⟩⟩⟩⟩
    · cases hlength
    · cases hlength
    · cases hlength
    · rfl
    · simp at hlength
  have happend := appendEach_eq hstep
  rw [← List.flatten_eq_flatMap, flatten_readRows] at happend
  rw [← happend, ← hchunks]
  rfl

theorem rgb8_eq_toRgb8 {format : PixelFormat} {width height : UInt32} {rowStride : Option Nat}
    {src : List UInt8} (hwide : 0 < width.toNat) (htall : 0 < height.toNat)
    (hsmall : src.length < 2 ^ 63) :
    (Converter.new.rgb8 format width height rowStride src).map Prod.fst =
      toRgb8 format width height rowStride src := by
  have hfill : ((do
      let result ← Converter.new.rgb8Into format width height rowStride src
      Except.ok (result.1, { result.2 with out := result.1 }) :
        Except Stop (List UInt8 × Converter))).map Prod.fst =
      toRgb8 format width height rowStride src := by
    rw [toRgb8]
    cases Converter.new.rgb8Into format width height rowStride src with
    | ok image => rfl
    | error stop => rfl
  unfold Converter.rgb8
  split
  · rename_i hformat
    have hl : layout format = some (.rgb .rgb) := by rw [hformat]; rfl
    rcases rows_cases hl width height rowStride hsmall with ⟨stop, hstop⟩ | ⟨found, hfound, hsound⟩
    · rw [hstop, toRgb8, rgb8Into_refused _ hl hstop]
      rfl
    · rw [hfound, ok_bind]
      split
      · rename_i hcount
        have hproduct := hsound.product
        have harea : 0 < width.toNat * height.toNat := Nat.mul_pos hwide htall
        have hone : found.count = 1 := by
          rcases Nat.eq_zero_or_pos found.count with hzero | hpos
          · rw [hzero, Nat.mul_zero] at hproduct
            omega
          · omega
        have hholds : (found.pixels + 1 - 1) / 1 * 3 ≤ found.bytes := hsound.holds
        rw [Nat.add_sub_cancel, Nat.div_one] at hholds
        obtain ⟨hrow, hlength⟩ := hsound.row (y := 0) (by omega)
        have hinside := hsound.inside 0 (by omega)
        have hsize := hsound.small
        have hline : (found.line 0).take (found.pixels * 3) = found.src.take (found.pixels * 3) := by
          rw [Rows.line, Nat.zero_mul, List.drop_zero, List.take_take, Nat.min_eq_left hholds]
        have hinto : Converter.new.rgb8Into format width height rowStride src =
            .ok (found.src.take (found.pixels * 3), Converter.new) := by
          simp only [Converter.rgb8Into, hl, hfound, ok_bind, hone, List.range_one, appendEach, hrow,
            rgbAppend_rgb (hlength ▸ hholds), hline, List.append_nil]
        rw [mul_eq (by omega), orPanic_some, ok_bind, slice_zero (by omega), toRgb8, hinto]
        rfl
      · exact hfill
  · exact hfill

theorem encoded_mono {frame : Frame} (hdrawable : Drawable frame)
    (hmono : frame.format.isMono = true) : Draws frame (encoded frame) := by
  obtain ⟨single, hl⟩ := layout_of_isMono hmono
  have hpaths := mono_paths hl frame.width frame.height frame.rowStride frame.src_small
  have hsmall := hdrawable.small
  rw [bmpSize, if_pos hmono] at hsmall
  obtain ⟨bmp, hnew, hshows⟩ := BmpEncoder.new_shows hdrawable.tall hdrawable.lines hsmall
  have htotal := @gray8_total frame.format frame.width frame.height frame.rowStride Converter.new
    frame.src frame.src_small
  have hconverted := hpaths.colour
  unfold encoded
  rw [if_pos hmono, hnew]
  dsimp only at htotal
  revert htotal hconverted
  generalize (Converter.new.gray8 frame.format frame.width frame.height frame.rowStride
    frame.src).map Prod.fst = gray
  intro htotal hconverted
  cases gray with
  | error stop =>
    refine ⟨⟨?_, ?_⟩, fun error h => ?_, fun _ h => ?_⟩
    · rintro ⟨_, h⟩
      cases h
    · rintro ⟨_, h⟩
      cases hconverted.symm.trans h
    · cases hconverted.symm.trans h
      rfl
    · cases h
  | ok pixels =>
    obtain ⟨file, hfile, hshown⟩ := hshows pixels (htotal.2 pixels rfl)
    dsimp only
    rw [hfile]
    refine ⟨⟨fun _ => ⟨_, hconverted⟩, fun _ => ⟨file, rfl⟩⟩, fun error h => ?_, fun _ h => ?_⟩
    · cases hconverted.symm.trans h
    · cases h
      rw [if_pos hmono, if_pos hmono]
      exact ⟨_, hconverted, hshown⟩

theorem encoded_colour {frame : Frame} (hdrawable : Drawable frame)
    (hmono : frame.format.isMono = false) : Draws frame (encoded frame) := by
  have hcolour : ¬ frame.format.isMono = true := by simp [hmono]
  have hsmall := hdrawable.small
  rw [bmpSize, if_neg hcolour] at hsmall
  obtain ⟨bmp, hnew, hshows⟩ := BmpEncoder.newRgb24_shows hdrawable.wide hdrawable.tall
    hdrawable.lines hsmall
  have hfits : frame.width.toNat * frame.height.toNat * 3 < 2 ^ 64 := by
    have hrow : frame.width.toNat * 3 * frame.height.toNat ≤
        (frame.width.toNat * 3 + 3) / 4 * 4 * frame.height.toNat :=
      Nat.mul_le_mul_right _ (by omega)
    rw [Nat.mul_right_comm]
    omega
  have hlength : ∀ rgb, converted frame = .ok rgb →
      rgb.length = frame.width.toNat * frame.height.toNat * 3 := by
    intro rgb hrgb
    cases hl : layout frame.format with
    | none => simp [converted, toRgb8, Converter.rgb8Into, hl] at hrgb
    | some l =>
      exact ((toRgb8_follows hl fun _ => hfits).total hl frame.src frame.src_small).2 rgb hrgb
  have hrgb := @rgb8_eq_toRgb8 frame.format frame.width frame.height frame.rowStride
    frame.src hdrawable.wide hdrawable.tall frame.src_small
  change _ = converted frame at hrgb
  unfold encoded
  rw [if_neg hcolour, hrgb, hnew]
  cases hconverted : converted frame with
  | error stop =>
    refine ⟨⟨?_, ?_⟩, fun error h => ?_, fun _ h => ?_⟩
    · rintro ⟨_, h⟩
      cases h
    · rintro ⟨_, h⟩
      cases hconverted.symm.trans h
    · cases hconverted.symm.trans h
      rfl
    · cases h
  | ok rgb =>
    obtain ⟨file, hfile, hshown⟩ := hshows rgb (hlength rgb hconverted)
    dsimp only
    rw [hfile]
    refine ⟨⟨fun _ => ⟨_, hconverted⟩, fun _ => ⟨file, rfl⟩⟩, fun error h => ?_, fun _ h => ?_⟩
    · cases hconverted.symm.trans h
    · cases h
      rw [if_neg hcolour, if_neg hcolour]
      exact ⟨_, hconverted, hshown⟩

/-- Whatever frames one encoder is given, it draws each as the library converts it, and
as a new encoder would. -/
theorem viewer_draws_the_conversion (frames : List Frame)
    (hdrawable : ∀ frame ∈ frames, Drawable frame) :
    List.Forall₂ (fun frame result => Draws frame result ∧
        result = (FrameEncoder.new.encode frame).1)
      frames (FrameEncoder.new.encodeAll frames) := by
  rw [FrameEncoder.kept_new.encodeAll, List.forall₂_map_right_iff, List.forall₂_same]
  intro frame hmem
  refine ⟨?_, (FrameEncoder.kept_new.encode frame).1.symm⟩
  cases hmono : frame.format.isMono with
  | true => exact encoded_mono (hdrawable frame hmem) hmono
  | false => exact encoded_colour (hdrawable frame hmem) hmono

/-- A grey frame of padded lines, a colour frame with a byte missing and one without. -/
theorem viewer_draws_the_conversion_after_failure :
    ∃ grey colour, FrameEncoder.new.encodeAll
        [⟨.mono8, 1, 2, some 2, [7, 0, 9], by decide⟩, ⟨.rgb8Packed, 1, 1, none, [1, 2], by decide⟩,
          ⟨.rgb8Packed, 1, 1, none, [1, 2, 3], by decide⟩] =
      [.ok grey, .error (.error (.convert (.shortPayload .rgb8Packed 3 2))), .ok colour] ∧
      bmpRgb grey = [7, 7, 7, 9, 9, 9] ∧ bmpRgb colour = [1, 2, 3] := by
  have hdrawn := viewer_draws_the_conversion
    [⟨.mono8, 1, 2, some 2, [7, 0, 9], by decide⟩, ⟨.rgb8Packed, 1, 1, none, [1, 2], by decide⟩,
      ⟨.rgb8Packed, 1, 1, none, [1, 2, 3], by decide⟩] (by
    simp only [List.forall_mem_cons, List.not_mem_nil, false_imp_iff, implies_true, and_true]
    exact ⟨⟨by decide, by decide, by decide, by decide, by decide⟩,
      ⟨by decide, by decide, by decide, by decide, by decide⟩,
      ⟨by decide, by decide, by decide, by decide, by decide⟩⟩)
  rcases hdrawn with _ | ⟨⟨hgrey, -⟩, _ | ⟨⟨hshort, -⟩, _ | ⟨⟨hcolour, -⟩, _ | _⟩⟩⟩
  obtain ⟨grey, hgreyOk⟩ := hgrey.succeeds.mpr ⟨[7, 7, 7, 9, 9, 9], rfl⟩
  obtain ⟨colour, hcolourOk⟩ := hcolour.succeeds.mpr ⟨[1, 2, 3], rfl⟩
  obtain ⟨_, hgreyRgb, hgreyShows⟩ := hgrey.shows grey hgreyOk
  obtain ⟨_, hcolourRgb, hcolourShows⟩ := hcolour.shows colour hcolourOk
  cases hgreyRgb
  cases hcolourRgb
  refine ⟨grey, colour, ?_, hgreyShows.pixels, hcolourShows.pixels⟩
  have hrefused := hshort.refused (.shortPayload .rgb8Packed 3 2) rfl
  simp only [FrameEncoder.encodeAll]
  rw [hgreyOk, hrefused, hcolourOk]

end VivaGenicam.Studio
