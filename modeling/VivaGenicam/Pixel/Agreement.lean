import VivaGenicam.Pixel.Buffers

/-!
A converter in use: whatever frames it converted before, it returns what a fresh one
does, and every way to convert a frame gives the same picture.
-/

namespace VivaGenicam.Pixel

open Library.Checked

variable (converter : Converter)

namespace Converter

variable {format : PixelFormat} {width height : UInt32} {rowStride : Option Nat}
  {src : List UInt8}

theorem gray8InPlace_eq (format : PixelFormat) (width height : UInt32)
    (rowStride : Option Nat) (src : List UInt8) :
    (converter.gray8InPlace format width height rowStride src).map Prod.fst =
      (new.gray8 format width height rowStride src).map Prod.fst := by
  unfold gray8InPlace gray8
  cases layout format with
  | none => rfl
  | some l =>
    cases l with
    | mono single =>
      dsimp only
      cases rows format width height rowStride src with
      | error stop => rfl
      | ok found =>
        simp only [ok_bind, unpackRowsInto_eq]
        split
        · rw [← gather8Into_eq found converter.out]
          cases gather8Into found converter.out with
          | error stop => rfl
          | ok gathered => rfl
        · cases unpackRows single found with
          | error stop => rfl
          | ok samples => rfl
    | bayer single offsets => rfl
    | rgb order => rfl
    | yuv order => rfl

theorem rgb8IntoInPlace_eq (converter : Converter) (hsmall : src.length < 2 ^ 63)
    (out : List UInt8) :
    (converter.rgb8IntoInPlace format width height rowStride src out).map Prod.fst =
      (new.rgb8Into format width height rowStride src).map Prod.fst := by
  unfold rgb8IntoInPlace rgb8Into
  cases hl : layout format with
  | none => rfl
  | some l =>
    dsimp only
    rcases rows_cases hl width height rowStride hsmall with ⟨stop, hstop⟩ | ⟨found, hfound, hsound⟩
    · rw [hstop]
      rfl
    · rw [hfound, ok_bind, ok_bind]
      cases l with
      | mono single =>
        simp only [extendEach_cleared, unpackRowsInto_eq]
        split
        · cases appendEach (fun y => do
              .ok (triple (← orPanic (slice (← found.row y) 0 found.pixels))))
              (List.range found.count) with
          | error stop => rfl
          | ok out => rfl
        · cases unpackRows single found with
          | error stop => rfl
          | ok samples => rfl
      | bayer single offsets =>
        have hvalid := (layout_spec hl).2
        obtain ⟨samples, hlength, hsamples⟩ :=
          unpackRows_ok (l := .bayer single offsets) rfl hvalid hsound
        simp only [mosaic8, unpackRowsInto_eq, hsamples, ok_bind]
        cases h8 : single.is8Bit with
        | true =>
          obtain ⟨gray, hgather, hgray, -⟩ :=
            eightBit_rows (l := .bayer single offsets) rfl hvalid h8 hsound
          have hgrayLength : gray.length = width.toNat * height.toNat := by
            rw [hsamples] at hgray
            cases hgray
            rw [← hlength, List.length_map]
          have hinto := gather8Into_eq found converter.mosaic
          rw [hgather] at hinto
          simp only [if_true, hgather, ok_bind]
          cases hscratch : gather8Into found converter.mosaic with
          | error stop =>
            rw [hscratch] at hinto
            cases hinto
          | ok gathered =>
            rw [hscratch] at hinto
            cases hinto
            simp only [ok_bind, demosaicInto_eq offsets hgrayLength]
            cases demosaicBilinear gathered.1 width.toNat height.toNat offsets with
            | error stop => rfl
            | ok image => rfl
        | false =>
          have hmosaic : (samples.map fun v => narrow v single.bits).length =
              width.toNat * height.toNat := by rw [List.length_map, hlength]
          simp only [Bool.false_eq_true, if_false, narrowInto, cleared, List.nil_append, ok_bind,
            demosaicInto_eq offsets hmosaic]
          cases demosaicBilinear (samples.map fun v => narrow v single.bits) width.toNat
              height.toNat offsets with
          | error stop => rfl
          | ok image => rfl
      | rgb order =>
        simp only [extendEach_cleared]
        cases appendEach (fun y => do rgbAppend order found.pixels (← found.row y))
            (List.range found.count) with
        | error stop => rfl
        | ok out => rfl
      | yuv order =>
        simp only [extendEach_cleared]
        cases found.total with
        | error stop => rfl
        | ok total =>
          simp only [ok_bind]
          cases orPanic (mul total 3) with
          | error stop => rfl
          | ok size =>
            simp only [ok_bind]
            cases appendEach (fun y => do yuvAppend order found.pixels (← found.row y))
                (List.range found.count) with
            | error stop => rfl
            | ok out => rfl

theorem rgb8InPlace_eq (hsmall : src.length < 2 ^ 63) :
    (converter.rgb8InPlace format width height rowStride src).map Prod.fst =
      (new.rgb8 format width height rowStride src).map Prod.fst := by
  have hinto := @rgb8IntoInPlace_eq format width height rowStride src { converter with out := [] }
    hsmall converter.out
  have hfill : ((do
      let result ← { converter with out := [] }.rgb8IntoInPlace format width height rowStride src
        converter.out
      Except.ok (result.1, { result.2 with out := result.1 }) :
        Except Stop (List UInt8 × Converter))).map Prod.fst = ((do
      let result ← new.rgb8Into format width height rowStride src
      Except.ok (result.1, { result.2 with out := result.1 }) :
        Except Stop (List UInt8 × Converter))).map Prod.fst := by
    cases hleft : { converter with out := [] }.rgb8IntoInPlace format width height rowStride src
        converter.out with
    | error stop =>
      cases hright : new.rgb8Into format width height rowStride src with
      | error other =>
        rw [hleft, hright] at hinto
        exact hinto
      | ok other =>
        rw [hleft, hright] at hinto
        cases hinto
    | ok result =>
      cases hright : new.rgb8Into format width height rowStride src with
      | error other =>
        rw [hleft, hright] at hinto
        cases hinto
      | ok other =>
        rw [hleft, hright] at hinto
        exact hinto
  unfold rgb8InPlace rgb8
  split
  · cases rows format width height rowStride src with
    | error stop => rfl
    | ok found =>
      simp only [ok_bind]
      split
      · cases orPanic (mul found.pixels 3) with
        | error stop => rfl
        | ok bytes =>
          simp only [ok_bind]
          cases orPanic (slice found.src 0 bytes) with
          | error stop => rfl
          | ok run => rfl
      · exact hfill
  · exact hfill

end Converter

/-- A frame to convert. A payload is shorter than the address space. -/
structure Frame where
  format : PixelFormat
  width : UInt32
  height : UInt32
  rowStride : Option Nat
  src : List UInt8
  src_small : src.length < 2 ^ 63

inductive Call where
  | gray8 (frame : Frame)
  | rgb8 (frame : Frame)

namespace Converter

def call (converter : Converter) : Call → Except Stop (List UInt8 × Converter)
  | .gray8 frame =>
    converter.gray8InPlace frame.format frame.width frame.height frame.rowStride frame.src
  | .rgb8 frame =>
    converter.rgb8InPlace frame.format frame.width frame.height frame.rowStride frame.src

/-- The converter after some calls. One that is refused touches no buffer. -/
def after : List Call → Converter → Converter
  | [], converter => converter
  | call :: rest, converter =>
    match converter.call call with
    | .ok (_, next) => after rest next
    | .error _ => after rest converter

end Converter

def Call.fresh : Call → Except Stop (List UInt8)
  | .gray8 frame => (Converter.new.gray8 frame.format frame.width frame.height frame.rowStride
      frame.src).map Prod.fst
  | .rgb8 frame => (Converter.new.rgb8 frame.format frame.width frame.height frame.rowStride
      frame.src).map Prod.fst

theorem Converter.call_eq (call : Call) :
    (converter.call call).map Prod.fst = call.fresh := by
  cases call with
  | gray8 frame => exact converter.gray8InPlace_eq ..
  | rgb8 frame => exact converter.rgb8InPlace_eq frame.src_small

theorem demosaics_of_ok {α : Type} [Sample α] [LawfulSample α] {mosaic image : List α}
    {width height : Nat} {offsets : Nat × Nat} (hlength : mosaic.length = width * height)
    (h : demosaicBilinear mosaic width height offsets = .ok image) :
    Demosaics mosaic image width height offsets := by
  rcases demosaicBilinear_cases offsets hlength with ⟨-, heq⟩ | ⟨-, heq⟩
  · cases heq.symm.trans h
    exact demosaics_demosaiced offsets hlength
  · cases heq.symm.trans h

/-- The entry points give one picture, the demosaic is faithful at either depth, and a
converter returns for a frame what a fresh one does. -/
theorem conversion_paths_agree (frame : Frame) :
    (∀ single, layout frame.format = some (.mono single) →
      MonoPaths single frame.format frame.width frame.height frame.rowStride frame.src) ∧
    (∀ single offsets, layout frame.format = some (.bayer single offsets) →
      BayerPaths single offsets frame.format frame.width frame.height frame.rowStride frame.src) ∧
    (∀ l, layout frame.format = some l → l.Bytes →
      (fullDepth frame.format frame.width frame.height frame.rowStride frame.src).map
          Pixels.intoRgb =
        (toRgb8 frame.format frame.width frame.height frame.rowStride frame.src).map
          Pixels.rgb8) ∧
    (∀ (mosaic image : List UInt8) (width height : Nat) (offsets : Nat × Nat),
      mosaic.length = width * height →
      demosaicBilinear mosaic width height offsets = .ok image →
      Demosaics mosaic image width height offsets) ∧
    (∀ (mosaic image : List UInt16) (width height : Nat) (offsets : Nat × Nat),
      mosaic.length = width * height →
      demosaicBilinear mosaic width height offsets = .ok image →
      Demosaics mosaic image width height offsets) ∧
    ∀ (calls : List Call) (call : Call),
      ((Converter.new.after calls).call call).map Prod.fst = call.fresh := by
  refine ⟨fun single hl => ?_, fun single offsets hl => ?_, fun l hl hbytes => ?_, ?_, ?_, ?_⟩
  · exact mono_paths hl frame.width frame.height frame.rowStride frame.src_small
  · exact bayer_paths hl frame.width frame.height frame.rowStride frame.src_small
  · exact fullDepth_intoRgb hl hbytes frame.src_small
  · exact fun mosaic image width height offsets hlength h => demosaics_of_ok hlength h
  · exact fun mosaic image width height offsets hlength h => demosaics_of_ok hlength h
  · exact fun calls call => (Converter.new.after calls).call_eq call

end VivaGenicam.Pixel
