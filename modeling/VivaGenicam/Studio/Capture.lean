import VivaGenicam.Library.FoldM
import VivaGenicam.Studio.EncodedImages
import VivaGenicam.Studio.FrameEncoder
import VivaGenicam.Studio.FrozenImages

/-!
The capture of a frame that is frozen: its samples at the camera's own depth, beside the file
that was shown. A frame of 8 bits that is no mosaic measures alike in both.
-/

namespace VivaGenicam.Studio

open Library Library.Checked Library.Bytes Library.Tally Pixel
open GenapiXml (Text lit)

def maxCapturePixels : Nat := 16 * 1024 * 1024

def maxSourceBytes : Nat := 128 * 1024 * 1024

/-- The source of the file that is shown. -/
structure SourceFrame (ν : Type) where
  frame : Frame
  bmp : List UInt8
  metadata : Option ν

/-- The JSON header of a capture, whose version is 1. -/
structure NativeHeader (ν : Type) where
  width : Nat
  height : Nat
  pixelFormat : Text
  bits : Nat
  channels : Nat
  mosaic : Bool
  bmpBytes : Nat
  sampleBytes : Nat
  pngBytes : Nat
  metadata : Option ν
deriving DecidableEq

/-- What a capture is made with. -/
structure CaptureTools (ν : Type) where
  normalize : ν → Except Text ν
  formatName : PixelFormat → Text
  convertError : ConvertError → Text
  /-- `image_io::encode` as PNG. -/
  png : Pixels → UInt32 → UInt32 → Except Text (List UInt8)
  toVec : NativeHeader ν → Except Text (List UInt8)

/-- How a capture ends without one. -/
inductive CaptureStop where
  | error (error : Text)
  | panic

namespace CaptureTools

variable {ν : Type} (tools : CaptureTools ν)

def orText {α : Type} : Except Text α → Except CaptureStop α
  | .ok value => .ok value
  | .error error => .error (.error error)

def orConvert {α : Type} : Except Stop α → Except CaptureStop α
  | .ok value => .ok value
  | .error (.error error) => .error (.error (tools.convertError error))
  | .error .panic => .error .panic

def captureSize (width height : UInt32) : Except CaptureStop Nat :=
  let count := width.toNat * height.toNat
  if 0 < count ∧ count ≤ maxCapturePixels then .ok count
  else .error (.error (lit "Native capture exceeds the supported image size"))

def sourceSize (source : SourceFrame ν) : Except CaptureStop Nat := do
  let count ← captureSize source.frame.width source.frame.height
  if source.frame.src.length + source.bmp.length > maxSourceBytes then
    .error (.error (lit "Native capture source exceeds 128 MiB"))
  else .ok count

def littleEndian (values : List UInt16) : List UInt8 :=
  values.flatMap fun value => encodeLE 2 value.toNat

/-- The depth, the channels and the samples that are measured; a mosaic's are the camera's
own. -/
def nativeSamples (frame : Frame) (full : Pixels) : Except CaptureStop (Nat × Nat × List UInt8) :=
  match full, frame.format.cfaPattern.isSome with
  | .gray8 values, _ => .ok (8, 1, values)
  | .gray16 samples bits, _ => .ok (bits, 1, littleEndian samples)
  | .rgb8 values, false => .ok (8, 3, values)
  | .rgb16 samples bits, false => .ok (bits, 3, littleEndian samples)
  | .rgb8 _, true => do
    let values ← tools.orConvert
      (unpackU16 frame.format frame.width frame.height frame.rowStride frame.src)
    .ok (8, 1, values.map fun v => v.toUInt8)
  | .rgb16 _ bits, true => do
    let values ← tools.orConvert
      (unpackU16 frame.format frame.width frame.height frame.rowStride frame.src)
    .ok (bits, 1, if bits = 8 then values.map fun v => v.toUInt8 else littleEndian values)

def sampleSize (bits : Nat) : Nat := if bits > 8 then 2 else 1

/-- `VRAW`, the header's length, the header, the file, the samples and the PNG. -/
def response (header bmp samples png : List UInt8) : List UInt8 :=
  [0x56, 0x52, 0x41, 0x57] ++ (encodeLE 4 header.length ++ (header ++ (bmp ++ (samples ++ png))))

def encode (source : SourceFrame ν) : Except CaptureStop (List UInt8) := do
  let count ← sourceSize source
  let metadata ← orText (source.metadata.elim (.ok none) fun metadata =>
    (tools.normalize metadata).map some)
  let frame := source.frame
  let full ← tools.orConvert
    (fullDepth frame.format frame.width frame.height frame.rowStride frame.src)
  let png ← orText (tools.png full frame.width frame.height)
  let (bits, channels, samples) ← tools.nativeSamples frame full
  if samples.length ≠ count * channels * sampleSize bits then
    .error (.error (lit "Native sample geometry mismatch"))
  else do
    let header ← orText (tools.toVec
      { width := frame.width.toNat
        height := frame.height.toNat
        pixelFormat := tools.formatName frame.format
        bits := bits
        channels := channels
        mosaic := frame.format.cfaPattern.isSome
        bmpBytes := source.bmp.length
        sampleBytes := samples.length
        pngBytes := png.length
        metadata := metadata })
    if header.length > maxHeaderBytes then
      .error (.error (lit "Native capture metadata exceeds the header limit"))
    else if (response header source.bmp samples png).length > maxResponseBytes then
      .error (.error (lit "Native capture response exceeds 256 MiB"))
    else .ok (response header source.bmp samples png)

end CaptureTools

/-- A header as it is read back, but for its metadata. -/
def NativeHeader.captured {ν μ : Type} (header : NativeHeader ν)
    (metadata : Option (Except String μ)) : CaptureHeader μ where
  version := .number 1
  width := .number header.width
  height := .number header.height
  bits := .number header.bits
  channels := .number header.channels
  mosaic := .bool header.mosaic
  pixelFormat := .text header.pixelFormat
  bmpBytes := .number header.bmpBytes
  sampleBytes := .number header.sampleBytes
  pngBytes := .number header.pngBytes
  metadata := metadata

/-- A reader of headers reads what a writer wrote. -/
def ReadsHeaders {ν μ : Type} (toVec : NativeHeader ν → Except Text (List UInt8))
    (readHeader : List UInt8 → Except String (CaptureHeader μ)) : Prop :=
  ∀ header bytes, toVec header = .ok bytes →
    ∃ metadata, readHeader bytes = .ok (header.captured metadata)

variable {samples : List UInt8}

namespace CaptureTools

variable {ν : Type} {tools : CaptureTools ν} {source : SourceFrame ν} {bytes : List UInt8}

theorem orText_eq_ok {α : Type} {result : Except Text α} {value : α} :
    orText result = .ok value ↔ result = .ok value := by
  cases result <;> simp [orText]

theorem orConvert_eq_ok {α : Type} {result : Except Stop α} {value : α} :
    tools.orConvert result = .ok value ↔ result = .ok value := by
  rcases result with (_ | _) | _ <;> simp [orConvert]

/-- The parts of a capture. -/
structure Captures (tools : CaptureTools ν) (source : SourceFrame ν) (full : Pixels)
    (bits channels : Nat) (samples header png bytes : List UInt8) (metadata : Option ν) : Prop where
  decoded : fullDepth source.frame.format source.frame.width source.frame.height
    source.frame.rowStride source.frame.src = .ok full
  unpacked : tools.nativeSamples source.frame full = .ok (bits, channels, samples)
  area : 0 < source.frame.width.toNat * source.frame.height.toNat ∧
    source.frame.width.toNat * source.frame.height.toNat ≤ maxCapturePixels
  size : samples.length = source.frame.width.toNat * source.frame.height.toNat * channels *
    sampleSize bits
  written : tools.toVec
    { width := source.frame.width.toNat
      height := source.frame.height.toNat
      pixelFormat := tools.formatName source.frame.format
      bits := bits
      channels := channels
      mosaic := source.frame.format.cfaPattern.isSome
      bmpBytes := source.bmp.length
      sampleBytes := samples.length
      pngBytes := png.length
      metadata := metadata } = .ok header
  small : header.length ≤ maxHeaderBytes
  whole : bytes = response header source.bmp samples png

theorem exists_captures (h : tools.encode source = .ok bytes) :
    ∃ full bits channels samples header png metadata,
      Captures tools source full bits channels samples header png bytes metadata := by
  unfold encode at h
  obtain ⟨count, hcount, h⟩ := FoldM.bind_eq_ok.mp h
  obtain ⟨metadata, -, h⟩ := FoldM.bind_eq_ok.mp h
  obtain ⟨full, hfull, h⟩ := FoldM.bind_eq_ok.mp h
  obtain ⟨png, -, h⟩ := FoldM.bind_eq_ok.mp h
  obtain ⟨⟨bits, channels, samples⟩, hsamples, h⟩ := FoldM.bind_eq_ok.mp h
  have harea : count = source.frame.width.toNat * source.frame.height.toNat ∧
      0 < source.frame.width.toNat * source.frame.height.toNat ∧
      source.frame.width.toNat * source.frame.height.toNat ≤ maxCapturePixels := by
    unfold sourceSize at hcount
    obtain ⟨area, harea, hcount⟩ := FoldM.bind_eq_ok.mp hcount
    unfold captureSize at harea
    dsimp only at harea
    split at harea
    · rename_i hinside
      split at hcount
      · cases hcount
      · cases hcount
        cases harea
        exact ⟨rfl, hinside⟩
    · cases harea
  obtain ⟨rfl, harea⟩ := harea
  dsimp only at h
  split at h
  · cases h
  · rename_i hsize
    obtain ⟨header, hheader, h⟩ := FoldM.bind_eq_ok.mp h
    split at h
    · cases h
    · rename_i hsmall
      split at h
      · cases h
      · cases h
        exact ⟨full, bits, channels, samples, header, png, metadata, orConvert_eq_ok.mp hfull,
          hsamples, harea, not_not.mp hsize, orText_eq_ok.mp hheader, not_lt.mp hsmall, rfl⟩

theorem response_parts {header bmp samples png : List UInt8} (hsmall : header.length < 2 ^ 32) :
    fieldLE (response header bmp samples png) 4 4 = header.length ∧
      ((response header bmp samples png).drop 8).take header.length = header ∧
      (response header bmp samples png).drop (8 + header.length + bmp.length) = samples ++ png := by
  have hfront : ([0x56, 0x52, 0x41, 0x57] ++ encodeLE 4 header.length : List UInt8).length = 8 := by
    rw [List.length_append, length_encodeLE]
    rfl
  unfold response
  refine ⟨?_, ?_, ?_⟩
  · have hskip := @fieldLE_append [0x56, 0x52, 0x41, 0x57]
      (encodeLE 4 header.length ++ (header ++ (bmp ++ (samples ++ png)))) 4 4 (by simp)
    rw [hskip]
    exact fieldLE_first _ (by norm_num; omega)
  · rw [← List.append_assoc, List.drop_left' hfront, List.take_left' rfl]
  · rw [← List.append_assoc, ← List.drop_drop, ← List.drop_drop, List.drop_left' hfront,
      List.drop_left' rfl, List.drop_left' rfl]

theorem isMono_of_layout {format : PixelFormat} {single : Single}
    (h : layout format = some (.mono single)) : format.isMono = true := by
  cases format <;> first | rfl | simp [layout, monoOrBayer, PixelFormat.cfaPattern] at h

theorem not_isMono_of_layout {format : PixelFormat} {l : Layout} (h : layout format = some l)
    (hl : ∀ single, l ≠ .mono single) : format.isMono = false := by
  cases hmono : format.isMono with
  | false => rfl
  | true =>
    obtain ⟨single, hsingle⟩ := layout_of_isMono hmono
    cases h.symm.trans hsingle
    exact absurd rfl (hl single)

theorem nativeSamples_colour {frame : Frame} {full : Pixels} {channels : Nat}
    {left : Except Stop Rows} {rest : Rows → Except Stop Pixels}
    (hrest : ∀ rows, rest rows = (do
      let (out, _) ← Converter.new.rgb8Into frame.format frame.width frame.height frame.rowStride
        frame.src
      .ok (.rgb8 out)))
    (hfull : left.bind rest = .ok full) (hplain : frame.format.cfaPattern.isSome = false)
    (hsamples : tools.nativeSamples frame full = .ok (8, channels, samples)) :
    channels = 3 ∧ converted frame = .ok samples := by
  obtain ⟨rows, -, hfull⟩ := FoldM.bind_eq_ok.mp hfull
  rw [hrest] at hfull
  obtain ⟨⟨out, after⟩, hout, hfull⟩ := FoldM.bind_eq_ok.mp hfull
  cases hfull
  unfold nativeSamples at hsamples
  rw [hplain] at hsamples
  cases hsamples
  refine ⟨rfl, ?_⟩
  rw [converted, toRgb8, hout]
  rfl

theorem nativeSamples_eight {frame : Frame} {full : Pixels} {channels : Nat}
    (hfull : fullDepth frame.format frame.width frame.height frame.rowStride frame.src = .ok full)
    (hplain : frame.format.cfaPattern.isSome = false)
    (hsamples : tools.nativeSamples frame full = .ok (8, channels, samples)) :
    (channels = 1 ∧ frame.format.isMono = true ∧
      (Converter.new.gray8 frame.format frame.width frame.height frame.rowStride frame.src).map
        Prod.fst = .ok samples) ∨
    (channels = 3 ∧ frame.format.isMono = false ∧ converted frame = .ok samples) := by
  unfold fullDepth at hfull
  cases hl : layout frame.format with
  | none =>
    rw [hl] at hfull
    cases hfull
  | some l =>
    rw [hl] at hfull
    dsimp only at hfull
    cases l with
    | mono single =>
      left
      obtain ⟨rows, hrows, hfull⟩ := FoldM.bind_eq_ok.mp hfull
      dsimp only at hfull
      split at hfull
      · rename_i hbits
        obtain ⟨values, hvalues, hfull⟩ := FoldM.bind_eq_ok.mp hfull
        cases hfull
        rw [nativeSamples] at hsamples
        cases hsamples
        refine ⟨rfl, isMono_of_layout hl, ?_⟩
        simp only [Converter.gray8, hl, hrows, bind, Except.bind, hbits, if_true, hvalues]
        rfl
      · rename_i hdeep
        obtain ⟨values, hvalues, hfull⟩ := FoldM.bind_eq_ok.mp hfull
        cases hfull
        rw [nativeSamples] at hsamples
        simp only [Except.ok.injEq, Prod.mk.injEq] at hsamples
        simp [Single.is8Bit, hsamples.1] at hdeep
    | bayer single offsets =>
      rw [bayer_cfaPattern hl] at hplain
      cases hplain
    | rgb order =>
      right
      obtain ⟨hchannels, hconverted⟩ := nativeSamples_colour (fun _ => rfl) hfull hplain hsamples
      exact ⟨hchannels, not_isMono_of_layout hl (by simp), hconverted⟩
    | yuv order =>
      right
      obtain ⟨hchannels, hconverted⟩ := nativeSamples_colour (fun _ => rfl) hfull hplain hsamples
      exact ⟨hchannels, not_isMono_of_layout hl (by simp), hconverted⟩

end CaptureTools

theorem integer_natCast {n m : Nat} (h : integer (.number n) = some m) : m = n := by
  simp only [integer] at h
  split at h
  · cases h
    simp
  · cases h

theorem channelCount_natCast {n m : Nat} (h : channelCount (.number n) = some m) : m = n := by
  unfold channelCount at h
  dsimp only at h
  split at h
  · rename_i hone
    cases h
    exact_mod_cast hone.symm
  · split at h
    · rename_i hthree
      cases h
      exact_mod_cast hthree.symm
    · cases h

theorem fields_captured {ν μ : Type} {header : NativeHeader ν}
    {metadata : Option (Except String μ)} {h : CaptureFields}
    (hfields : (header.captured metadata).fields = some h) :
    h.width = header.width ∧ h.height = header.height ∧ h.bits = header.bits ∧
      h.channels = header.channels ∧ h.mosaic = header.mosaic ∧ h.bmpBytes = header.bmpBytes := by
  unfold CaptureHeader.fields NativeHeader.captured at hfields
  simp only [Option.bind_eq_bind, Option.bind_eq_some_iff] at hfields
  obtain ⟨width, hwidth, height, hheight, bits, hbits, channels, hchannels, mosaic, hmosaic,
    pixelFormat, -, bmpBytes, hbmp, sampleBytes, -, pngBytes, -, hfields⟩ := hfields
  split at hfields
  · cases hfields
    cases hmosaic
    exact ⟨integer_natCast hwidth, integer_natCast hheight, integer_natCast hbits,
      channelCount_natCast hchannels, rfl, integer_natCast hbmp⟩
  · cases hfields

section

variable {ν μ : Type} {tools : CaptureTools ν}
  {readHeader : List UInt8 → Except String (CaptureHeader μ)} {source : SourceFrame ν}
  {bytes : List UInt8} {frame : NativeFrame μ}

/-- What a frozen frame of 8 bits has of its source. -/
structure Freezes (tools : CaptureTools ν) (source : SourceFrame ν) (frame : NativeFrame μ)
    (samples : List UInt8) : Prop where
  width : frame.width = source.frame.width.toNat
  height : frame.height = source.frame.height.toNat
  area : 0 < source.frame.width.toNat * source.frame.height.toNat ∧
    source.frame.width.toNat * source.frame.height.toNat ≤ maxCapturePixels
  stored : frame.samples = samples.map UInt8.toNat
  mosaic : frame.mosaic = source.frame.format.cfaPattern.isSome
  decoded : ∃ full, fullDepth source.frame.format source.frame.width source.frame.height
      source.frame.rowStride source.frame.src = .ok full ∧
    tools.nativeSamples source.frame full = .ok (8, frame.channels, samples)

theorem exists_freezes (hjson : ReadsHeaders tools.toVec readHeader)
    (hcapture : tools.encode source = .ok bytes)
    (hparse : parseNativeFrame readHeader bytes = .ok frame) (hbits : frame.bits = 8) :
    ∃ samples, Freezes tools source frame samples := by
  obtain ⟨full, bits, channels, samples, headerBytes, png, metadata, hcaptures⟩ :=
    CaptureTools.exists_captures hcapture
  obtain ⟨header, h, haccepts⟩ := exists_accepts hparse
  have hsmall := hcaptures.small
  unfold maxHeaderBytes at hsmall
  obtain ⟨hlength, hheader, hsamples⟩ := @CaptureTools.response_parts headerBytes source.bmp samples
    png (by omega)
  rw [← hcaptures.whole] at hlength hheader hsamples
  obtain ⟨read, hread⟩ := hjson _ _ hcaptures.written
  have hsame := haccepts.read
  rw [hlength, hheader, hread] at hsame
  cases hsame
  obtain ⟨hwidth, hheight, hbitsSame, hchannels, hmosaic, hbmp⟩ := fields_captured haccepts.fields
  simp only at hwidth hheight hbitsSame hchannels hmosaic hbmp
  have height : bits = 8 := by rw [← hbits, haccepts.bits, hbitsSame]
  subst height
  have hcount : samples.length = h.width * h.height * h.channels := by
    rw [hcaptures.size, hwidth, hheight, hchannels, CaptureTools.sampleSize, if_neg (by omega),
      Nat.mul_one]
  refine ⟨samples, ?_, ?_, hcaptures.area, ?_, ?_, full, hcaptures.decoded, ?_⟩
  · rw [haccepts.width, hwidth]
  · rw [haccepts.height, hheight]
  · rw [haccepts.samples, hlength, hbmp, hsamples, ← hcount, captureSamples, hbitsSame,
      if_neg (by omega), List.take_left' rfl]
  · rw [haccepts.mosaic, hmosaic]
  · rw [haccepts.channels, hchannels, hcaptures.unpacked]

theorem mapError_eq_ok {ε δ α : Type} {f : ε → δ} {result : Except ε α} {value : α} :
    result.mapError f = .ok value ↔ result = .ok value := by
  cases result <;> simp [Except.mapError]

theorem Image.eq_of {image other : Image} (hwidth : image.width = other.width)
    (hheight : image.height = other.height) (hcolour : image.colour = other.colour)
    (hsamples : image.samples = other.samples) : image = other := by
  cases image
  cases other
  simp only at hwidth hheight hcolour hsamples
  subst hwidth hheight hcolour hsamples
  rfl

theorem Freezes.holds (h : Freezes tools source frame samples)
    (hframe : frame.IsImage) (hmosaic : frame.mosaic = false)
    (hbmp : encoded source.frame = .ok source.bmp) :
    ∃ offset stride, HoldsImage source.bmp (frame.image hframe) offset stride := by
  obtain ⟨full, hfull, hsamples⟩ := h.decoded
  have harea := h.area
  unfold maxCapturePixels at harea
  have hwide : 0 < source.frame.width.toNat := Nat.pos_of_mul_pos_right harea.1
  have htall : 0 < source.frame.height.toNat := Nat.pos_of_mul_pos_left harea.1
  have hcolumns : source.frame.width.toNat * 1 ≤
      source.frame.width.toNat * source.frame.height.toNat := Nat.mul_le_mul_left _ htall
  have hlines : 1 * source.frame.height.toNat ≤
      source.frame.width.toNat * source.frame.height.toNat := Nat.mul_le_mul_right _ hwide
  have hplain : source.frame.format.cfaPattern.isSome = false := by rw [← h.mosaic, hmosaic]
  rcases CaptureTools.nativeSamples_eight hfull hplain hsamples with
    ⟨hchannels, hmono, hgray⟩ | ⟨hchannels, hmono, hconverted⟩
  · rw [encoded, if_pos hmono, hgray] at hbmp
    dsimp only at hbmp
    cases hnew : BmpEncoder.new source.frame.width source.frame.height with
    | none =>
      rw [hnew] at hbmp
      cases hbmp
    | some encoder =>
      rw [hnew] at hbmp
      obtain ⟨hsize, hholds⟩ := BmpEncoder.new_holds hnew (mapError_eq_ok.mp hbmp) hwide
        ⟨htall, by omega⟩ (by omega)
      have hsame : Image.ofBytes source.frame.width.toNat source.frame.height.toNat false samples
          hsize = frame.image hframe :=
        Image.eq_of h.width.symm h.height.symm (by simp [Image.ofBytes, NativeFrame.image, hchannels])
          h.stored.symm
      exact ⟨_, _, hsame ▸ hholds⟩
  · have hcolour : ¬ source.frame.format.isMono = true := by simp [hmono]
    have hrgb := @rgb8_eq_toRgb8 source.frame.format source.frame.width source.frame.height
      source.frame.rowStride source.frame.src hwide htall source.frame.src_small
    change _ = converted source.frame at hrgb
    rw [encoded, if_neg hcolour, hrgb, hconverted] at hbmp
    dsimp only at hbmp
    cases hnew : BmpEncoder.newRgb24 source.frame.width source.frame.height with
    | none =>
      rw [hnew] at hbmp
      cases hbmp
    | some encoder =>
      rw [hnew] at hbmp
      obtain ⟨hsize, hholds⟩ := BmpEncoder.newRgb24_holds hnew (mapError_eq_ok.mp hbmp) hwide
        ⟨htall, by omega⟩ (by omega)
      have hsame : Image.ofBytes source.frame.width.toNat source.frame.height.toNat true samples
          hsize = frame.image hframe :=
        Image.eq_of h.width.symm h.height.symm (by simp [Image.ofBytes, NativeFrame.image, hchannels])
          h.stored.symm
      exact ⟨_, _, hsame ▸ hholds⟩

end

end VivaGenicam.Studio
