import VivaGenicam.Pixel.Format
import VivaGenicam.Library.Bytes

/-!
Turning a frame's bytes into samples: unpack, narrow to 8 bits, demosaic,
convert colours. A step that would panic (an index outside a slice, an
overflowing product, a shift past the width) stops with `panic`; samples are
the source's own 8- and 16-bit words. What is appended to a cleared buffer is
the list returned.
-/

namespace VivaGenicam.Pixel

open Library.Checked

inductive ConvertError where
  | unsupported (format : PixelFormat)
  | shortPayload (format : PixelFormat) (expected actual : Nat)
  | strideTooShort (stride line : Nat)
  | tooLarge (width height : UInt32)
deriving DecidableEq, Repr

/-- How a conversion ends without a result. -/
inductive Stop where
  | error (error : ConvertError)
  | panic
deriving DecidableEq, Repr

def orPanic {α : Type} : Option α → Except Stop α
  | some value => .ok value
  | none => .error .panic

def orError {α : Type} (error : ConvertError) : Option α → Except Stop α
  | some value => .ok value
  | none => .error (.error error)

/-- What `step` appends for each element, in order. -/
def appendEach {α β : Type} (step : α → Except Stop (List β)) : List α → Except Stop (List β)
  | [] => .ok []
  | head :: rest => do
    let first ← step head
    let others ← appendEach step rest
    .ok (first ++ others)

inductive Packing where
  | unpacked
  | lsb
  | gige
deriving DecidableEq, Repr

structure Single where
  bits : Nat
  packing : Packing
deriving DecidableEq, Repr

def Single.is8Bit (single : Single) : Bool := single.bits = 8

inductive RgbOrder where
  | rgb | bgr | rgba | bgra
deriving DecidableEq, Repr

def RgbOrder.stride : RgbOrder → Nat
  | .rgb | .bgr => 3
  | .rgba | .bgra => 4

def RgbOrder.indices : RgbOrder → Nat × Nat × Nat
  | .rgb | .rgba => (0, 1, 2)
  | .bgr | .bgra => (2, 1, 0)

inductive YuvOrder where
  | yuyv | uyvy | uyyvyy | uyv | yuv
deriving DecidableEq, Repr

inductive Layout where
  | mono (single : Single)
  | bayer (single : Single) (offsets : Nat × Nat)
  | rgb (order : RgbOrder)
  | yuv (order : YuvOrder)
deriving DecidableEq, Repr

def monoOrBayer (format : PixelFormat) (single : Single) : Layout :=
  match format.cfaPattern with
  | some offsets => .bayer single offsets
  | none => .mono single

def layout (format : PixelFormat) : Option Layout :=
  match format with
  | .mono8 | .bayerRG8 | .bayerGR8 | .bayerGB8 | .bayerBG8 =>
    some (monoOrBayer format ⟨8, .unpacked⟩)
  | .mono10 | .bayerRG10 | .bayerGR10 | .bayerGB10 | .bayerBG10 =>
    some (monoOrBayer format ⟨10, .unpacked⟩)
  | .mono12 | .bayerRG12 | .bayerGR12 | .bayerGB12 | .bayerBG12 =>
    some (monoOrBayer format ⟨12, .unpacked⟩)
  | .mono14 => some (monoOrBayer format ⟨14, .unpacked⟩)
  | .mono16 | .bayerRG16 | .bayerGR16 | .bayerGB16 | .bayerBG16 =>
    some (monoOrBayer format ⟨16, .unpacked⟩)
  | .mono10p | .bayerRG10p | .bayerGR10p | .bayerGB10p | .bayerBG10p =>
    some (monoOrBayer format ⟨10, .lsb⟩)
  | .mono12p | .bayerRG12p | .bayerGR12p | .bayerGB12p | .bayerBG12p =>
    some (monoOrBayer format ⟨12, .lsb⟩)
  | .mono10Packed | .bayerRG10Packed | .bayerGR10Packed | .bayerGB10Packed
  | .bayerBG10Packed => some (monoOrBayer format ⟨10, .gige⟩)
  | .mono12Packed | .bayerRG12Packed | .bayerGR12Packed | .bayerGB12Packed
  | .bayerBG12Packed => some (monoOrBayer format ⟨12, .gige⟩)
  | .rgb8Packed => some (.rgb .rgb)
  | .bgr8Packed => some (.rgb .bgr)
  | .rgba8 => some (.rgb .rgba)
  | .bgra8 => some (.rgb .bgra)
  | .yuv422_8 | .yCbCr422_8 => some (.yuv .yuyv)
  | .yuv422_8_UYVY | .yCbCr422_8_CbYCrY => some (.yuv .uyvy)
  | .yuv411_8_UYYVYY => some (.yuv .uyyvyy)
  | .yuv8_UYV | .yCbCr8_CbYCr => some (.yuv .uyv)
  | .yCbCr8 => some (.yuv .yuv)
  | _ => none

/-- Where an image's pixels lie in its payload: one run, or one line every
`stride` bytes. -/
structure Rows where
  src : List UInt8
  pixels : Nat
  bytes : Nat
  stride : Nat
  count : Nat
deriving DecidableEq, Repr

def Rows.row (rows : Rows) (y : Nat) : Except Stop (List UInt8) := do
  let start ← orPanic (mul y rows.stride)
  orPanic (slice rows.src start rows.bytes)

def Rows.total (rows : Rows) : Except Stop Nat := orPanic (mul rows.pixels rows.count)

/-- The bytes a run must have; a bit-packed one may stop inside its last group. -/
def expectedRun (format : PixelFormat) (tooLarge : ConvertError) (pixels completed : Nat) :
    Except Stop Nat :=
  match layout format with
  | some (.mono ⟨bits, .lsb⟩) | some (.bayer ⟨bits, .lsb⟩ _) => do
    let total ← orError tooLarge (mul pixels bits)
    .ok ((total + 7) / 8)
  | some (.mono ⟨_, .gige⟩) | some (.bayer ⟨_, .gige⟩ _) => do
    let whole ← orError tooLarge (mul (pixels / 2) 3)
    orError tooLarge (add whole (if pixels % 2 = 1 then 2 else 0))
  | _ => .ok completed

/-- The pixel count and the bytes it occupies, or why not. -/
def geometry (format : PixelFormat) (width height : UInt32) (src : List UInt8) :
    Except Stop (Nat × List UInt8) := do
  let tooLarge := ConvertError.tooLarge width height
  let pixels ← orError tooLarge (mul width.toNat height.toNat)
  let completed ← orError tooLarge (format.imageBytes width height)
  let expected ← expectedRun format tooLarge pixels completed
  if src.length < expected then .error (.error (.shortPayload format expected src.length))
  else
    let run ← orPanic (slice src 0 (min completed src.length))
    .ok (pixels, run)

/-- The bytes lines `stride` apart must have; the last needs no padding after it. -/
def expectedLines (tooLarge : ConvertError) (stride line : Nat) (height : UInt32) :
    Except Stop Nat :=
  match sub height.toNat 1 with
  | none => .ok 0
  | some beforeLast => do
    let start ← orError tooLarge (mul stride beforeLast)
    orError tooLarge (add start line)

/-- The rows of an image, or why its payload cannot hold them. -/
def rows (format : PixelFormat) (width height : UInt32) (rowStride : Option Nat)
    (src : List UInt8) : Except Stop Rows :=
  match rowStride with
  | none => do
    let (pixels, run) ← geometry format width height src
    .ok ⟨run, pixels, run.length, run.length, 1⟩
  | some stride => do
    let tooLarge := ConvertError.tooLarge width height
    let _ ← orError tooLarge (mul width.toNat height.toNat)
    let line ← orError tooLarge (format.lineBytes width)
    if stride < line then .error (.error (.strideTooShort stride line))
    else
      let expected ← expectedLines tooLarge stride line height
      if src.length < expected then .error (.error (.shortPayload format expected src.length))
      else .ok ⟨src, width.toNat, line, stride, height.toNat⟩

def shl32 (word : UInt32) (count : Nat) : Option UInt32 :=
  if count < 32 then some (word <<< UInt32.ofNat count) else none

def shr32 (word : UInt32) (count : Nat) : Option UInt32 :=
  if count < 32 then some (word >>> UInt32.ofNat count) else none

/-- The bit stream's `while`: whole bytes until a sample is held. -/
def fill (bits : Nat) (acc : UInt32) (held : Nat) (bytes : List UInt8) :
    Option (UInt32 × Nat × List UInt8) :=
  if held < bits then do
    let byte ← shl32 (bytes.headD 0).toUInt32 held
    fill bits (acc ||| byte) (held + 8) bytes.tail
  else some (acc, held, bytes)
termination_by bits - held

/-- The next `pixels` samples of an lsb-first bit stream. -/
def lsbSamples (bits : Nat) (mask : UInt32) :
    (pixels : Nat) → (acc : UInt32) → (held : Nat) → List UInt8 → Option (List UInt16)
  | 0, _, _, _ => some []
  | pixels + 1, acc, held, bytes => do
    let (acc, held, bytes) ← fill bits acc held bytes
    let rest ← shr32 acc bits
    let held ← sub held bits
    let others ← lsbSamples bits mask pixels rest held bytes
    some ((acc &&& mask).toUInt16 :: others)

def littleEndianPairs : List UInt8 → List UInt16
  | low :: high :: rest => (low.toUInt16 ||| (high.toUInt16 <<< 8)) :: littleEndianPairs rest
  | _ => []

/-- Two pixels from each three bytes, and one from a tail of two. -/
def gigeGroups (shift mask : UInt16) : List UInt8 → List UInt16
  | msb0 :: lsb :: msb1 :: rest =>
    ((msb0.toUInt16 <<< shift) ||| (lsb.toUInt16 &&& mask)) ::
      ((msb1.toUInt16 <<< shift) ||| ((lsb.toUInt16 >>> 4) &&& mask)) ::
      gigeGroups shift mask rest
  | [msb0, lsb] => [(msb0.toUInt16 <<< shift) ||| (lsb.toUInt16 &&& mask)]
  | _ => []

/-- The samples appended for `pixels` pixels of `src`. -/
def unpackAppend (single : Single) (pixels : Nat) (src : List UInt8) :
    Except Stop (List UInt16) :=
  match single.packing with
  | .unpacked =>
    if single.is8Bit then do
      let bytes ← orPanic (slice src 0 pixels)
      .ok (bytes.map UInt8.toUInt16)
    else orPanic (slice (littleEndianPairs src) 0 pixels)
  | .lsb => do
    let one ← orPanic (shl32 1 single.bits)
    orPanic (lsbSamples single.bits (one - 1) pixels 0 0 src)
  | .gige => do
    let shift ← orPanic (sub single.bits 8)
    let mask := (1 <<< UInt16.ofNat shift) - 1
    .ok ((gigeGroups (UInt16.ofNat shift) mask src).take pixels)

def unpackRows (single : Single) (rows : Rows) : Except Stop (List UInt16) := do
  let _ ← rows.total
  appendEach (fun y => do unpackAppend single rows.pixels (← rows.row y)) (List.range rows.count)

/-- The 8-bit samples of `rows`: lent when the image is one run, gathered otherwise. -/
def gather8 (rows : Rows) : Except Stop (List UInt8) :=
  if rows.count ≤ 1 then do
    let total ← rows.total
    orPanic (slice rows.src 0 total)
  else
    appendEach (fun y => do orPanic (slice (← rows.row y) 0 rows.pixels)) (List.range rows.count)

/-- A sample's top eight bits; padding bits that are set saturate. -/
def narrow (value : UInt16) (bits : Nat) : UInt8 :=
  (min (value >>> UInt16.ofNat (bits - 8)) 0xFF).toUInt8

/-- A sample type the demosaic averages as numbers. -/
class Sample (α : Type) where
  widen : α → Nat
  narrow : Nat → α

instance : Sample UInt8 := ⟨UInt8.toNat, UInt8.ofNat⟩
instance : Sample UInt16 := ⟨UInt16.toNat, UInt16.ofNat⟩

section Demosaic

variable {α : Type} [Sample α]

def at_ (samples : List α) (i : Nat) : Except Stop Nat :=
  orPanic (samples[i]?.map Sample.widen)

def demosaicPixel (above here below : List α) (width xOffset ySite x : Nat) :
    Except Stop (List α) := do
  let left := x - 1
  let right := min (x + 1) (width - 1)
  let centre ← at_ here x
  let horizontal := do .ok (((← at_ here left) + (← at_ here right)) / 2)
  let vertical := do .ok (((← at_ above x) + (← at_ below x)) / 2)
  let cross := do
    .ok (((← at_ here left) + (← at_ here right) + (← at_ above x) + (← at_ below x)) / 4)
  let diagonal := do
    .ok (((← at_ above left) + (← at_ above right) + (← at_ below left) +
      (← at_ below right)) / 4)
  let colours : Except Stop (Nat × Nat × Nat) :=
    match (x + xOffset) % 2, ySite with
    | 0, 0 => do .ok (centre, ← cross, ← diagonal)
    | 1, 0 => do .ok (← horizontal, centre, ← vertical)
    | 0, 1 => do .ok (← vertical, centre, ← horizontal)
    | _, _ => do .ok (← diagonal, ← cross, centre)
  let (r, g, b) ← colours
  .ok [Sample.narrow r, Sample.narrow g, Sample.narrow b]

/-- A bilinear demosaic, clamped at the edges. The pixels are written in order,
so the output is what they append. -/
def demosaicBilinear (mosaic : List α) (width height : Nat) (offsets : Nat × Nat) :
    Except Stop (List α) := do
  let pixels ← orPanic (mul width height)
  let _ ← orPanic (mul pixels 3)
  if width = 0 ∨ height = 0 then .ok []
  else
    let row := fun (y : Nat) => do
      let start ← orPanic (mul y width)
      orPanic (slice mosaic start width)
    appendEach (fun y => do
      let above ← row (y - 1)
      let here ← row y
      let below ← row (min (y + 1) (height - 1))
      appendEach (demosaicPixel above here below width offsets.1 ((y + offsets.2) % 2))
        (List.range width)) (List.range height)

end Demosaic

def channel (value : Float32) : UInt8 :=
  let rounded := value.round
  (if rounded < 0 then 0 else if 255 < rounded then 255 else rounded).toUInt8

def ycbcrToRgb (y cb cr : UInt8) : List UInt8 :=
  let luma := y.toFloat32
  let blue := cb.toFloat32 - 128
  let red := cr.toFloat32 - 128
  [channel (luma + 1.402 * red), channel (luma - 0.34414 * blue - 0.71414 * red),
    channel (luma + 1.772 * blue)]

/-- Bytes of a group, the luma offsets, the Cb offset and the Cr offset. -/
def YuvOrder.offsets : YuvOrder → Nat × List Nat × Nat × Nat
  | .yuyv => (4, [0, 2], 1, 3)
  | .uyvy => (4, [1, 3], 0, 2)
  | .uyyvyy => (6, [1, 2, 4, 5], 0, 3)
  | .uyv => (3, [1], 0, 2)
  | .yuv => (3, [0], 1, 2)

/-- The whole chunks of `size` elements, a shorter tail left out. -/
def chunksExact {α : Type} (size : Nat) (source : List α) : List (List α) :=
  (List.range (source.length / size)).map fun i => (source.drop (i * size)).take size

def byteAt (chunk : List UInt8) (i : Nat) : Except Stop UInt8 := orPanic (chunk[i]?)

def yuvGroup (lumas : List Nat) (cb cr : Nat) (chunk : List UInt8) : Except Stop (List UInt8) :=
  appendEach (fun luma => do
    .ok (ycbcrToRgb (← byteAt chunk luma) (← byteAt chunk cb) (← byteAt chunk cr))) lumas

/-- The RGB bytes appended for `pixels` pixels of `src`. -/
def yuvAppend (order : YuvOrder) (pixels : Nat) (src : List UInt8) :
    Except Stop (List UInt8) := do
  let (group, lumas, cb, cr) := order.offsets
  let wanted ← orPanic (mul pixels 3)
  let samples ← appendEach (yuvGroup lumas cb cr) (chunksExact group src)
  .ok (samples.take wanted)

/-- The RGB bytes of one row of interleaved colours. -/
def rgbAppend (order : RgbOrder) (pixels : Nat) (src : List UInt8) :
    Except Stop (List UInt8) :=
  let (r, g, b) := order.indices
  appendEach (fun chunk => do .ok [(← byteAt chunk r), (← byteAt chunk g), (← byteAt chunk b)])
    ((chunksExact order.stride src).take pixels)

def triple {α : Type} (samples : List α) : List α := samples.flatMap fun v => [v, v, v]

/-- The camera's sample values of a single-component format. -/
def unpackU16 (format : PixelFormat) (width height : UInt32) (rowStride : Option Nat)
    (src : List UInt8) : Except Stop (List UInt16) := do
  let rows ← rows format width height rowStride src
  match layout format with
  | some (.mono single) | some (.bayer single _) => unpackRows single rows
  | _ => .error (.error (.unsupported format))

/-- The buffers kept between frames. -/
structure Converter where
  samples : List UInt16
  mosaic : List UInt8
  out : List UInt8

def Converter.new : Converter := ⟨[], [], []⟩

namespace Converter

def gray8 (converter : Converter) (format : PixelFormat) (width height : UInt32)
    (rowStride : Option Nat) (src : List UInt8) : Except Stop (List UInt8 × Converter) :=
  match layout format with
  | some (.mono single) => do
    let rows ← rows format width height rowStride src
    if single.is8Bit then
      let gray ← gather8 rows
      .ok (gray, if rows.count ≤ 1 then converter else { converter with out := gray })
    else
      let samples ← unpackRows single rows
      let gray := samples.map fun v => narrow v single.bits
      .ok (gray, { converter with samples := samples, out := gray })
  | _ => .error (.error (.unsupported format))

/-- The 8-bit mosaic of a Bayer frame, and the buffers after it. -/
def mosaic8 (converter : Converter) (single : Single) (rows : Rows) :
    Except Stop (List UInt8 × Converter) :=
  if single.is8Bit then do
    let mosaic ← gather8 rows
    .ok (mosaic, if rows.count ≤ 1 then converter else { converter with mosaic := mosaic })
  else do
    let samples ← unpackRows single rows
    let mosaic := samples.map fun v => narrow v single.bits
    .ok (mosaic, { converter with samples := samples, mosaic := mosaic })

def rgb8Into (converter : Converter) (format : PixelFormat) (width height : UInt32)
    (rowStride : Option Nat) (src : List UInt8) : Except Stop (List UInt8 × Converter) :=
  match layout format with
  | none => .error (.error (.unsupported format))
  | some layout => do
    let rows ← rows format width height rowStride src
    match layout with
    | .mono single =>
      if single.is8Bit then
        let out ← appendEach (fun y => do
          .ok (triple (← orPanic (slice (← rows.row y) 0 rows.pixels)))) (List.range rows.count)
        .ok (out, converter)
      else
        let samples ← unpackRows single rows
        .ok (triple (samples.map fun v => narrow v single.bits),
          { converter with samples := samples })
    | .bayer single offsets =>
      let (mosaic, after) ← converter.mosaic8 single rows
      let out ← demosaicBilinear mosaic width.toNat height.toNat offsets
      .ok (out, after)
    | .rgb order =>
      let out ← appendEach (fun y => do rgbAppend order rows.pixels (← rows.row y))
        (List.range rows.count)
      .ok (out, converter)
    | .yuv order =>
      let total ← rows.total
      let _ ← orPanic (mul total 3)
      let out ← appendEach (fun y => do yuvAppend order rows.pixels (← rows.row y))
        (List.range rows.count)
      .ok (out, converter)

/-- The frame as 8-bit RGB; one run of `RGB8` is lent back as it is. -/
def rgb8 (converter : Converter) (format : PixelFormat) (width height : UInt32)
    (rowStride : Option Nat) (src : List UInt8) : Except Stop (List UInt8 × Converter) := do
  let lent ←
    if format = .rgb8Packed then do
      let rows ← rows format width height rowStride src
      if rows.count ≤ 1 then
        -- The row's pixels, also where there is no row.
        let bytes ← orPanic (mul rows.pixels 3)
        let run ← orPanic (slice rows.src 0 bytes)
        .ok (some run)
      else .ok none
    else .ok none
  match lent with
  | some run => .ok (run, converter)
  | none => do
    let (out, after) ← converter.rgb8Into format width height rowStride src
    .ok (out, { after with out := out })

end Converter

def toRgb8 (format : PixelFormat) (width height : UInt32) (rowStride : Option Nat)
    (src : List UInt8) : Except Stop (List UInt8) := do
  let (out, _) ← Converter.new.rgb8Into format width height rowStride src
  .ok out

/-- An image at the camera's own depth. -/
inductive Pixels where
  | gray8 (samples : List UInt8)
  | gray16 (samples : List UInt16) (bits : Nat)
  | rgb8 (samples : List UInt8)
  | rgb16 (samples : List UInt16) (bits : Nat)
deriving DecidableEq, Repr

def Pixels.length : Pixels → Nat
  | .gray8 samples => samples.length
  | .gray16 samples _ => samples.length
  | .rgb8 samples => samples.length
  | .rgb16 samples _ => samples.length

def fullDepth (format : PixelFormat) (width height : UInt32) (rowStride : Option Nat)
    (src : List UInt8) : Except Stop Pixels :=
  match layout format with
  | none => .error (.error (.unsupported format))
  | some layout => do
    let rows ← rows format width height rowStride src
    let colour : Except Stop Pixels := do
      let (out, _) ← Converter.new.rgb8Into format width height rowStride src
      .ok (.rgb8 out)
    match layout with
    | .mono single =>
      if single.is8Bit then do
        .ok (.gray8 (← gather8 rows))
      else do
        .ok (.gray16 (← unpackRows single rows) single.bits)
    | .bayer single offsets =>
      if single.is8Bit then colour
      else do
        let samples ← unpackRows single rows
        .ok (.rgb16 (← demosaicBilinear samples width.toNat height.toNat offsets) single.bits)
    | _ => colour

end VivaGenicam.Pixel
