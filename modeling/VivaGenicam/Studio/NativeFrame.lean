import VivaGenicam.GenapiXml.Text
import VivaGenicam.Studio.Image

/-!
A frozen frame: the samples at the camera's own depth beside the file that is shown. What is
accepted of a capture, and what is measured in it.
-/

namespace VivaGenicam.Studio

open Library.Bytes Library.Tally
open GenapiXml (Text)

def maxPixels : Nat := 16 * 1024 * 1024

def maxResponseBytes : Nat := 256 * 1024 * 1024

/-- What a capture's JSON header may hold more than its metadata. -/
def maxHeaderBytes : Nat := 65536 + 4096

/-- A value of the JSON header; a missing one is null. -/
inductive HeaderValue where
  | null
  | number (value : ℚ)
  | bool (value : Bool)
  | text (value : Text)
  /-- An array or an object. -/
  | other

structure CaptureHeader (μ : Type) where
  version : HeaderValue
  width : HeaderValue
  height : HeaderValue
  bits : HeaderValue
  channels : HeaderValue
  mosaic : HeaderValue
  pixelFormat : HeaderValue
  bmpBytes : HeaderValue
  sampleBytes : HeaderValue
  pngBytes : HeaderValue
  /-- `none` if there is none, and a reader's refusal of what there is. -/
  metadata : Option (Except String μ)

/-- A positive integer that a double holds exactly. -/
def integer : HeaderValue → Option Nat
  | .number value =>
    if value.den = 1 ∧ 0 < value ∧ value ≤ 2 ^ 53 - 1 then some value.num.toNat else none
  | _ => none

/-- `length` counts UTF-16 units. -/
def utf16Length (text : Text) : Nat :=
  (text.map fun c => if c.toNat < 0x10000 then 1 else 2).sum

/-- The header's fields, where it is one that is supported. -/
structure CaptureFields where
  width : Nat
  height : Nat
  bits : Nat
  channels : Nat
  mosaic : Bool
  pixelFormat : Text
  bmpBytes : Nat
  sampleBytes : Nat
  pngBytes : Nat

def CaptureFields.expected (h : CaptureFields) : Nat :=
  h.width * h.height * h.channels * (if h.bits > 8 then 2 else 1)

def channelCount : HeaderValue → Option Nat
  | .number value => if value = 1 then some 1 else if value = 3 then some 3 else none
  | _ => none

def isBoolean : HeaderValue → Option Bool
  | .bool value => some value
  | _ => none

def formatName : HeaderValue → Option Text
  | .text value => if utf16Length value > 128 then none else some value
  | _ => none

def isVersion : HeaderValue → Bool
  | .number value => value = 1
  | _ => false

def CaptureHeader.fields {μ : Type} (h : CaptureHeader μ) : Option CaptureFields := do
  let width ← integer h.width
  let height ← integer h.height
  let bits ← integer h.bits
  let channels ← channelCount h.channels
  let mosaic ← isBoolean h.mosaic
  let pixelFormat ← formatName h.pixelFormat
  let bmpBytes ← integer h.bmpBytes
  let sampleBytes ← integer h.sampleBytes
  let pngBytes ← integer h.pngBytes
  if isVersion h.version ∧ width * height ≤ maxPixels ∧ 8 ≤ bits ∧ bits ≤ 16 then
    some ⟨width, height, bits, channels, mosaic, pixelFormat, bmpBytes, sampleBytes, pngBytes⟩
  else none

structure NativeFrame (μ : Type) where
  metadata : Option μ
  width : Nat
  height : Nat
  pixelFormat : Text
  bits : Nat
  channels : Nat
  mosaic : Bool
  bmp : List UInt8
  png : List UInt8
  samples : List Nat

/-- The samples of a capture, one byte each or two. -/
def captureSamples (bytes : List UInt8) (bits count : Nat) : List Nat :=
  if bits > 8 then (List.range count).map fun i => fieldLE bytes (i * 2) 2
  else (bytes.take count).map UInt8.toNat

/-- What a capture must begin with to be an image of a size. -/
def previewFits (bmp : List UInt8) (width height : Nat) : Bool :=
  54 ≤ bmp.length ∧ bmp.take 2 = [0x42, 0x4D] ∧ readI32LE bmp 18 = width ∧
    |readI32LE bmp 22| = height

/-- Accept a capture, or say why not. `readHeader` decodes and parses the JSON header. -/
def parseNativeFrame {μ : Type} (readHeader : List UInt8 → Except String (CaptureHeader μ))
    (bytes : List UInt8) : Except String (NativeFrame μ) :=
  if bytes.length > maxResponseBytes then .error "Native capture exceeds 256 MiB"
  else if bytes.length < 8 ∨ bytes.take 4 ≠ [0x56, 0x52, 0x41, 0x57] then
    .error "Invalid native capture signature"
  else
    let headerLength := fieldLE bytes 4 4
    if headerLength < 2 ∨ headerLength > maxHeaderBytes ∨ 8 + headerLength > bytes.length then
      .error "Invalid native capture header"
    else
      match readHeader ((bytes.drop 8).take headerLength) with
      | .error error => .error error
      | .ok header =>
        match header.fields with
        | none => .error "Unsupported native capture metadata"
        | some h =>
          if h.sampleBytes ≠ h.expected ∨
              8 + headerLength + h.bmpBytes + h.expected + h.pngBytes ≠ bytes.length then
            .error "Native capture length mismatch"
          else
            let bmp := (bytes.drop (8 + headerLength)).take h.bmpBytes
            if previewFits bmp h.width h.height = false then
              .error "Native capture preview geometry mismatch"
            else
              let samples := captureSamples (bytes.drop (8 + headerLength + h.bmpBytes)) h.bits
                (h.width * h.height * h.channels)
              if samples.any (· > 2 ^ h.bits - 1) then
                .error "Native sample exceeds its bit depth"
              else
                let png := bytes.drop (8 + headerLength + h.bmpBytes + h.expected)
                if png.length < 8 ∨ png.take 4 ≠ [0x89, 0x50, 0x4E, 0x47] then
                  .error "Invalid native PNG"
                else
                  header.metadata.elim (.ok none) (·.map some) |>.map fun metadata =>
                    ⟨metadata, h.width, h.height, h.pixelFormat, h.bits, h.channels, h.mosaic, bmp,
                      png, samples⟩

namespace NativeFrame

variable {μ : Type} (frame : NativeFrame μ)

def sampleNativePixel (x y : ℚ) : Option (Option PixelSample) :=
  if x.den ≠ 1 ∨ y.den ≠ 1 ∨ x < 0 ∨ y < 0 ∨ x ≥ frame.width ∨ y ≥ frame.height then some none
  else
    let start := (y.num.toNat * frame.width + x.num.toNat) * frame.channels
    if frame.channels = 1 then (frame.samples[start]?).map fun value => some (.mono value)
    else do
      let r ← frame.samples[start]?
      let g ← frame.samples[start + 1]?
      let b ← frame.samples[start + 2]?
      some (some (.rgb r g b))

def countSample (channels : List (List Nat)) (sample : Nat × Nat) : List (List Nat) :=
  channels.modify (sample.2 % frame.channels) fun bins => bump bins sample.1

def nativeHistogram : HistogramData :=
  let channels := frame.samples.zipIdx.foldl frame.countSample
    (List.replicate frame.channels (List.replicate (2 ^ frame.bits) 0))
  if frame.channels = 1 then .mono (channels.getD 0 [])
  else .rgb (channels.getD 0 []) (channels.getD 1 []) (channels.getD 2 [])

def nativeChannel (points : List ImagePoint) (c : Nat) : Option (List Nat) :=
  points.mapM fun p =>
    frame.samples[(p.y.toNat * frame.width + p.x.toNat) * frame.channels + c]?

def nativeLineProfile (rounds : Nat) (x0 y0 x1 y1 : ℚ) : Option ProfileData := do
  let points ← bresenhamLine rounds (clampCoordinate x0 frame.width)
    (clampCoordinate y0 frame.height) (clampCoordinate x1 frame.width)
    (clampCoordinate y1 frame.height)
  if frame.channels = 1 then
    (frame.nativeChannel points 0).map fun values => .mono values points.length
  else do
    let r ← frame.nativeChannel points 0
    let g ← frame.nativeChannel points 1
    let b ← frame.nativeChannel points 2
    some (.rgb r g b points.length)

end NativeFrame

end VivaGenicam.Studio
