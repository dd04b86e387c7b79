import VivaGenicam.Library.Bytes
import VivaGenicam.Studio.Raster

/-!
What the viewer measures in a BMP file: the decoder, the pixel under the pointer, the
histogram and the profile of a line. Each reads the headers and finds the rows on its own.
A reader returns `none` where it would read outside the file, and some result or null else.
-/

namespace VivaGenicam.Studio

open Library.Bytes Library.Tally

/-- What the bitwise operators make of a whole number. -/
def toInt32 (n : Int) : Int := n.bmod (2 ^ 32)

/-- `n & ~3`. -/
def alignDown (n : Int) : Int := toInt32 n / 4 * 4

/-- `Math.round`. -/
def mathRound (v : ℚ) : Int := ⌊v + 1 / 2⌋

/-- `Math.max(0, Math.min(Math.round(v), side - 1))`. -/
def clampCoordinate (v : ℚ) (side : Int) : Int := max 0 (min (mathRound v) (side - 1))

def readByte (bytes : List UInt8) (i : Int) : Option UInt8 :=
  if i < 0 then none else bytes[i.toNat]?

/-- `getInt32`. -/
def readI32LE (bytes : List UInt8) (offset : Nat) : Int := toInt32 (fieldLE bytes offset 4)

inductive PixelSample where
  | mono (value : Nat)
  | rgb (r g b : Nat)
deriving DecidableEq, Repr

/-- The bins of each channel. -/
inductive HistogramData where
  | mono (values : List Nat)
  | rgb (r g b : List Nat)
deriving DecidableEq, Repr

inductive ProfileData where
  | mono (values : List Nat) (length : Nat)
  | rgb (r g b : List Nat) (length : Nat)
deriving DecidableEq, Repr

def readBgr (bytes : List UInt8) (base : Int) : Option PixelSample := do
  let r ← readByte bytes (base + 2)
  let g ← readByte bytes (base + 1)
  let b ← readByte bytes base
  some (.rgb r.toNat g.toNat b.toNat)

structure Decoded where
  width : Int
  height : Int
  /-- Red, green, blue and 255 of each pixel, row by row. -/
  data : List UInt8
deriving DecidableEq, Repr

def decodePixel (bytes : List UInt8) (bitsPerPixel paletteOffset : Nat) (row : Int) (x : Nat) :
    Option (List UInt8) := do
  let src : Int ←
    if bitsPerPixel = 8 then
      (readByte bytes (row + x)).map fun index => (paletteOffset : Int) + index.toNat * 4
    else some (row + x * 3)
  let r ← readByte bytes (src + 2)
  let g ← readByte bytes (src + 1)
  let b ← readByte bytes src
  some [r, g, b, 255]

def decodeBmp (bytes : List UInt8) : Option (Option Decoded) :=
  if bytes.length < 54 ∨ bytes.take 2 ≠ [0x42, 0x4D] then some none
  else
    let dataOffset := fieldLE bytes 10 4
    let headerSize := fieldLE bytes 14 4
    let width := readI32LE bytes 18
    let signedHeight := readI32LE bytes 22
    let bitsPerPixel := fieldLE bytes 28 2
    let compression := fieldLE bytes 30 4
    if width ≤ 0 ∨ signedHeight = 0 ∨ compression ≠ 0 then some none
    else if bitsPerPixel ≠ 8 ∧ bitsPerPixel ≠ 24 then some none
    else
      let height := |signedHeight|
      let rowStride := alignDown (width * bitsPerPixel / 8 + 3)
      if dataOffset + rowStride * height > bytes.length then some none
      else
        let paletteOffset := 14 + headerSize
        if bitsPerPixel = 8 ∧ paletteOffset + 256 * 4 > dataOffset then some none
        else do
          let rows ← (List.range height.toNat).mapM fun y : Nat =>
            let line : Int := if signedHeight < 0 then y else height - 1 - y
            let row := dataOffset + line * rowStride
            (List.range width.toNat).mapM (decodePixel bytes bitsPerPixel paletteOffset row)
          some (some ⟨width, height, rows.flatten.flatten⟩)

/-- The size is the caller's, and the data's offset is signed. -/
def samplePixel (bytes : List UInt8) (x y imgW imgH : Int) : Option (Option PixelSample) :=
  if x < 0 ∨ y < 0 ∨ x ≥ imgW ∨ y ≥ imgH then some none
  else if bytes.length < 54 then some none
  else
    let dataOffset := readI32LE bytes 10
    let bitsPerPixel := fieldLE bytes 28 2
    if bitsPerPixel = 8 then
      let idx := dataOffset + y * alignDown (imgW + 3) + x
      if idx ≥ bytes.length then some none
      else (readByte bytes idx).map fun value => some (.mono value.toNat)
    else if bitsPerPixel = 24 then
      let base := dataOffset + y * alignDown (imgW * 3 + 3) + x * 3
      if base + 2 ≥ bytes.length then some none
      else (readBgr bytes base).map some
    else some none

/-- Walk the pixels row by row, each row up to the first pixel that is not inside. -/
def eachPixel {β : Type} (w h : Nat) (inside : Nat → Nat → Bool)
    (step : β → Nat → Nat → Option β) (start : β) : Option β :=
  (List.range h).foldlM (fun found y =>
    ((List.range w).takeWhile (inside · y)).foldlM (fun found x => step found x y) found) start

def countMono (bytes : List UInt8) (dataOffset rowStride : Int) (values : List Nat) (x y : Nat) :
    Option (List Nat) :=
  (readByte bytes (dataOffset + y * rowStride + x)).map fun value => bump values value.toNat

def countRgb (bytes : List UInt8) (dataOffset rowStride : Int)
    (bins : List Nat × List Nat × List Nat) (x y : Nat) :
    Option (List Nat × List Nat × List Nat) := do
  let base := dataOffset + y * rowStride + x * 3
  let b ← readByte bytes base
  let g ← readByte bytes (base + 1)
  let r ← readByte bytes (base + 2)
  some (bump bins.1 r.toNat, bump bins.2.1 g.toNat, bump bins.2.2 b.toNat)

def computeHistogram (bytes : List UInt8) : Option (Option HistogramData) :=
  if bytes.length < 54 then some none
  else
    let dataOffset : Int := fieldLE bytes 10 4
    let w := (readI32LE bytes 18).natAbs
    let h := (readI32LE bytes 22).natAbs
    let bitsPerPixel := fieldLE bytes 28 2
    if w = 0 ∨ h = 0 then some none
    else if bitsPerPixel = 8 then
      let rowStride := alignDown (w + 3)
      let inside := fun x y : Nat => decide (dataOffset + y * rowStride + x < bytes.length)
      (eachPixel w h inside (countMono bytes dataOffset rowStride) (List.replicate 256 0)).map
        fun values => some (.mono values)
    else if bitsPerPixel = 24 then
      let rowStride := alignDown (w * 3 + 3)
      let inside := fun x y : Nat =>
        decide (dataOffset + y * rowStride + x * 3 + 2 < bytes.length)
      let blank := List.replicate 256 0
      (eachPixel w h inside (countRgb bytes dataOffset rowStride) (blank, blank, blank)).map
        fun bins => some (.rgb bins.1 bins.2.1 bins.2.2)
    else some none

/-- A grey pixel, or 0 behind the end of the file. -/
def profileMono (bytes : List UInt8) (dataOffset rowStride : Int) (p : ImagePoint) :
    Option Nat :=
  let idx := dataOffset + p.y * rowStride + p.x
  if idx < bytes.length then (readByte bytes idx).map UInt8.toNat else some 0

def profileRgb (bytes : List UInt8) (dataOffset rowStride : Int) (p : ImagePoint) :
    Option (Nat × Nat × Nat) :=
  let base := dataOffset + p.y * rowStride + p.x * 3
  if base + 2 < bytes.length then do
    let b ← readByte bytes base
    let g ← readByte bytes (base + 1)
    let r ← readByte bytes (base + 2)
    some (r.toNat, g.toNat, b.toNat)
  else some (0, 0, 0)

/-- The profile between two points, when `rounds` are enough to walk the line. -/
def sampleLineProfile (rounds : Nat) (bytes : List UInt8) (x0 y0 x1 y1 : ℚ) :
    Option (Option ProfileData) :=
  if bytes.length < 54 then some none
  else
    let dataOffset : Int := fieldLE bytes 10 4
    let imgW := |readI32LE bytes 18|
    let imgH := |readI32LE bytes 22|
    let bitsPerPixel := fieldLE bytes 28 2
    if imgW = 0 ∨ imgH = 0 then some none
    else do
      let pixels ← bresenhamLine rounds (clampCoordinate x0 imgW) (clampCoordinate y0 imgH)
        (clampCoordinate x1 imgW) (clampCoordinate y1 imgH)
      if bitsPerPixel = 8 then do
        let values ← pixels.mapM (profileMono bytes dataOffset (alignDown (imgW + 3)))
        some (some (.mono values pixels.length))
      else if bitsPerPixel = 24 then do
        let values ← pixels.mapM (profileRgb bytes dataOffset (alignDown (imgW * 3 + 3)))
        some (some (.rgb (values.map Prod.fst) (values.map (·.2.1)) (values.map (·.2.2))
          pixels.length))
      else some none

end VivaGenicam.Studio
