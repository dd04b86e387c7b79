import VivaGenicam.Studio.Measure

/-!
An image, and what is to be measured in it: its pixels, how often each value occurs in each
channel, and the values along a line between the pixels nearest to two points.
-/

namespace VivaGenicam.Studio

open Library.Tally

/-- An image of one or of three channels, row by row. -/
structure Image where
  width : Nat
  height : Nat
  colour : Bool
  samples : List Nat
  size : samples.length = width * height * (if colour then 3 else 1)

/-- Red, green, blue and 255, as a pixel of 8 bits is drawn. -/
def PixelSample.rgba : PixelSample → List UInt8
  | .mono value => [.ofNat value, .ofNat value, .ofNat value, 255]
  | .rgb r g b => [.ofNat r, .ofNat g, .ofNat b, 255]

/-- The columns and rows of an image, row by row. -/
def places (w h : Nat) : List (Nat × Nat) :=
  (List.range h).flatMap fun y => (List.range w).map fun x => (x, y)

namespace Image

variable (image : Image)

def channels : Nat := if image.colour then 3 else 1

def component (c x y : Nat) : Nat :=
  image.samples.getD ((y * image.width + x) * image.channels + c) 0

def pixel (x y : Nat) : PixelSample :=
  if image.colour then .rgb (image.component 0 x y) (image.component 1 x y) (image.component 2 x y)
  else .mono (image.component 0 x y)

def picture : List UInt8 :=
  (places image.width image.height).flatMap fun place => (image.pixel place.1 place.2).rgba

def channel (c : Nat) : List Nat :=
  (places image.width image.height).map fun place => image.component c place.1 place.2

def histogram (bins : Nat) : HistogramData :=
  if image.colour then .rgb (counts bins (image.channel 0)) (counts bins (image.channel 1))
    (counts bins (image.channel 2))
  else .mono (counts bins (image.channel 0))

def along (line : List ImagePoint) (c : Nat) : List Nat :=
  line.map fun p => image.component c p.x.toNat p.y.toNat

def profile (line : List ImagePoint) : ProfileData :=
  if image.colour then .rgb (image.along line 0) (image.along line 1) (image.along line 2) line.length
  else .mono (image.along line 0) line.length

/-- The line between the pixels nearest to two points. -/
def line (rounds : Nat) (x0 y0 x1 y1 : ℚ) : Option (List ImagePoint) :=
  bresenhamLine rounds (clampCoordinate x0 image.width) (clampCoordinate y0 image.height)
    (clampCoordinate x1 image.width) (clampCoordinate y1 image.height)

end Image

/-- Three readers that measure an image: its pixels, and none outside; how often each value
occurs; and every line, which is walked within as many rounds as the image is long. -/
structure Measures (image : Image) (bins : Nat)
    (sample : Int → Int → Option (Option PixelSample)) (histogram : Option (Option HistogramData))
    (profile : Nat → ℚ → ℚ → ℚ → ℚ → Option (Option ProfileData)) : Prop where
  inside : ∀ x y : Nat, x < image.width → y < image.height →
    sample x y = some (some (image.pixel x y))
  outside : ∀ x y : Int, x < 0 ∨ y < 0 ∨ x ≥ image.width ∨ y ≥ image.height →
    sample x y = some none
  histogram : histogram = some (some (image.histogram bins))
  profile : ∀ x0 y0 x1 y1 rounds, max image.width image.height ≤ rounds → ∃ line,
    image.line rounds x0 y0 x1 y1 = some line ∧
    profile rounds x0 y0 x1 y1 = some (some (image.profile line))

theorem alignDown_eq {n : Int} (hn : 0 ≤ n) (hsmall : n < 2 ^ 31) : alignDown n = n / 4 * 4 := by
  rw [alignDown, toInt32, Int.bmod_eq_of_le (by omega) (by omega)]

theorem clampCoordinate_bounds {v : ℚ} {side : Int} (hside : 0 < side) :
    0 ≤ clampCoordinate v side ∧ clampCoordinate v side < side := by
  unfold clampCoordinate
  omega

theorem exists_bresenhamLine {w h : Nat} (hwide : 0 < w) (htall : 0 < h) {rounds : Nat}
    (hrounds : max w h ≤ rounds) (x0 y0 x1 y1 : ℚ) :
    ∃ line, bresenhamLine rounds (clampCoordinate x0 w) (clampCoordinate y0 h)
        (clampCoordinate x1 w) (clampCoordinate y1 h) = some line ∧
      ∀ p ∈ line, (0 ≤ p.x ∧ p.x < w) ∧ 0 ≤ p.y ∧ p.y < h := by
  have hx0 := @clampCoordinate_bounds x0 w (by omega)
  have hy0 := @clampCoordinate_bounds y0 h (by omega)
  have hx1 := @clampCoordinate_bounds x1 w (by omega)
  have hy1 := @clampCoordinate_bounds y1 h (by omega)
  generalize clampCoordinate x0 w = a at hx0
  generalize clampCoordinate y0 h = b at hy0
  generalize clampCoordinate x1 w = c at hx1
  generalize clampCoordinate y1 h = d at hy1
  have hspan : max |c - a| |d - b| < rounds := by
    rw [max_lt_iff, abs_lt, abs_lt]
    omega
  refine ⟨_, bresenhamLine_eq hspan, fun p hp => ?_⟩
  obtain ⟨k, hk, rfl⟩ := mem_linePixels hp
  have hreached := reached hk
  have hx := between hreached.x.1 hreached.x.2
  have hy := between hreached.y.1 hreached.y.2
  rw [← lineWalk_x] at hx
  rw [← lineWalk_y] at hy
  simp only [LineWalk.point]
  omega

end VivaGenicam.Studio
