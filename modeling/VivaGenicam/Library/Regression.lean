import Mathlib.Algebra.Order.Field.Basic
import Mathlib.Algebra.Order.Ring.Abs
import Mathlib.Data.List.Basic
import Mathlib.Tactic

/-!
A line through points: how far the arguments spread around a value, and what the least
squares make of points that lie on one line.
-/

namespace Library.Regression

variable {K : Type*} [Field K]

/-- The point's second coordinate is the line's value at its first. -/
def OnLine (slope intercept : K) (points : List (K × K)) : Prop :=
  ∀ point ∈ points, point.2 = slope * point.1 + intercept

/-- The squared distances of the first coordinates from a value. -/
def spread (center : K) (points : List (K × K)) : K :=
  (points.map fun point => (point.1 - center) * (point.1 - center)).sum

/-- How the coordinates move together around a pair of values. -/
def comovement (center : K × K) (points : List (K × K)) : K :=
  (points.map fun point => (point.1 - center.1) * (point.2 - center.2)).sum

variable {slope intercept : K} {points : List (K × K)}

theorem OnLine.mono {others : List (K × K)}
    (h : OnLine slope intercept points) (hsub : ∀ point ∈ others, point ∈ points) :
    OnLine slope intercept others :=
  fun point hpoint => h point (hsub point hpoint)

theorem OnLine.tail {slope intercept : K} {point : K × K} {points : List (K × K)}
    (h : OnLine slope intercept (point :: points)) : OnLine slope intercept points :=
  h.mono fun _ hpoint => List.mem_cons_of_mem _ hpoint

theorem OnLine.sum_snd (h : OnLine slope intercept points) :
    (points.map Prod.snd).sum =
      slope * (points.map Prod.fst).sum + points.length * intercept := by
  induction points with
  | nil => simp
  | cons point points ih =>
    simp only [List.map_cons, List.sum_cons, List.length_cons, Nat.cast_add, Nat.cast_one]
    rw [ih h.tail, h point List.mem_cons_self]
    ring

/-- The means of points on a line are on the line too. -/
theorem OnLine.mean (h : OnLine slope intercept points) (hlength : (points.length : K) ≠ 0) :
    (points.map Prod.snd).sum / points.length =
      slope * ((points.map Prod.fst).sum / points.length) + intercept := by
  rw [h.sum_snd]
  field_simp

/-- Points on a line move together by the slope, around any of its points. -/
theorem OnLine.comovement_eq (h : OnLine slope intercept points) (center : K) :
    comovement (center, slope * center + intercept) points = slope * spread center points := by
  induction points with
  | nil => simp [comovement, spread]
  | cons point points ih =>
    have htail := ih h.tail
    simp only [comovement, spread, List.map_cons, List.sum_cons] at htail ⊢
    rw [htail, h point List.mem_cons_self]
    ring

theorem spread_eq_zero {value : K}
    (h : ∀ point ∈ points, point.1 = value) : spread value points = 0 := by
  apply List.sum_eq_zero
  intro square hsquare
  obtain ⟨point, hpoint, rfl⟩ := List.mem_map.mp hsquare
  rw [h point hpoint, sub_self, mul_zero]

section Ordered

variable [LinearOrder K] [IsStrictOrderedRing K]

theorem le_spread {point : K × K} (h : point ∈ points) (center : K) :
    (point.1 - center) * (point.1 - center) ≤ spread center points := by
  apply List.single_le_sum
  · intro value hvalue
    obtain ⟨other, -, rfl⟩ := List.mem_map.mp hvalue
    exact mul_self_nonneg _
  · exact List.mem_map.mpr ⟨point, h, rfl⟩

/-- Two points share their distance at best: half its square is spread. -/
theorem half_square_le_spread {point other : K × K} {points : List (K × K)}
    (hpoint : point ∈ points) (hother : other ∈ points) (hne : point.1 ≠ other.1)
    (center : K) :
    (point.1 - other.1) * (point.1 - other.1) / 2 ≤ spread center points := by
  have hshared : (point.1 - other.1) * (point.1 - other.1) / 2 ≤
      (point.1 - center) * (point.1 - center) + (other.1 - center) * (other.1 - center) := by
    have hsquare := mul_self_nonneg (point.1 + other.1 - 2 * center)
    linarith
  induction points with
  | nil => cases hpoint
  | cons head points ih =>
    have hcons : spread center (head :: points) =
        (head.1 - center) * (head.1 - center) + spread center points := by
      simp [spread]
    have hhead := mul_self_nonneg (head.1 - center)
    rcases List.mem_cons.mp hpoint with rfl | htail
    · rcases List.mem_cons.mp hother with rfl | hother
      · exact absurd rfl hne
      · have hle := le_spread hother center
        linarith
    · rcases List.mem_cons.mp hother with rfl | hother
      · have hle := le_spread htail center
        linarith
      · have hle := ih htail hother
        linarith

theorem mean_eq {value : K} (hpoints : points ≠ []) (h : ∀ point ∈ points, point.1 = value) :
    (points.map Prod.fst).sum / points.length = value := by
  have hall : points.map Prod.fst = List.replicate points.length value := by
    rw [List.eq_replicate_iff]
    refine ⟨List.length_map _, ?_⟩
    intro first hfirst
    obtain ⟨point, hpoint, rfl⟩ := List.mem_map.mp hfirst
    exact h point hpoint
  have hlength : (points.length : K) ≠ 0 := by
    exact_mod_cast (List.length_pos_iff.mpr hpoints).ne'
  rw [hall, List.sum_replicate, nsmul_eq_mul]
  field_simp

end Ordered

end Library.Regression
