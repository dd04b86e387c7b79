import VivaGenicam.Library.Loops

/-!
The raster path of a line profile: the pixels that Bresenham's algorithm visits between two
pixels. The error term ties the steps along both axes to the line; the longer axis moves
in every round, so the end is met.
-/

namespace VivaGenicam.Studio

open Library.Until

structure ImagePoint where
  x : Int
  y : Int
deriving DecidableEq, Repr

/-- The variables of the loop. -/
structure LineWalk where
  x : Int
  y : Int
  err : Int
deriving DecidableEq

def LineWalk.point (walk : LineWalk) : ImagePoint := ⟨walk.x, walk.y⟩

def bresenhamStep (dx dy sx sy : Int) (walk : LineWalk) : LineWalk :=
  let e2 := 2 * walk.err
  let walk := if e2 > -dy then { walk with err := walk.err - dy, x := walk.x + sx } else walk
  if e2 < dx then { walk with err := walk.err + dx, y := walk.y + sy } else walk

/-- The sign of the steps from `a` to `b`. -/
def direction (a b : Int) : Int := if a < b then 1 else -1

/-- The path between two pixels of integer coordinates, which `Math.round` leaves as they
are, when `rounds` are enough to reach its end. -/
def bresenhamLine (rounds : Nat) (x0 y0 x1 y1 : Int) : Option (List ImagePoint) :=
  let dx := |x1 - x0|
  let dy := |y1 - y0|
  let sx := direction x0 x1
  let sy := direction y0 y1
  (collect (fun walk : LineWalk => walk.x = x1 ∧ walk.y = y1) (bresenhamStep dx dy sx sy) rounds
    ⟨x0, y0, dx - dy⟩).map (List.map LineWalk.point)

/-- The loop's variables after `k` rounds. -/
def lineWalk (x0 y0 x1 y1 : Int) (k : Nat) : LineWalk :=
  (bresenhamStep |x1 - x0| |y1 - y0| (direction x0 x1) (direction y0 y1))^[k]
    ⟨x0, y0, |x1 - x0| - |y1 - y0|⟩

/-- After `k` rounds, `i` steps along x and `j` along y: the error term measures how far
the pixel is from the line, which is at most half a pixel along the shorter axis. -/
structure OnLine (dx dy : Int) (k : Nat) (i j err : Int) : Prop where
  err_eq : err = dx * (j + 1) - dy * (i + 1)
  wide : dy ≤ dx → i = k
  tall : dx < dy → j = k
  near : |2 * (dx * j - dy * i)| ≤ max dx dy
  diagonal : dx = dy → dx * j - dy * i = 0

namespace OnLine

variable {dx dy i j err : Int} {k : Nat}

theorem zero (hdx : 0 ≤ dx) : OnLine dx dy 0 0 0 (dx - dy) where
  err_eq := by ring
  wide _ := rfl
  tall _ := rfl
  near := by simpa using Or.inl hdx
  diagonal _ := by ring

theorem step (h : OnLine dx dy k i j err) (hdx : 0 ≤ dx) (hdy : 0 ≤ dy) (hlong : 0 < max dx dy) :
    OnLine dx dy (k + 1) (if 2 * err > -dy then i + 1 else i) (if 2 * err < dx then j + 1 else j)
      ((if 2 * err > -dy then err - dy else err) + if 2 * err < dx then dx else 0) := by
  obtain ⟨herr, hwide, htall, hnear, hdiagonal⟩ := h
  have hx : dy * (i + 1) = dy * i + dy := by ring
  have hy : dx * (j + 1) = dx * j + dx := by ring
  have hx' : dy * (i + 1 + 1) = dy * i + dy + dy := by ring
  have hy' : dx * (j + 1 + 1) = dx * j + dx + dx := by ring
  rw [hx, hy] at herr
  rw [abs_le] at hnear
  constructor
  · split_ifs <;> omega
  · intro hle
    rw [if_pos (by omega)]
    have := hwide hle
    push_cast
    omega
  · intro hlt
    rw [if_pos (by omega)]
    have := htall hlt
    push_cast
    omega
  · rw [abs_le]
    split_ifs <;> omega
  · intro heq
    have := hdiagonal heq
    rw [if_pos (by omega), if_pos (by omega), hx, hy]
    omega

theorem bounds (h : OnLine dx dy k i j err) (hdx : 0 ≤ dx) (hdy : 0 ≤ dy) (hlong : 0 < max dx dy)
    (hk : (k : Int) ≤ max dx dy) : 0 ≤ i ∧ i ≤ dx ∧ 0 ≤ j ∧ j ≤ dy := by
  have hnear := abs_le.mp h.near
  rcases le_or_gt dy dx with hle | hlt
  · have hi := h.wide hle
    rw [max_eq_left hle] at hk hnear hlong
    refine ⟨by omega, by omega, ?_, ?_⟩
    · by_contra hneg
      nlinarith
    · by_contra hbeyond
      nlinarith
  · have hj := h.tall hlt
    rw [max_eq_right hlt.le] at hk hnear hlong
    refine ⟨?_, ?_, by omega, by omega⟩
    · by_contra hneg
      nlinarith
    · by_contra hbeyond
      nlinarith

theorem ends (h : OnLine dx dy k i j err) (hdx : 0 ≤ dx) (hdy : 0 ≤ dy) (hlong : 0 < max dx dy)
    (hk : (k : Int) = max dx dy) : i = dx ∧ j = dy := by
  have hnear := abs_le.mp h.near
  have hbounds := h.bounds hdx hdy hlong hk.le
  rcases le_or_gt dy dx with hle | hlt
  · have hi := h.wide hle
    rw [max_eq_left hle] at hk hnear hlong
    obtain rfl : i = dx := by omega
    refine ⟨rfl, ?_⟩
    by_contra hne
    have hlt : j + 1 ≤ dy := by omega
    nlinarith
  · have hj := h.tall hlt
    rw [max_eq_right hlt.le] at hk hnear hlong
    obtain rfl : j = dy := by omega
    refine ⟨?_, rfl⟩
    by_contra hne
    have hlt : i + 1 ≤ dx := by omega
    nlinarith

end OnLine

theorem bresenhamStep_x (dx dy sx sy : Int) (walk : LineWalk) :
    (bresenhamStep dx dy sx sy walk).x =
      if 2 * walk.err > -dy then walk.x + sx else walk.x := by
  unfold bresenhamStep
  dsimp only
  split_ifs <;> rfl

theorem bresenhamStep_y (dx dy sx sy : Int) (walk : LineWalk) :
    (bresenhamStep dx dy sx sy walk).y =
      if 2 * walk.err < dx then walk.y + sy else walk.y := by
  unfold bresenhamStep
  dsimp only
  split_ifs <;> rfl

theorem bresenhamStep_err (dx dy sx sy : Int) (walk : LineWalk) :
    (bresenhamStep dx dy sx sy walk).err =
      (if 2 * walk.err > -dy then walk.err - dy else walk.err) +
        if 2 * walk.err < dx then dx else 0 := by
  unfold bresenhamStep
  dsimp only
  split_ifs <;> simp

theorem direction_mul_self (a b : Int) : direction a b * direction a b = 1 := by
  unfold direction
  split <;> rfl

theorem direction_mul_abs (a b : Int) : direction a b * |b - a| = b - a := by
  unfold direction
  split
  · rename_i hlt
    rw [abs_of_pos (by omega), one_mul]
  · rename_i hge
    rw [abs_of_nonpos (by omega)]
    ring

section

variable (x0 y0 x1 y1 : Int)

theorem lineWalk_succ (k : Nat) :
    lineWalk x0 y0 x1 y1 (k + 1) =
      bresenhamStep |x1 - x0| |y1 - y0| (direction x0 x1) (direction y0 y1)
        (lineWalk x0 y0 x1 y1 k) :=
  Function.iterate_succ_apply' ..

/-- How many steps along each axis were taken. -/
def stepsX (k : Nat) : Int := direction x0 x1 * ((lineWalk x0 y0 x1 y1 k).x - x0)

def stepsY (k : Nat) : Int := direction y0 y1 * ((lineWalk x0 y0 x1 y1 k).y - y0)

theorem lineWalk_x (k : Nat) :
    (lineWalk x0 y0 x1 y1 k).x = x0 + direction x0 x1 * stepsX x0 y0 x1 y1 k := by
  rw [stepsX, ← mul_assoc, direction_mul_self]
  ring

theorem lineWalk_y (k : Nat) :
    (lineWalk x0 y0 x1 y1 k).y = y0 + direction y0 y1 * stepsY x0 y0 x1 y1 k := by
  rw [stepsY, ← mul_assoc, direction_mul_self]
  ring

theorem stepsX_succ (k : Nat) :
    stepsX x0 y0 x1 y1 (k + 1) =
      if 2 * (lineWalk x0 y0 x1 y1 k).err > -|y1 - y0| then stepsX x0 y0 x1 y1 k + 1
      else stepsX x0 y0 x1 y1 k := by
  unfold stepsX
  rw [lineWalk_succ, bresenhamStep_x]
  split
  · have := direction_mul_self x0 x1
    linear_combination this
  · rfl

theorem stepsY_succ (k : Nat) :
    stepsY x0 y0 x1 y1 (k + 1) =
      if 2 * (lineWalk x0 y0 x1 y1 k).err < |x1 - x0| then stepsY x0 y0 x1 y1 k + 1
      else stepsY x0 y0 x1 y1 k := by
  unfold stepsY
  rw [lineWalk_succ, bresenhamStep_y]
  split
  · have := direction_mul_self y0 y1
    linear_combination this
  · rfl

variable {x0 y0 x1 y1} (hlong : 0 < max |x1 - x0| |y1 - y0|)
include hlong

theorem onLine_lineWalk (k : Nat) :
    OnLine |x1 - x0| |y1 - y0| k (stepsX x0 y0 x1 y1 k) (stepsY x0 y0 x1 y1 k)
      (lineWalk x0 y0 x1 y1 k).err := by
  induction k with
  | zero =>
    have hzero : OnLine |x1 - x0| |y1 - y0| 0 0 0 (|x1 - x0| - |y1 - y0|) :=
      .zero (abs_nonneg _)
    simpa [stepsX, stepsY, lineWalk] using hzero
  | succ k ih =>
    have hstep := ih.step (abs_nonneg _) (abs_nonneg _) hlong
    rwa [← stepsX_succ, ← stepsY_succ, ← bresenhamStep_err _ _ (direction x0 x1) (direction y0 y1),
      ← lineWalk_succ] at hstep

end

/-- How far a pixel is from the ideal line, along the shorter axis. -/
def deviation (x0 y0 x1 y1 : Int) (p : ImagePoint) : ℚ :=
  if |y1 - y0| ≤ |x1 - x0| then |(p.y - y0 : ℚ) - (p.x - x0) * (y1 - y0) / (x1 - x0)|
  else |(p.x - x0 : ℚ) - (p.y - y0) * (x1 - x0) / (y1 - y0)|

/-- From `a` to `b` is a move by `n`, which brings `t` as much nearer. -/
def Nearer (t a b n : Int) : Prop := |b - a| = n ∧ |t - b| + n = |t - a|

section

variable {x0 y0 x1 y1 : Int}

/-- What holds of the walk up to its end. -/
structure Reached (x0 y0 x1 y1 : Int) (k : Nat) : Prop where
  x : 0 ≤ stepsX x0 y0 x1 y1 k ∧ stepsX x0 y0 x1 y1 k ≤ |x1 - x0|
  y : 0 ≤ stepsY x0 y0 x1 y1 k ∧ stepsY x0 y0 x1 y1 k ≤ |y1 - y0|
  wide : |y1 - y0| ≤ |x1 - x0| → stepsX x0 y0 x1 y1 k = k
  tall : |x1 - x0| < |y1 - y0| → stepsY x0 y0 x1 y1 k = k
  near : |2 * (|x1 - x0| * stepsY x0 y0 x1 y1 k - |y1 - y0| * stepsX x0 y0 x1 y1 k)| ≤
    max |x1 - x0| |y1 - y0|
  err : |2 * (lineWalk x0 y0 x1 y1 k).err| ≤ 3 * max |x1 - x0| |y1 - y0|

variable {k : Nat}

theorem reached (hk : (k : Int) ≤ max |x1 - x0| |y1 - y0|) : Reached x0 y0 x1 y1 k := by
  have hdx := abs_nonneg (x1 - x0)
  have hdy := abs_nonneg (y1 - y0)
  rcases (le_max_of_le_left hdx : 0 ≤ max |x1 - x0| |y1 - y0|).lt_or_eq with hlong | hpoint
  · have h := onLine_lineWalk hlong k
    obtain ⟨hx, hx', hy, hy'⟩ := h.bounds hdx hdy hlong hk
    refine ⟨⟨hx, hx'⟩, ⟨hy, hy'⟩, h.wide, h.tall, h.near, ?_⟩
    have hnear := abs_le.mp h.near
    have herr := h.err_eq
    have hj : |x1 - x0| * (stepsY x0 y0 x1 y1 k + 1) =
        |x1 - x0| * stepsY x0 y0 x1 y1 k + |x1 - x0| := by ring
    have hi : |y1 - y0| * (stepsX x0 y0 x1 y1 k + 1) =
        |y1 - y0| * stepsX x0 y0 x1 y1 k + |y1 - y0| := by ring
    rw [hi, hj] at herr
    rw [abs_le]
    omega
  · have hx : |x1 - x0| = 0 := by omega
    have hy : |y1 - y0| = 0 := by omega
    obtain rfl : k = 0 := by omega
    have hstepsX : stepsX x0 y0 x1 y1 0 = 0 := by simp [stepsX, lineWalk]
    have hstepsY : stepsY x0 y0 x1 y1 0 = 0 := by simp [stepsY, lineWalk]
    have herr : (lineWalk x0 y0 x1 y1 0).err = 0 := by simp [lineWalk, hx, hy]
    constructor <;> simp [hstepsX, hstepsY, hx, hy, herr]

theorem abs_direction (a b : Int) : |direction a b| = 1 := by
  unfold direction
  split <;> rfl

variable {a b : Int}

theorem direction_reaches_iff {n : Int} : a + direction a b * n = b ↔ n = |b - a| := by
  have hend := direction_mul_abs a b
  have hunit := direction_mul_self a b
  constructor
  · intro heq
    have hmul : direction a b * (n - |b - a|) = 0 := by
      linear_combination heq - hend
    rcases mul_eq_zero.mp hmul with hzero | hzero
    · rw [hzero] at hunit
      omega
    · omega
  · intro heq
    rw [heq, hend]
    ring

theorem at_end_iff {k : Nat} (hk : (k : Int) ≤ max |x1 - x0| |y1 - y0|) :
    ((lineWalk x0 y0 x1 y1 k).x = x1 ∧ (lineWalk x0 y0 x1 y1 k).y = y1) ↔
      (k : Int) = max |x1 - x0| |y1 - y0| := by
  have h := reached hk
  rw [lineWalk_x, lineWalk_y, direction_reaches_iff, direction_reaches_iff]
  constructor
  · rintro ⟨hx, hy⟩
    rcases le_or_gt |y1 - y0| |x1 - x0| with hle | hlt
    · rw [max_eq_left hle, ← hx, h.wide hle]
    · rw [max_eq_right hlt.le, ← hy, h.tall hlt]
  · intro heq
    rcases (le_max_of_le_left (abs_nonneg _) : 0 ≤ max |x1 - x0| |y1 - y0|).lt_or_eq with
      hlong | hpoint
    · exact (onLine_lineWalk hlong k).ends (abs_nonneg _) (abs_nonneg _) hlong heq
    · have := h.x
      have := h.y
      omega

def linePixels (x0 y0 x1 y1 : Int) : List ImagePoint :=
  (List.range ((max |x1 - x0| |y1 - y0|).toNat + 1)).map fun k => (lineWalk x0 y0 x1 y1 k).point

theorem bresenhamLine_eq {rounds : Nat} (hrounds : max |x1 - x0| |y1 - y0| < rounds) :
    bresenhamLine rounds x0 y0 x1 y1 = some (linePixels x0 y0 x1 y1) := by
  have hnonneg := le_max_of_le_left (b := |x1 - x0|) (c := |y1 - y0|) (abs_nonneg (x1 - x0))
  have hgoes : ∀ k < (max |x1 - x0| |y1 - y0|).toNat,
      decide ((lineWalk x0 y0 x1 y1 k).x = x1 ∧ (lineWalk x0 y0 x1 y1 k).y = y1) = false := by
    intro k hk
    rw [decide_eq_false_iff_not]
    exact fun hend => absurd ((at_end_iff (by omega)).mp hend) (by omega)
  have hstops : decide ((lineWalk x0 y0 x1 y1 (max |x1 - x0| |y1 - y0|).toNat).x = x1 ∧
      (lineWalk x0 y0 x1 y1 (max |x1 - x0| |y1 - y0|).toNat).y = y1) = true := by
    rw [decide_eq_true_iff]
    exact (at_end_iff (by omega)).mpr (by omega)
  unfold bresenhamLine linePixels
  dsimp only
  rw [collect_eq (show (max |x1 - x0| |y1 - y0|).toNat < rounds by omega) hgoes hstops,
    Option.map_some, List.map_map]
  rfl

theorem getElem_linePixels {p : ImagePoint} :
    (linePixels x0 y0 x1 y1)[k]? = some p ↔
      (k : Int) ≤ max |x1 - x0| |y1 - y0| ∧ p = (lineWalk x0 y0 x1 y1 k).point := by
  have hnonneg := le_max_of_le_left (b := |x1 - x0|) (c := |y1 - y0|) (abs_nonneg (x1 - x0))
  unfold linePixels
  rw [List.getElem?_map]
  rcases lt_or_ge k ((max |x1 - x0| |y1 - y0|).toNat + 1) with hlt | hge
  · rw [List.getElem?_range hlt, Option.map_some, Option.some.injEq]
    exact ⟨fun hp => ⟨by omega, hp.symm⟩, fun hp => hp.2.symm⟩
  · rw [List.getElem?_eq_none (by rw [List.length_range]; exact hge), Option.map_none]
    exact iff_of_false (by simp) (by omega)

theorem mem_linePixels {p : ImagePoint} (hp : p ∈ linePixels x0 y0 x1 y1) :
    ∃ k : Nat, (k : Int) ≤ max |x1 - x0| |y1 - y0| ∧ p = (lineWalk x0 y0 x1 y1 k).point := by
  obtain ⟨k, hk⟩ := List.mem_iff_getElem?.mp hp
  exact ⟨k, getElem_linePixels.mp hk⟩

theorem nearer_step {i n : Int} (hn : 0 ≤ n) (hend : i + n ≤ |b - a|) :
    Nearer b (a + direction a b * i) (a + direction a b * (i + n)) n := by
  unfold Nearer
  unfold direction
  split
  · rename_i hlt
    rw [abs_of_pos (by omega)] at hend
    constructor
    · rw [show a + 1 * (i + n) - (a + 1 * i) = n by ring, abs_of_nonneg hn]
    · rw [abs_of_nonneg (by omega), abs_of_nonneg (by omega)]
      ring
  · rename_i hge
    rw [abs_of_nonpos (by omega)] at hend
    constructor
    · rw [show a + -1 * (i + n) - (a + -1 * i) = -n by ring, abs_neg, abs_of_nonneg hn]
    · rw [abs_of_nonpos (by omega), abs_of_nonpos (by omega)]
      ring

theorem nearer_x (hk : ((k + 1 : Nat) : Int) ≤ max |x1 - x0| |y1 - y0|) :
    Nearer x1 (lineWalk x0 y0 x1 y1 k).x (lineWalk x0 y0 x1 y1 (k + 1)).x
      (stepsX x0 y0 x1 y1 (k + 1) - stepsX x0 y0 x1 y1 k) := by
  have hbound := (reached hk).x.2
  have hsucc := stepsX_succ x0 y0 x1 y1 k
  have hstep := nearer_step (show 0 ≤ stepsX x0 y0 x1 y1 (k + 1) - stepsX x0 y0 x1 y1 k by
    split at hsucc <;> omega) (show stepsX x0 y0 x1 y1 k +
      (stepsX x0 y0 x1 y1 (k + 1) - stepsX x0 y0 x1 y1 k) ≤ |x1 - x0| by omega)
  rwa [add_sub_cancel, ← lineWalk_x, ← lineWalk_x] at hstep

theorem nearer_y (hk : ((k + 1 : Nat) : Int) ≤ max |x1 - x0| |y1 - y0|) :
    Nearer y1 (lineWalk x0 y0 x1 y1 k).y (lineWalk x0 y0 x1 y1 (k + 1)).y
      (stepsY x0 y0 x1 y1 (k + 1) - stepsY x0 y0 x1 y1 k) := by
  have hbound := (reached hk).y.2
  have hsucc := stepsY_succ x0 y0 x1 y1 k
  have hstep := nearer_step (show 0 ≤ stepsY x0 y0 x1 y1 (k + 1) - stepsY x0 y0 x1 y1 k by
    split at hsucc <;> omega) (show stepsY x0 y0 x1 y1 k +
      (stepsY x0 y0 x1 y1 (k + 1) - stepsY x0 y0 x1 y1 k) ≤ |y1 - y0| by omega)
  rwa [add_sub_cancel, ← lineWalk_y, ← lineWalk_y] at hstep

/-- One pixel further along the longer axis, and one or none along the shorter. -/
def Advances (x0 y0 x1 y1 : Int) (p q : ImagePoint) : Prop :=
  if |y1 - y0| ≤ |x1 - x0| then Nearer x1 p.x q.x 1 ∧ ∃ n ≤ 1, Nearer y1 p.y q.y n
  else Nearer y1 p.y q.y 1 ∧ ∃ n ≤ 1, Nearer x1 p.x q.x n

theorem advances (hk : ((k + 1 : Nat) : Int) ≤ max |x1 - x0| |y1 - y0|) :
    Advances x0 y0 x1 y1 (lineWalk x0 y0 x1 y1 k).point (lineWalk x0 y0 x1 y1 (k + 1)).point := by
  have hx := nearer_x hk
  have hy := nearer_y hk
  have hbefore := reached (show (k : Int) ≤ max |x1 - x0| |y1 - y0| by push_cast at hk; omega)
  have hafter := reached hk
  unfold Advances
  split
  · rename_i hle
    rw [hafter.wide hle, hbefore.wide hle, Nat.cast_succ, add_sub_cancel_left] at hx
    have hsucc := stepsY_succ x0 y0 x1 y1 k
    exact ⟨hx, _, by split at hsucc <;> omega, hy⟩
  · rename_i hgt
    rw [hafter.tall (by omega), hbefore.tall (by omega), Nat.cast_succ, add_sub_cancel_left] at hy
    have hsucc := stepsX_succ x0 y0 x1 y1 k
    exact ⟨hy, _, by split at hsucc <;> omega, hx⟩

theorem lineWalk_injective {j : Nat} (hj : (j : Int) ≤ max |x1 - x0| |y1 - y0|)
    (hk : (k : Int) ≤ max |x1 - x0| |y1 - y0|)
    (heq : (lineWalk x0 y0 x1 y1 j).point = (lineWalk x0 y0 x1 y1 k).point) : j = k := by
  obtain ⟨hx, hy⟩ := ImagePoint.mk.inj heq
  have hstepsX : stepsX x0 y0 x1 y1 j = stepsX x0 y0 x1 y1 k := by rw [stepsX, hx, stepsX]
  have hstepsY : stepsY x0 y0 x1 y1 j = stepsY x0 y0 x1 y1 k := by rw [stepsY, hy, stepsY]
  rcases le_or_gt |y1 - y0| |x1 - x0| with hle | hlt
  · rw [(reached hj).wide hle, (reached hk).wide hle] at hstepsX
    omega
  · rw [(reached hj).tall hlt, (reached hk).tall hlt] at hstepsY
    omega

theorem between {i : Int} (hi : 0 ≤ i) (hend : i ≤ |b - a|) :
    min a b ≤ a + direction a b * i ∧ a + direction a b * i ≤ max a b := by
  unfold direction
  split
  · rename_i hlt
    rw [abs_of_pos (by omega)] at hend
    omega
  · rename_i hge
    rw [abs_of_nonpos (by omega)] at hend
    omega

theorem half_pixel {c d : Int} (h : |2 * (a * d - b * c)| ≤ |d|) (hzero : d = 0 → a = 0) :
    |(a : ℚ) - b * c / d| ≤ 1 / 2 := by
  by_cases hd : d = 0
  · rw [hzero hd, hd]
    norm_num
  · have hd' : (d : ℚ) ≠ 0 := Int.cast_ne_zero.mpr hd
    have hsplit : (a : ℚ) - b * c / d = (a * d - b * c) / d := by
      field_simp
    have hcast : |(2 * (a * d - b * c) : ℚ)| ≤ |(d : ℚ)| := by exact_mod_cast h
    rw [abs_mul, abs_two] at hcast
    rw [hsplit, abs_div, div_le_iff₀ (abs_pos.mpr hd')]
    linarith

theorem deviation_le (hk : (k : Int) ≤ max |x1 - x0| |y1 - y0|) :
    deviation x0 y0 x1 y1 (lineWalk x0 y0 x1 y1 k).point ≤ 1 / 2 := by
  have h := reached hk
  have hx : (lineWalk x0 y0 x1 y1 k).x - x0 = direction x0 x1 * stepsX x0 y0 x1 y1 k := by
    rw [lineWalk_x]
    ring
  have hy : (lineWalk x0 y0 x1 y1 k).y - y0 = direction y0 y1 * stepsY x0 y0 x1 y1 k := by
    rw [lineWalk_y]
    ring
  have hcross : |2 * (((lineWalk x0 y0 x1 y1 k).y - y0) * (x1 - x0) -
      ((lineWalk x0 y0 x1 y1 k).x - x0) * (y1 - y0))| ≤ max |x1 - x0| |y1 - y0| := by
    have hprod : 2 * (((lineWalk x0 y0 x1 y1 k).y - y0) * (x1 - x0) -
        ((lineWalk x0 y0 x1 y1 k).x - x0) * (y1 - y0)) = direction x0 x1 * direction y0 y1 *
        (2 * (|x1 - x0| * stepsY x0 y0 x1 y1 k - |y1 - y0| * stepsX x0 y0 x1 y1 k)) := by
      rw [hx, hy, ← direction_mul_abs x0 x1, ← direction_mul_abs y0 y1]
      simp only [abs_mul, abs_direction, abs_abs, one_mul]
      ring
    rw [hprod, abs_mul, abs_mul, abs_direction, abs_direction, one_mul, one_mul]
    exact h.near
  unfold deviation
  split
  · rename_i hle
    rw [max_eq_left hle] at hcross
    have hzero : x1 - x0 = 0 → (lineWalk x0 y0 x1 y1 k).y - y0 = 0 := by
      intro hdx
      have hstepsY : stepsY x0 y0 x1 y1 k = 0 := by
        have := h.y
        rw [hdx, abs_zero] at hle
        omega
      rw [hy, hstepsY, mul_zero]
    have hhalf := half_pixel hcross hzero
    push_cast at hhalf
    exact hhalf
  · rename_i hgt
    rw [max_eq_right (by omega)] at hcross
    have hcross' : |2 * (((lineWalk x0 y0 x1 y1 k).x - x0) * (y1 - y0) -
        ((lineWalk x0 y0 x1 y1 k).y - y0) * (x1 - x0))| ≤ |y1 - y0| := by
      rw [← abs_neg]
      convert hcross using 2
      ring
    have hzero : y1 - y0 = 0 → (lineWalk x0 y0 x1 y1 k).x - x0 = 0 := by
      intro hdy
      rw [hdy, abs_zero] at hgt
      exact absurd (abs_nonneg _) hgt
    have hhalf := half_pixel hcross' hzero
    push_cast at hhalf
    exact hhalf

/-- The path ends: it has one pixel more than the longer axis is long, starts and ends where
it should, advances by one pixel along that axis, has no pixel twice, and stays between the
two points and within half a pixel of the line. With coordinates below 2^30 every number
of the loop is one that a double holds. -/
theorem bresenham_line (x0 y0 x1 y1 : Int) :
    ∃ pixels, (∀ rounds : Nat, max |x1 - x0| |y1 - y0| < rounds →
        bresenhamLine rounds x0 y0 x1 y1 = some pixels) ∧
      pixels.length = max |x1 - x0| |y1 - y0| + 1 ∧
      pixels.head? = some ⟨x0, y0⟩ ∧ pixels.getLast? = some ⟨x1, y1⟩ ∧
      (∀ k p q, pixels[k]? = some p → pixels[k + 1]? = some q → Advances x0 y0 x1 y1 p q) ∧
      pixels.Nodup ∧
      (∀ p ∈ pixels, (min x0 x1 ≤ p.x ∧ p.x ≤ max x0 x1) ∧ min y0 y1 ≤ p.y ∧ p.y ≤ max y0 y1) ∧
      (∀ p ∈ pixels, deviation x0 y0 x1 y1 p ≤ 1 / 2) ∧
      ((∀ c ∈ [x0, y0, x1, y1], |c| < 2 ^ 30) →
        ∀ k : Nat, k ≤ max |x1 - x0| |y1 - y0| → |2 * (lineWalk x0 y0 x1 y1 k).err| < 2 ^ 53) := by
  have hnonneg := le_max_of_le_left (b := |x1 - x0|) (c := |y1 - y0|) (abs_nonneg (x1 - x0))
  have hlength : (linePixels x0 y0 x1 y1).length = (max |x1 - x0| |y1 - y0|).toNat + 1 := by
    simp [linePixels]
  refine ⟨linePixels x0 y0 x1 y1, fun rounds => bresenhamLine_eq, ?_, ?_, ?_, ?_, ?_, ?_, ?_, ?_⟩
  · rw [hlength]
    omega
  · rw [List.head?_eq_getElem?]
    exact getElem_linePixels.mpr ⟨hnonneg, rfl⟩
  · rw [List.getLast?_eq_getElem?, hlength]
    refine getElem_linePixels.mpr ⟨by omega, ?_⟩
    obtain ⟨hx, hy⟩ := (@at_end_iff x0 y0 x1 y1 ((max |x1 - x0| |y1 - y0|).toNat + 1 - 1)
      (by omega)).mpr (by omega)
    exact (ImagePoint.mk.injEq ..).mpr ⟨hx.symm, hy.symm⟩
  · intro k p q hp hq
    obtain ⟨-, rfl⟩ := getElem_linePixels.mp hp
    obtain ⟨hk, rfl⟩ := getElem_linePixels.mp hq
    exact advances hk
  · refine List.Nodup.map_on (fun j hj k hk heq => ?_) List.nodup_range
    rw [List.mem_range] at hj hk
    exact lineWalk_injective (by omega) (by omega) heq
  · intro p hp
    obtain ⟨k, hk, rfl⟩ := mem_linePixels hp
    have h := reached hk
    have hx := between h.x.1 h.x.2
    have hy := between h.y.1 h.y.2
    rw [← lineWalk_x] at hx
    rw [← lineWalk_y] at hy
    exact ⟨hx, hy⟩
  · intro p hp
    obtain ⟨k, hk, rfl⟩ := mem_linePixels hp
    exact deviation_le hk
  · intro hsmall k hk
    have hx := abs_lt.mp (hsmall x0 (by simp))
    have hy := abs_lt.mp (hsmall y0 (by simp))
    have hx' := abs_lt.mp (hsmall x1 (by simp))
    have hy' := abs_lt.mp (hsmall y1 (by simp))
    have hdx : |x1 - x0| < 2 ^ 31 := abs_lt.mpr ⟨by omega, by omega⟩
    have hdy : |y1 - y0| < 2 ^ 31 := abs_lt.mpr ⟨by omega, by omega⟩
    have herr := (reached hk).err
    omega

end

end VivaGenicam.Studio
