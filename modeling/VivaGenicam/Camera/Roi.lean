import VivaGenicam.Genapi.Setters

/-!
Moving and sizing the region of interest. What a size may be depends on where the
region is, and where it may be on its size, so the offsets are zeroed before the sizes
are written; and every value is held against its feature's increment beforehand, with
the range of a feature as its state reports it, in floating point.
-/

namespace VivaGenicam.Camera

open Genapi

inductive RoiFeature where
  | width
  | height
  | offsetX
  | offsetY
deriving DecidableEq, Repr

namespace RoiFeature

def name : RoiFeature → GenapiXml.Text
  | width => ['W', 'i', 'd', 't', 'h']
  | height => ['H', 'e', 'i', 'g', 'h', 't']
  | offsetX => ['O', 'f', 'f', 's', 'e', 't', 'X']
  | offsetY => ['O', 'f', 'f', 's', 'e', 't', 'Y']

def description : RoiFeature → String
  | width => "image width"
  | height => "image height"
  | offsetX => "horizontal offset"
  | offsetY => "vertical offset"

/-- The feature whose value its maximum depends on. -/
def coupled : RoiFeature → RoiFeature
  | width => offsetX
  | height => offsetY
  | offsetX => width
  | offsetY => height

end RoiFeature

structure Roi where
  x : Int64
  y : Int64
  width : Int64
  height : Int64
deriving DecidableEq

def Roi.get (roi : Roi) : RoiFeature → Int64
  | .width => roi.width
  | .height => roi.height
  | .offsetX => roi.x
  | .offsetY => roi.y

def Roi.set (roi : Roi) (feature : RoiFeature) (value : Int64) : Roi :=
  match feature with
  | .width => { roi with width := value }
  | .height => { roi with height := value }
  | .offsetX => { roi with x := value }
  | .offsetY => { roi with y := value }

/-- What a camera declares of its four features: which there are, their constant minimum
and increment, and whether they have a maximum. -/
structure RoiCamera where
  sensorWidth : Int64
  sensorHeight : Int64
  declares : RoiFeature → Bool
  min : RoiFeature → Option Int64
  inc : RoiFeature → Option Int64
  hasMax : RoiFeature → Bool

namespace RoiCamera

variable (camera : RoiCamera)

def sensor : RoiFeature → Int64
  | .width | .offsetX => camera.sensorWidth
  | .height | .offsetY => camera.sensorHeight

/-- The maximum in force: the sensor's size, less the feature it is coupled with. -/
def max (region : Roi) (feature : RoiFeature) : Option Int64 :=
  if camera.hasMax feature then some (camera.sensor feature - region.get feature.coupled)
  else none

end RoiCamera

/-- The region a camera holds, and each region a write left it with. -/
structure RoiDevice where
  region : Roi
  written : List Roi
deriving DecidableEq

inductive RoiError where
  | genApi (error : GenApiError)
  | missingFeature (what : String) (tried : List GenapiXml.Text)

/-- How a step ends: with an error, or in a panic where an i64 overflows. -/
inductive RoiStop where
  | error (error : RoiError)
  | panicked

abbrev RoiStep := RoiDevice → Except RoiStop Unit × RoiDevice

namespace RoiStep

def done : RoiStep := fun device => (.ok (), device)

def stop (reason : RoiStop) : RoiStep := fun device => (.error reason, device)

/-- The second step after the first, unless that stopped. -/
def andThen (first second : RoiStep) : RoiStep := fun device =>
  match first device with
  | (.ok (), next) => second next
  | (.error reason, next) => (.error reason, next)

def forEach (features : List RoiFeature) (step : RoiFeature → RoiStep) : RoiStep :=
  features.foldr (fun feature rest => andThen (step feature) rest) done

end RoiStep

variable {first second : RoiStep}

namespace RoiStep

variable {device : RoiDevice}

theorem andThen_of_ok {next : RoiDevice}
    (h : first device = (.ok (), next)) : andThen first second device = second next := by
  simp only [andThen, h]

theorem andThen_of_error {next : RoiDevice} {reason : RoiStop}
    (h : first device = (.error reason, next)) :
    andThen first second device = (.error reason, next) := by
  simp only [andThen, h]

theorem andThen_congr {other : RoiStep} (h : first device = other device) :
    andThen first second device = andThen other second device := by
  simp only [andThen, h]

theorem andThen_assoc (first second third : RoiStep) :
    andThen (andThen first second) third = andThen first (andThen second third) := by
  funext device
  unfold andThen
  cases first device with
  | mk result next => cases result <;> rfl

theorem andThen_done (step : RoiStep) : andThen step done = step := by
  funext device
  unfold andThen
  cases hstep : step device with
  | mk result next => cases result <;> rfl

end RoiStep

open RoiStep

/-- The 64-bit float nearest to a number: 53 significant bits, ties to even. -/
def nearestF64 (number : Nat) : Nat :=
  if number < 2 ^ 53 then number
  else
    let unit := 2 ^ (Nat.log2 number - 52)
    let whole := number / unit
    let rest := number % unit
    if unit < 2 * rest ∨ unit = 2 * rest ∧ whole % 2 = 1 then (whole + 1) * unit
    else whole * unit

/-- `value as f64`. -/
def i64AsF64 (value : Int64) : Int :=
  if value.toInt < 0 then -(nearestF64 value.toInt.natAbs) else nearestF64 value.toInt.natAbs

/-- `value as i64` of an integral float: the nearest integer of 64 bits. -/
def f64AsI64 (value : Int) : Int64 := .ofInt (Max.max (-2 ^ 63) (Min.min value (2 ^ 63 - 1)))

/-- What a value is after it went through a reported range. -/
def viaF64 (value : Int64) : Int64 := f64AsI64 (i64AsF64 value)

inductive Verdict where
  | pass
  | off (base inc : Int64)
  | overflow
deriving DecidableEq

namespace RoiCamera

variable (camera : RoiCamera)

/-- A feature's increment as its reported range has it: a range is reported where there
is a minimum and a maximum. -/
def reportedInc (feature : RoiFeature) : Option Int64 :=
  if camera.hasMax feature then
    (camera.min feature).bind fun _ => ((camera.inc feature).map viaF64).filter (1 < ·)
  else none

/-- How a value stands to the increment its feature's reported range has. -/
def verdict (feature : RoiFeature) (value : Int64) : Verdict :=
  match camera.reportedInc feature, camera.min feature with
  | some inc, some min =>
    let base := viaF64 min
    let distance := value.toInt - base.toInt
    if distance < -2 ^ 63 ∨ 2 ^ 63 ≤ distance then .overflow
    else if distance % inc.toInt = 0 then .pass
    else .off base inc
  | _, _ => .pass

/-- Refuse a value that is off its feature's increment. -/
def checkIncrement (feature : RoiFeature) (value : Int64) : RoiStep :=
  match camera.verdict feature value with
  | .pass => done
  | .off base inc =>
    stop (.error (.genApi (.range feature.name (.int value) (.offIncrement base inc))))
  | .overflow => stop .panicked

/-- What a write checks: the bounds in force and the increment. -/
def inRange (region : Roi) (feature : RoiFeature) (value : Int64) : Except GenApiError Unit :=
  NodeMap.integerInRange feature.name value (camera.min feature) (camera.max region feature)
    (camera.inc feature)

/-- Write a feature within its bounds and increment. -/
def setInteger (feature : RoiFeature) (value : Int64) : RoiStep := fun device =>
  match camera.inRange device.region feature value with
  | .error error => (.error (.error (.genApi error)), device)
  | .ok () =>
    let region := device.region.set feature value
    (.ok (), ⟨region, device.written ++ [region]⟩)

def missing (feature : RoiFeature) : RoiStep :=
  stop (.error (.missingFeature feature.description [feature.name]))

def zeroOffset (offset : RoiFeature) : RoiStep := fun device =>
  if device.region.get offset ≠ 0 then camera.setInteger offset 0 device else done device

/-- The offsets a camera has; without one, only a region at its origin will do. -/
def offsets : List RoiFeature := [.offsetX, .offsetY].filter camera.declares

def setRoi (roi : Roi) : RoiStep :=
  if ¬ camera.declares .width then missing .width
  else if ¬ camera.declares .height then missing .height
  else if ¬ camera.declares .offsetX ∧ roi.x ≠ 0 then missing .offsetX
  else if ¬ camera.declares .offsetY ∧ roi.y ≠ 0 then missing .offsetY
  else
    andThen (forEach (.width :: .height :: camera.offsets) fun feature =>
        camera.checkIncrement feature (roi.get feature)) <|
      andThen (forEach camera.offsets camera.zeroOffset) <|
        andThen (camera.setInteger .width roi.width) <|
          andThen (camera.setInteger .height roi.height) <|
            forEach camera.offsets fun offset => camera.setInteger offset (roi.get offset)

/-- All four features are there and the sizes and offsets bound each other. -/
structure Coupled : Prop where
  width_nonneg : 0 ≤ camera.sensorWidth.toInt
  height_nonneg : 0 ≤ camera.sensorHeight.toInt
  hasMax : ∀ feature, camera.hasMax feature = true
  offsetX_min : camera.min .offsetX = some 0
  offsetY_min : camera.min .offsetY = some 0

/-- The region is within all bounds and on all increments, each as the region itself
puts them in force. -/
def Fits (region : Roi) : Prop :=
  ∀ feature, camera.inRange region feature (region.get feature) = .ok ()

/-- A feature's value is not its minimum, or zero, plus a whole number of increments. -/
def OffIncrement (feature : RoiFeature) (value : Int64) : Prop :=
  ∃ inc, camera.inc feature = some inc ∧ 1 < inc.toInt ∧
    (value.toInt - ((camera.min feature).getD 0).toInt).tmod inc.toInt ≠ 0

def InSensor (region : Roi) : Prop :=
  0 ≤ region.x.toInt ∧ region.x.toInt + region.width.toInt ≤ camera.sensorWidth.toInt ∧
    0 ≤ region.y.toInt ∧ region.y.toInt + region.height.toInt ≤ camera.sensorHeight.toInt

/-- Any region is reached from any other, inside the sensor all the way; a region off an
increment is refused with an error, and nothing is written. -/
def SetsRoi (current target : Roi) : Prop :=
  (camera.Coupled → camera.Fits current → camera.Fits target →
    ∃ written, camera.setRoi target ⟨current, []⟩ = (.ok (), ⟨target, written⟩) ∧
      ∀ region ∈ written, camera.InSensor region) ∧
  ((∃ feature, camera.OffIncrement feature (target.get feature)) →
    ∃ error, camera.setRoi target ⟨current, []⟩ = (.error (.error error), ⟨current, []⟩))

/-- The first register a write of the region goes to, and with what. -/
def firstWrite (current target : Roi) : RoiFeature × Int64 :=
  if current.x ≠ 0 then (.offsetX, 0)
  else if current.y ≠ 0 then (.offsetY, 0)
  else (.width, target.width)

/-- The first verdict on a region's values other than a pass. -/
def firstVerdict (target : Roi) (features : List RoiFeature) : Option Verdict :=
  features.findSome? fun feature =>
    if camera.verdict feature (target.get feature) = .pass then none
    else some (camera.verdict feature (target.get feature))

def RefusedUpFront (target : Roi) : Prop :=
  ∃ base inc, camera.firstVerdict target [.width, .height, .offsetX, .offsetY] =
    some (.off base inc)

def AllPass (target : Roi) : Prop := ∀ feature, camera.verdict feature (target.get feature) = .pass

def RefusedAtFirst (current target : Roi) : Prop :=
  camera.inRange current (firstWrite current target).1 (firstWrite current target).2 ≠ .ok ()

/-- The reported ranges judge the target as its increments do, or the first write saves
the day. -/
def JudgedRight (current target : Roi) : Prop :=
  (camera.Coupled → camera.Fits current → camera.Fits target → camera.AllPass target) ∧
  ((∃ feature, camera.OffIncrement feature (target.get feature)) →
    camera.RefusedUpFront target ∨ camera.AllPass target ∧ camera.RefusedAtFirst current target)

theorem inRange_eq_ok_iff (region : Roi) (feature : RoiFeature) (value : Int64) :
    camera.inRange region feature value = .ok () ↔
      (∀ min ∈ camera.min feature, min.toInt ≤ value.toInt) ∧
      (∀ max ∈ camera.max region feature, value.toInt ≤ max.toInt) ∧
      ¬ camera.OffIncrement feature value := by
  have hone : (1 : Int64).toInt = 1 := rfl
  have hmin : (camera.min feature).any (value < ·) = true ↔
      ∃ min ∈ camera.min feature, value.toInt < min.toInt := by
    cases camera.min feature <;> simp [Int64.lt_iff_toInt_lt]
  have hmax : (camera.max region feature).any (· < value) = true ↔
      ∃ max ∈ camera.max region feature, max.toInt < value.toInt := by
    cases camera.max region feature <;> simp [Int64.lt_iff_toInt_lt]
  have hinc : (1 < (camera.inc feature).getD 1 ∧ (value.toInt -
      ((camera.min feature).getD 0).toInt).tmod ((camera.inc feature).getD 1).toInt ≠ 0) ↔
      camera.OffIncrement feature value := by
    unfold OffIncrement
    cases hinc : camera.inc feature with
    | none => simp
    | some inc => simp [Int64.lt_iff_toInt_lt, hone]
  unfold inRange NodeMap.integerInRange
  dsimp only
  by_cases hbelow : (camera.min feature).any (value < ·) = true
  · rw [if_pos hbelow]
    obtain ⟨min, hmem, hlt⟩ := hmin.mp hbelow
    refine ⟨fun h => (by cases h), fun h => absurd (h.1 min hmem) (by omega)⟩
  · rw [if_neg hbelow]
    by_cases habove : (camera.max region feature).any (· < value) = true
    · rw [if_pos habove]
      obtain ⟨max, hmem, hlt⟩ := hmax.mp habove
      refine ⟨fun h => (by cases h), fun h => absurd (h.2.1 max hmem) (by omega)⟩
    · rw [if_neg habove]
      rw [hmin] at hbelow
      rw [hmax] at habove
      simp only [not_exists, not_and, Int.not_lt] at hbelow habove
      by_cases hoff : camera.OffIncrement feature value
      · rw [if_pos (hinc.mpr hoff)]
        exact ⟨fun h => (by cases h), fun h => absurd hoff h.2.2⟩
      · rw [if_neg fun h => hoff (hinc.mp h)]
        exact ⟨fun _ => ⟨hbelow, habove, hoff⟩, fun _ => rfl⟩

theorem forEach_checkIncrement (target : Roi) (features : List RoiFeature) (device : RoiDevice) :
    (camera.firstVerdict target features = none →
      forEach features (fun feature => camera.checkIncrement feature (target.get feature)) device =
        (.ok (), device)) ∧
    (∀ base inc, camera.firstVerdict target features = some (.off base inc) →
      ∃ error, forEach features
        (fun feature => camera.checkIncrement feature (target.get feature)) device =
          (.error (.error error), device)) ∧
    (camera.firstVerdict target features = some .overflow →
      forEach features (fun feature => camera.checkIncrement feature (target.get feature)) device =
        (.error .panicked, device)) := by
  induction features with
  | nil => exact ⟨fun _ => rfl, fun _ _ h => (by cases h), fun h => (by cases h)⟩
  | cons feature rest ih =>
    simp only [forEach, List.foldr_cons, andThen, firstVerdict, List.findSome?_cons] at ih ⊢
    cases hverdict : camera.verdict feature (target.get feature) with
    | pass =>
      simp only [checkIncrement, hverdict, done, if_true]
      exact ih
    | off base inc =>
      simp only [checkIncrement, hverdict, stop, reduceCtorEq, if_false]
      refine ⟨fun h => (by cases h), fun _ _ _ => ⟨_, rfl⟩, fun h => (by cases h)⟩
    | overflow =>
      simp only [checkIncrement, hverdict, stop, reduceCtorEq, if_false]
      exact ⟨fun h => (by cases h), fun _ _ h => (by cases h), fun _ => trivial⟩

def sizesThenOffsets (target : Roi) : RoiStep :=
  andThen (camera.setInteger .width target.width) <|
    andThen (camera.setInteger .height target.height) <|
      andThen (camera.setInteger .offsetX target.x) (camera.setInteger .offsetY target.y)

variable {target : Roi}

theorem firstVerdict_ne_pass {features : List RoiFeature} :
    camera.firstVerdict target features ≠ some .pass := by
  intro h
  obtain ⟨feature, -, hverdict⟩ := List.exists_of_findSome?_eq_some h
  split at hverdict
  · cases hverdict
  · rename_i hpass
    exact hpass (Option.some.inj hverdict)

def writes (target : Roi) : RoiStep :=
  andThen (camera.zeroOffset .offsetX) <|
    andThen (camera.zeroOffset .offsetY) (camera.sizesThenOffsets target)

theorem setRoi_eq (hall : ∀ feature, camera.declares feature = true) (target : Roi) :
    camera.setRoi target = andThen (forEach [.width, .height, .offsetX, .offsetY] fun feature =>
      camera.checkIncrement feature (target.get feature)) (camera.writes target) := by
  have hoffsets : camera.offsets = [.offsetX, .offsetY] := by
    simp [offsets, hall]
  unfold setRoi
  rw [if_neg (by simp [hall]), if_neg (by simp [hall]), if_neg (by simp [hall]),
    if_neg (by simp [hall]), hoffsets, writes, ← andThen_assoc (camera.zeroOffset .offsetX)]
  have hzero : forEach [.offsetX, .offsetY] camera.zeroOffset =
      andThen (camera.zeroOffset .offsetX) (camera.zeroOffset .offsetY) :=
    congrArg _ (andThen_done _)
  have hset : (forEach [.offsetX, .offsetY] fun offset =>
      camera.setInteger offset (target.get offset)) =
      andThen (camera.setInteger .offsetX target.x) (camera.setInteger .offsetY target.y) :=
    congrArg _ (andThen_done _)
  rw [hzero, hset]
  rfl

theorem allPass_iff (target : Roi) :
    camera.AllPass target ↔
      camera.firstVerdict target [.width, .height, .offsetX, .offsetY] = none := by
  rw [firstVerdict, List.findSome?_eq_none_iff]
  constructor
  · intro h feature _
    rw [if_pos (h feature)]
  · intro h feature
    have hnone := h feature (by cases feature <;> simp)
    by_contra hverdict
    rw [if_neg hverdict] at hnone
    cases hnone

/-- The step takes back none of the writes made. -/
def Grows (step : RoiStep) : Prop := ∀ device, device.written <+: (step device).2.written

theorem Grows.andThen (hfirst : Grows first) (hsecond : Grows second) :
    Grows (andThen first second) := by
  intro device
  have hbefore := hfirst device
  unfold RoiStep.andThen
  split
  · rename_i next hnext
    rw [hnext] at hbefore
    exact hbefore.trans (hsecond next)
  · rename_i reason next hnext
    rw [hnext] at hbefore
    exact hbefore

theorem grows_setInteger (feature : RoiFeature) (value : Int64) :
    Grows (camera.setInteger feature value) := by
  intro device
  unfold setInteger
  split
  · exact List.prefix_rfl
  · exact List.prefix_append _ _

theorem grows_zeroOffset (offset : RoiFeature) : Grows (camera.zeroOffset offset) := by
  intro device
  unfold zeroOffset
  split
  · exact camera.grows_setInteger offset 0 device
  · exact List.prefix_rfl

theorem grows_sizesThenOffsets (target : Roi) : Grows (camera.sizesThenOffsets target) :=
  (camera.grows_setInteger _ _).andThen ((camera.grows_setInteger _ _).andThen
    ((camera.grows_setInteger _ _).andThen (camera.grows_setInteger _ _)))

theorem writes_eq_first (current target : Roi) :
    ∃ rest, Grows rest ∧ camera.writes target ⟨current, []⟩ =
      andThen (camera.setInteger (firstWrite current target).1 (firstWrite current target).2) rest
        ⟨current, []⟩ := by
  have hsizes := camera.grows_sizesThenOffsets target
  unfold writes firstWrite
  by_cases hx : current.x ≠ 0
  · have hzero : camera.zeroOffset .offsetX ⟨current, []⟩ =
        camera.setInteger .offsetX 0 ⟨current, []⟩ := if_pos hx
    rw [if_pos hx, andThen_congr hzero]
    exact ⟨_, (camera.grows_zeroOffset .offsetY).andThen hsizes, rfl⟩
  · have hskip : camera.zeroOffset .offsetX ⟨current, []⟩ = (.ok (), ⟨current, []⟩) := if_neg hx
    rw [if_neg hx, andThen_of_ok hskip]
    by_cases hy : current.y ≠ 0
    · have hzero : camera.zeroOffset .offsetY ⟨current, []⟩ =
          camera.setInteger .offsetY 0 ⟨current, []⟩ := if_pos hy
      rw [if_pos hy, andThen_congr hzero]
      exact ⟨_, hsizes, rfl⟩
    · have hskipY : camera.zeroOffset .offsetY ⟨current, []⟩ = (.ok (), ⟨current, []⟩) :=
        if_neg hy
      rw [if_neg hy, andThen_of_ok hskipY]
      exact ⟨_, (camera.grows_setInteger _ _).andThen
        ((camera.grows_setInteger _ _).andThen (camera.grows_setInteger _ _)), rfl⟩

/-- The step takes the one region to the other, inside the sensor all the way. -/
def Moves (step : RoiStep) (before after : Roi) : Prop :=
  ∀ written, ∃ more, step ⟨before, written⟩ = (.ok (), ⟨after, written ++ more⟩) ∧
    ∀ region ∈ more, camera.InSensor region

variable {camera} {before : Roi}

theorem Moves.andThen {between after : Roi}
    (hfirst : camera.Moves first before between) (hsecond : camera.Moves second between after) :
    camera.Moves (andThen first second) before after := by
  intro written
  obtain ⟨more, hstep, hinside⟩ := hfirst written
  obtain ⟨others, hnext, hothers⟩ := hsecond (written ++ more)
  refine ⟨more ++ others, ?_, fun region hmem => ?_⟩
  · simp only [RoiStep.andThen, hstep, hnext, List.append_assoc]
  · rcases List.mem_append.mp hmem with hmem | hmem
    · exact hinside region hmem
    · exact hothers region hmem

variable {feature : RoiFeature}

theorem moves_setInteger {value : Int64} (hrange : camera.inRange before feature value = .ok ())
    (hinside : camera.InSensor (before.set feature value)) :
    camera.Moves (camera.setInteger feature value) before (before.set feature value) := by
  intro written
  refine ⟨[before.set feature value], ?_, by simpa using hinside⟩
  simp only [setInteger, hrange]

theorem moves_zeroOffset {offset : RoiFeature} (hrange : camera.inRange before offset 0 = .ok ())
    (hinside : camera.InSensor (before.set offset 0))
    (hsame : before.get offset = 0 → before.set offset 0 = before) :
    camera.Moves (camera.zeroOffset offset) before (before.set offset 0) := by
  intro written
  by_cases hzero : before.get offset = 0
  · refine ⟨[], ?_, by simp⟩
    rw [zeroOffset, if_neg (not_not_intro hzero), hsame hzero, List.append_nil]
    rfl
  · obtain ⟨more, hstep, hmore⟩ := moves_setInteger hrange hinside written
    exact ⟨more, by rw [zeroOffset, if_pos hzero, hstep], hmore⟩

theorem toInt_sub_nonneg {size offset : Int64} (hsize : 0 ≤ size.toInt)
    (hoffset : 0 ≤ offset.toInt) : (size - offset).toInt = size.toInt - offset.toInt := by
  have hlow := size.toInt_lt
  have hhigh := offset.toInt_lt
  rw [Int64.toInt_sub, Int.bmod_eq_of_le_mul_two (by norm_num; omega) (by norm_num; omega)]

/-- What the bounds say of a region that fits. -/
structure Bounded (camera : RoiCamera) (region : Roi) : Prop where
  x_nonneg : 0 ≤ region.x.toInt
  y_nonneg : 0 ≤ region.y.toInt
  width_le : region.x.toInt + region.width.toInt ≤ camera.sensorWidth.toInt
  height_le : region.y.toInt + region.height.toInt ≤ camera.sensorHeight.toInt
  x_le : region.x.toInt ≤ (camera.sensorWidth - region.width).toInt
  y_le : region.y.toInt ≤ (camera.sensorHeight - region.height).toInt

variable {region : Roi}

theorem Fits.bounded (hcoupled : camera.Coupled) (h : camera.Fits region) :
    Bounded camera region := by
  have hmax : ∀ feature, (region.get feature).toInt ≤
      (camera.sensor feature - region.get feature.coupled).toInt := fun feature =>
    ((camera.inRange_eq_ok_iff region feature _).mp (h feature)).2.1 _
      (by rw [RoiCamera.max, if_pos (hcoupled.hasMax feature)]; rfl)
  have hx := ((camera.inRange_eq_ok_iff region .offsetX _).mp (h .offsetX)).1 0
    (by rw [hcoupled.offsetX_min]; rfl)
  have hy := ((camera.inRange_eq_ok_iff region .offsetY _).mp (h .offsetY)).1 0
    (by rw [hcoupled.offsetY_min]; rfl)
  have hx : 0 ≤ region.x.toInt := hx
  have hy : 0 ≤ region.y.toInt := hy
  have hwidth : region.width.toInt ≤ (camera.sensorWidth - region.x).toInt := hmax .width
  have hheight : region.height.toInt ≤ (camera.sensorHeight - region.y).toInt := hmax .height
  rw [toInt_sub_nonneg hcoupled.width_nonneg hx] at hwidth
  rw [toInt_sub_nonneg hcoupled.height_nonneg hy] at hheight
  exact ⟨hx, hy, by omega, by omega, hmax .offsetX, hmax .offsetY⟩

theorem inRange_zero {offset : RoiFeature} (hmin : camera.min offset = some 0)
    (hmax : ∀ max ∈ camera.max region offset, 0 ≤ max.toInt) :
    camera.inRange region offset 0 = .ok () := by
  refine (camera.inRange_eq_ok_iff region offset 0).mpr ⟨?_, hmax, ?_⟩
  · intro min hmem
    rw [hmin] at hmem
    cases hmem
    exact le_rfl
  · rintro ⟨inc, -, -, hoff⟩
    rw [hmin] at hoff
    exact hoff (by simp)

theorem Fits.inRange (h : camera.Fits region)
    (hmax : ∀ max ∈ camera.max before feature, (region.get feature).toInt ≤ max.toInt) :
    camera.inRange before feature (region.get feature) = .ok () := by
  obtain ⟨hmin, -, hon⟩ := (camera.inRange_eq_ok_iff region feature _).mp (h feature)
  exact (camera.inRange_eq_ok_iff before feature _).mpr ⟨hmin, hmax, hon⟩

theorem mem_max {max : Int64} (h : max ∈ camera.max region feature) :
    max = camera.sensor feature - region.get feature.coupled := by
  unfold RoiCamera.max at h
  split at h
  · exact (Option.some.inj h).symm
  · cases h

theorem moves_writes (hcoupled : camera.Coupled) {current : Roi}
    (hcurrent : camera.Fits current) (htarget : camera.Fits target) :
    camera.Moves (camera.writes target) current target := by
  have hfrom := hcurrent.bounded hcoupled
  have hto := htarget.bounded hcoupled
  obtain ⟨hx, hy, hw, hh, hxl, hyl⟩ := hfrom
  obtain ⟨htx, hty, htw, hth, htxl, htyl⟩ := hto
  have hzero : (0 : Int64).toInt = 0 := rfl
  have hzeroX : camera.Moves (camera.zeroOffset .offsetX) current { current with x := 0 } :=
    moves_zeroOffset
      (inRange_zero hcoupled.offsetX_min fun max hmem => by
        rw [mem_max hmem]
        exact hx.trans hxl)
      ⟨le_rfl, by simp only [Roi.set, hzero]; omega, hy, hh⟩
      fun hsame => by
        have hsame : current.x = 0 := hsame
        rw [Roi.set, ← hsame]
  have hzeroY : camera.Moves (camera.zeroOffset .offsetY) { current with x := 0 }
      { current with x := 0, y := 0 } :=
    moves_zeroOffset
      (inRange_zero hcoupled.offsetY_min fun max hmem => by
        rw [mem_max hmem]
        exact hy.trans hyl)
      ⟨le_rfl, by simp only [Roi.set, hzero]; omega, le_rfl,
        by simp only [Roi.set, hzero]; omega⟩
      fun hsame => by
        have hsame : current.y = 0 := hsame
        rw [Roi.set, ← hsame]
  have hwidth : camera.Moves (camera.setInteger .width target.width)
      { current with x := 0, y := 0 } { current with x := 0, y := 0, width := target.width } :=
    moves_setInteger
      (htarget.inRange fun max hmem => by
        rw [mem_max hmem]
        simp only [sensor, Roi.get, RoiFeature.coupled, Int64.sub_zero]
        omega)
      ⟨le_rfl, by simp only [Roi.set, hzero]; omega, le_rfl,
        by simp only [Roi.set, hzero]; omega⟩
  have hheight : camera.Moves (camera.setInteger .height target.height)
      { current with x := 0, y := 0, width := target.width } { target with x := 0, y := 0 } :=
    moves_setInteger
      (htarget.inRange fun max hmem => by
        rw [mem_max hmem]
        simp only [sensor, Roi.get, RoiFeature.coupled, Int64.sub_zero]
        omega)
      ⟨le_rfl, by simp only [Roi.set, hzero]; omega, le_rfl,
        by simp only [Roi.set, hzero]; omega⟩
  have hoffsetX : camera.Moves (camera.setInteger .offsetX target.x) { target with x := 0, y := 0 }
      { target with y := 0 } :=
    moves_setInteger
      (htarget.inRange fun max hmem => by
        rw [mem_max hmem]
        exact htxl)
      ⟨htx, htw, le_rfl, by simp only [Roi.set, hzero]; omega⟩
  have hoffsetY : camera.Moves (camera.setInteger .offsetY target.y) { target with y := 0 } target :=
    moves_setInteger
      (htarget.inRange fun max hmem => by
        rw [mem_max hmem]
        exact htyl)
      ⟨htx, htw, hty, hth⟩
  exact hzeroX.andThen (hzeroY.andThen (hwidth.andThen (hheight.andThen
    (hoffsetX.andThen hoffsetY))))

/-- A region is reached from any other, and one off an increment is refused with nothing
written, exactly when the reported ranges judge the target as its increments do, or else
the first write is refused. -/
theorem setsRoi_iff (hall : ∀ feature, camera.declares feature = true) (current target : Roi) :
    camera.SetsRoi current target ↔ camera.JudgedRight current target := by
  have hrun := camera.setRoi_eq hall target
  obtain ⟨hpass, hoff, hoverflow⟩ := camera.forEach_checkIncrement target
    [.width, .height, .offsetX, .offsetY] ⟨current, []⟩
  constructor
  · rintro ⟨hreached, hrefused⟩
    constructor
    · intro hcoupled hcurrent htarget
      obtain ⟨written, hset, -⟩ := hreached hcoupled hcurrent htarget
      rw [allPass_iff]
      cases hverdict : camera.firstVerdict target [.width, .height, .offsetX, .offsetY] with
      | none => rfl
      | some verdict =>
        exfalso
        cases verdict with
        | pass => exact camera.firstVerdict_ne_pass hverdict
        | off base inc =>
          obtain ⟨error, herror⟩ := hoff base inc hverdict
          rw [hrun, andThen_of_error herror] at hset
          cases hset
        | overflow =>
          rw [hrun, andThen_of_error (hoverflow hverdict)] at hset
          cases hset
    · intro hany
      obtain ⟨error, hset⟩ := hrefused hany
      cases hverdict : camera.firstVerdict target [.width, .height, .offsetX, .offsetY] with
      | none =>
        refine .inr ⟨(camera.allPass_iff target).mpr hverdict, fun hfirst => ?_⟩
        obtain ⟨rest, hgrows, hwrites⟩ := camera.writes_eq_first current target
        have hmade : camera.setInteger (firstWrite current target).1
            (firstWrite current target).2 ⟨current, []⟩ = (.ok (),
              ⟨current.set (firstWrite current target).1 (firstWrite current target).2,
                [current.set (firstWrite current target).1 (firstWrite current target).2]⟩) := by
          simp only [setInteger, hfirst, List.nil_append]
        rw [hrun, andThen_of_ok (hpass hverdict), hwrites, andThen_of_ok hmade] at hset
        have hkept := hgrows ⟨current.set (firstWrite current target).1
          (firstWrite current target).2, [current.set (firstWrite current target).1
            (firstWrite current target).2]⟩
        rw [hset] at hkept
        exact absurd (List.prefix_nil.mp hkept) (List.cons_ne_nil _ _)
      | some verdict =>
        cases verdict with
        | pass => exact absurd hverdict camera.firstVerdict_ne_pass
        | off base inc => exact .inl ⟨base, inc, hverdict⟩
        | overflow =>
          rw [hrun, andThen_of_error (hoverflow hverdict)] at hset
          cases hset
  · rintro ⟨hpassed, hjudged⟩
    constructor
    · intro hcoupled hcurrent htarget
      have hnone := (camera.allPass_iff target).mp (hpassed hcoupled hcurrent htarget)
      obtain ⟨more, hmoves, hinside⟩ := moves_writes hcoupled hcurrent htarget []
      exact ⟨more, by rw [hrun, andThen_of_ok (hpass hnone), hmoves, List.nil_append], hinside⟩
    · intro hany
      rcases hjudged hany with ⟨base, inc, hfirst⟩ | ⟨hpassed, hrefused⟩
      · obtain ⟨error, herror⟩ := hoff base inc hfirst
        exact ⟨error, by rw [hrun, andThen_of_error herror]⟩
      · obtain ⟨rest, -, hwrites⟩ := camera.writes_eq_first current target
        cases hfirst : camera.inRange current (firstWrite current target).1
            (firstWrite current target).2 with
        | ok done => exact absurd hfirst hrefused
        | error error =>
          have hstopped : camera.setInteger (firstWrite current target).1
              (firstWrite current target).2 ⟨current, []⟩ =
              (.error (.error (.genApi error)), ⟨current, []⟩) := by
            simp only [setInteger, hfirst]
          refine ⟨.genApi error, ?_⟩
          rw [hrun, andThen_of_ok (hpass ((camera.allPass_iff target).mp hpassed)), hwrites,
            andThen_of_error hstopped]

theorem viaF64_of_small {value : Int64} (h : value.toInt.natAbs < 2 ^ 53) :
    viaF64 value = value := by
  have hnearest : i64AsF64 value = value.toInt := by
    unfold i64AsF64 nearestF64
    rw [if_pos h]
    split <;> omega
  have hclamp : Max.max (-2 ^ 63) (Min.min value.toInt (2 ^ 63 - 1)) = value.toInt := by
    omega
  rw [viaF64, hnearest, f64AsI64, hclamp, Int64.ofInt_toInt]

/-- The increments are small, and the minima small and not negative beside values that are
not either. -/
structure Small (target : Roi) : Prop where
  inc : ∀ feature, ∀ inc ∈ camera.inc feature, inc.toInt.natAbs < 2 ^ 53
  min : ∀ feature, ∃ min, camera.min feature = some min ∧ 0 ≤ min.toInt ∧ min.toInt < 2 ^ 53
  hasMax : ∀ feature, camera.hasMax feature = true
  value : ∀ feature, 0 ≤ (target.get feature).toInt

theorem verdict_eq_pass_iff (hsmall : camera.Small target) (feature : RoiFeature) :
    (camera.verdict feature (target.get feature) = .pass ↔
      ¬ camera.OffIncrement feature (target.get feature)) ∧
    camera.verdict feature (target.get feature) ≠ .overflow := by
  obtain ⟨min, hmin, hnonneg, hless⟩ := hsmall.min feature
  have hbase : viaF64 min = min := viaF64_of_small (by omega)
  have hvalue := hsmall.value feature
  have hlarge := (target.get feature).toInt_lt
  have hone : (1 : Int64).toInt = 1 := rfl
  cases hinc : camera.inc feature with
  | none =>
    have hreported : camera.reportedInc feature = none := by
      simp [reportedInc, hinc]
    have hverdict : camera.verdict feature (target.get feature) = .pass := by
      simp only [verdict, hreported]
    rw [hverdict]
    refine ⟨⟨fun _ => ?_, fun _ => rfl⟩, by simp⟩
    rintro ⟨inc, hsome, -⟩
    rw [hinc] at hsome
    cases hsome
  | some inc =>
    have hvia : viaF64 inc = inc := viaF64_of_small (hsmall.inc feature inc hinc)
    by_cases hstep : 1 < inc
    · have hreported : camera.reportedInc feature = some inc := by
        rw [reportedInc, if_pos (hsmall.hasMax feature), hmin, hinc, Option.bind_some,
          Option.map_some, hvia, Option.filter_some, if_pos (by simpa using hstep)]
      have hverdict : camera.verdict feature (target.get feature) =
          if ((target.get feature).toInt - min.toInt) % inc.toInt = 0 then .pass
          else .off min inc := by
        simp only [verdict, hreported, hmin, hbase]
        rw [if_neg (by omega)]
      have hoff : camera.OffIncrement feature (target.get feature) ↔
          ((target.get feature).toInt - min.toInt) % inc.toInt ≠ 0 := by
        rw [Int64.lt_iff_toInt_lt, hone] at hstep
        unfold OffIncrement
        rw [hmin, Option.getD_some]
        simp only [ne_eq, ← Int.dvd_iff_tmod_eq_zero, ← Int.dvd_iff_emod_eq_zero]
        constructor
        · rintro ⟨other, hother, -, hnot⟩
          rw [hinc] at hother
          cases hother
          exact hnot
        · intro hnot
          exact ⟨inc, hinc, hstep, hnot⟩
      rw [hverdict, hoff, not_not]
      split <;> simp [*]
    · have hreported : camera.reportedInc feature = none := by
        rw [reportedInc, if_pos (hsmall.hasMax feature), hmin, hinc, Option.bind_some,
          Option.map_some, hvia, Option.filter_some, if_neg (by simpa using hstep)]
      have hverdict : camera.verdict feature (target.get feature) = .pass := by
        simp only [verdict, hreported]
      rw [hverdict]
      refine ⟨⟨fun _ => ?_, fun _ => rfl⟩, by simp⟩
      rintro ⟨other, hsome, hother, -⟩
      rw [hinc] at hsome
      cases hsome
      exact hstep (Int64.lt_iff_toInt_lt.mpr hother)

theorem judgedRight_of_small (hsmall : camera.Small target) (current : Roi) :
    camera.JudgedRight current target := by
  constructor
  · intro _ _ hfits feature
    exact (verdict_eq_pass_iff hsmall feature).1.mpr
      ((camera.inRange_eq_ok_iff target feature _).mp (hfits feature)).2.2
  · rintro ⟨feature, hoff⟩
    cases hverdict : camera.firstVerdict target [.width, .height, .offsetX, .offsetY] with
    | none =>
      have hpass := (camera.allPass_iff target).mpr hverdict feature
      exact absurd hoff ((verdict_eq_pass_iff hsmall feature).1.mp hpass)
    | some verdict =>
      cases verdict with
      | pass => exact absurd hverdict camera.firstVerdict_ne_pass
      | off base inc => exact .inl ⟨base, inc, hverdict⟩
      | overflow =>
        obtain ⟨other, -, hother⟩ := List.exists_of_findSome?_eq_some hverdict
        split at hother
        · cases hother
        · exact absurd (Option.some.inj hother) (verdict_eq_pass_iff hsmall other).2

/-- A sensor of 64 by 48 pixels, with sizes and offsets in steps of 4. -/
def steppedCamera : RoiCamera where
  sensorWidth := 64
  sensorHeight := 48
  declares := fun _ => true
  min := fun _ => some 0
  inc := fun _ => some 4
  hasMax := fun _ => true

theorem setsRoi_stepped : steppedCamera.SetsRoi ⟨32, 16, 32, 32⟩ ⟨0, 8, 64, 40⟩ :=
  (setsRoi_iff (fun _ => rfl) _ _).mpr (judgedRight_of_small
    ⟨fun _ _ h => by cases h; decide, fun _ => ⟨0, rfl, by decide, by decide⟩, fun _ => rfl,
      fun feature => by cases feature <;> decide⟩ _)

/-- The same without a minimum for its sizes: their increments are not checked
beforehand. -/
def openCamera : RoiCamera :=
  { steppedCamera with
    min := fun feature => if feature = .width ∨ feature = .height then none else some 0 }

/-- A width off its increment is refused only after the offset was zeroed. -/
theorem offset_zeroed_before_refusal :
    ¬ openCamera.SetsRoi ⟨32, 0, 32, 32⟩ ⟨0, 0, 30, 32⟩ := by
  rintro ⟨-, hrefused⟩
  obtain ⟨error, hset⟩ := hrefused ⟨.width, 4, rfl, by decide, by decide⟩
  have hwritten : (openCamera.setRoi ⟨0, 0, 30, 32⟩ ⟨⟨32, 0, 32, 32⟩, []⟩).2.written =
      [⟨0, 0, 32, 32⟩] := by decide
  rw [hset] at hwritten
  cases hwritten

end RoiCamera

end VivaGenicam.Camera
