import VivaGenicam.Library.Regression
import Mathlib.Data.List.Sort
import Mathlib.Data.Rat.Floor

/-!
Device timestamps on the host's clock: a window of the latest samples, the line fitted to
it, and the mapping through that line. Floats are rationals here, and instants and system
times are rationals on an axis of their own, so no duration is too long to hold.
-/

namespace VivaGenicam.Time

open Library.Regression

/-- `f64::EPSILON`. -/
def epsilon : ℚ := 1 / 2 ^ 52

/-- `Instant::duration_since` in seconds; nothing passes before the origin. -/
def durationSince (host origin : ℚ) : ℚ :=
  max 0 (host - origin)

/-- A linear mapping from ticks to seconds since the origin, and the samples behind it. -/
structure TimeSync where
  a : ℚ
  b : ℚ
  window : List (ℕ × ℚ)
  cap : ℕ
  originInstant : Option ℚ
  originSystem : Option ℚ
  freqHz : Option ℚ
  autoFit : Bool
  trimOutliers : Bool
  fitted : Bool

def TimeSync.withCapacity (cap : ℕ) : TimeSync where
  a := 0
  b := 0
  window := []
  cap := cap
  originInstant := none
  originSystem := none
  freqHz := none
  autoFit := true
  trimOutliers := false
  fitted := false

/-- Least squares: slope and intercept, unless the arguments do not spread. -/
def computeFit (samples : List (ℚ × ℚ)) : Option (ℚ × ℚ) :=
  if samples.length < 2 then none
  else
    let sums := samples.foldl (fun sums sample => (sums.1 + sample.1, sums.2 + sample.2)) (0, 0)
    let n : ℚ := samples.length
    let meanX := sums.1 / n
    let meanY := sums.2 / n
    let moments := samples.foldl (fun moments sample =>
      let dx := sample.1 - meanX
      let dy := sample.2 - meanY
      (moments.1 + dx * dx, moments.2 + dx * dy)) (0, 0)
    if |moments.1| < epsilon then none
    else
      let slope := moments.2 / moments.1
      some (slope, meanY - slope * meanX)

/-- The samples whose residuals are not among the tenth at either end, in their order. -/
def trimmedSamples (coefficients : ℚ × ℚ) (samples : List (ℚ × ℚ)) (trim : ℕ) :
    List (ℚ × ℚ) :=
  let residuals := (samples.zipIdx.map fun sample =>
    (sample.2, sample.1.2 - (coefficients.1 * sample.1.1 + coefficients.2))).mergeSort
      fun residual other => residual.2 ≤ other.2
  ((residuals.take (residuals.length - trim)).drop trim).filterMap fun residual =>
    samples[residual.1]?

/-- The regression, made again without the outliers where it is asked to trim them. -/
def fitLine (trimOutliers : Bool) (samples : List (ℚ × ℚ)) : Option (ℚ × ℚ) := do
  let coefficients ← computeFit samples
  if trimOutliers ∧ 10 ≤ samples.length then
    let trim := ⌊(samples.length : ℚ) * (1 / 10)⌋₊
    if 0 < trim ∧ trim * 2 < samples.length then
      some ((computeFit (trimmedSamples coefficients samples trim)).getD coefficients)
    else some coefficients
  else some coefficients

/-- The reported frequency is the slope; the intercept is the offsets' median. -/
def fitOffset (freq : ℚ) (samples : List (ℚ × ℚ)) : Option (ℚ × ℚ) := do
  let first ← samples.head?
  let last ← samples.getLast?
  if last.1 ≤ first.1 then none
  else
    let slope := 1 / freq
    let offsets := (samples.map fun sample => sample.2 - slope * sample.1).mergeSort
    let interceptRel ← offsets[offsets.length / 2]?
    some (slope, interceptRel)

def reported (freqHz : Option ℚ) : Option ℚ :=
  freqHz.filter fun freq => 0 < freq

/-- The samples relative to the window's first tick and the origin. -/
def relativeSamples (origin : ℚ) (baseTick : ℕ) (window : List (ℕ × ℚ)) : List (ℚ × ℚ) :=
  window.map fun sample => ((sample.1 : ℚ) - baseTick, durationSince sample.2 origin)

/-- A reported frequency is the slope; a regression over a short window cannot beat it. -/
def fitSamples (freqHz : Option ℚ) (trimOutliers : Bool) (samples : List (ℚ × ℚ)) :
    Option (ℚ × ℚ) :=
  match reported freqHz with
  | some freq => fitOffset freq samples
  | none => fitLine trimOutliers samples

/-- The coefficients that a window is fitted with, or `none` where `recompute` returns early. -/
def fitWindow (freqHz : Option ℚ) (trimOutliers : Bool) (origin : ℚ) (window : List (ℕ × ℚ)) :
    Option (ℚ × ℚ) := do
  if window.length < 2 then none
  else
    let first ← window.head?
    let samples := relativeSamples origin first.1 window
    let relative ← fitSamples freqHz trimOutliers samples
    some (relative.1, relative.2 - relative.1 * first.1)

namespace TimeSync

def refit (sync : TimeSync) : Option (ℚ × ℚ) := do
  let origin ← sync.originInstant
  fitWindow sync.freqHz sync.trimOutliers origin sync.window

def recompute (sync : TimeSync) : TimeSync :=
  match sync.refit with
  | some coefficients => { sync with a := coefficients.1, b := coefficients.2, fitted := true }
  | none => sync

/-- The first sample sets the origin; `now` is the system's clock at the call. -/
def withOrigin (sync : TimeSync) (hostInstant now : ℚ) : TimeSync :=
  match sync.originInstant with
  | some _ => sync
  | none => { sync with originInstant := some hostInstant, originSystem := some now }

/-- The oldest sample leaves a full window for the new one. -/
def push (sync : TimeSync) (devTs : ℕ) (hostInstant : ℚ) : TimeSync :=
  let window := if sync.window.length = sync.cap then sync.window.tail else sync.window
  { sync with window := window ++ [(devTs, hostInstant)] }

def update (sync : TimeSync) (devTs : ℕ) (hostInstant now : ℚ) : TimeSync :=
  let sync := (sync.withOrigin hostInstant now).push devTs hostInstant
  if sync.autoFit then sync.recompute else sync

def setFreqHz (sync : TimeSync) (freq : ℚ) : TimeSync :=
  { sync with freqHz := some freq }

def setAutoFit (sync : TimeSync) (enabled : Bool) : TimeSync :=
  { sync with autoFit := enabled }

def setTrimOutliers (sync : TimeSync) (enabled : Bool) : TimeSync :=
  { sync with trimOutliers := enabled }

def withFreq (sync : TimeSync) (freqHz : Option ℚ) : TimeSync :=
  match freqHz with
  | some freq => sync.setFreqHz freq
  | none => sync

def fit (sync : TimeSync) (freqHz : Option ℚ) : Option (ℚ × ℚ) × TimeSync :=
  let sync := (sync.withFreq freqHz).recompute
  (if sync.fitted then some (sync.a, sync.b) else none, sync)

/-- A time before the origin is shown as the origin. -/
def toHostTime (sync : TimeSync) (devTs : ℕ) : Option ℚ :=
  if ¬ sync.fitted then none
  else do
    let origin ← sync.originSystem
    let seconds := sync.a * devTs + sync.b
    if 0 ≤ seconds then some (origin + seconds) else some origin

end TimeSync

/-- What is done to a synchroniser. -/
inductive SyncOp where
  | update (devTs : ℕ) (hostInstant now : ℚ)
  | fit (freqHz : Option ℚ)
  | setFreqHz (freq : ℚ)
  | setAutoFit (enabled : Bool)
  | setTrimOutliers (enabled : Bool)
deriving DecidableEq

def TimeSync.apply (sync : TimeSync) : SyncOp → TimeSync
  | .update devTs hostInstant now => sync.update devTs hostInstant now
  | .fit freqHz => (sync.fit freqHz).2
  | .setFreqHz freq => sync.setFreqHz freq
  | .setAutoFit enabled => sync.setAutoFit enabled
  | .setTrimOutliers enabled => sync.setTrimOutliers enabled

/-- The state after the calls, from the first one on. -/
def runSync (cap : ℕ) (ops : List SyncOp) : TimeSync :=
  ops.foldl TimeSync.apply (.withCapacity cap)

theorem foldl_pair (f g : ℚ × ℚ → ℚ) (samples : List (ℚ × ℚ)) (sums : ℚ × ℚ) :
    samples.foldl (fun sums sample => (sums.1 + f sample, sums.2 + g sample)) sums =
      (sums.1 + (samples.map f).sum, sums.2 + (samples.map g).sum) := by
  induction samples generalizing sums with
  | nil => simp
  | cons sample samples ih => simp [ih, add_assoc]

/-- The means that a regression is taken around. -/
def means (samples : List (ℚ × ℚ)) : ℚ × ℚ :=
  ((samples.map Prod.fst).sum / samples.length, (samples.map Prod.snd).sum / samples.length)

theorem computeFit_eq (samples : List (ℚ × ℚ)) :
    computeFit samples =
      if samples.length < 2 then none
      else if |spread (means samples).1 samples| < epsilon then none
      else
        let slope := comovement (means samples) samples / spread (means samples).1 samples
        some (slope, (means samples).2 - slope * (means samples).1) := by
  unfold computeFit
  simp only [foldl_pair, zero_add, spread, comovement, means]
  rfl

variable {samples : List (ℚ × ℚ)} {coefficients : ℚ × ℚ}

theorem computeFit_some (h : computeFit samples = some coefficients) :
    2 ≤ samples.length ∧ spread (means samples).1 samples ≠ 0 ∧
      coefficients.1 = comovement (means samples) samples / spread (means samples).1 samples ∧
      coefficients.2 = (means samples).2 - coefficients.1 * (means samples).1 := by
  rw [computeFit_eq] at h
  split at h
  · cases h
  · rename_i hlength
    split at h
    · cases h
    · rename_i hspread
      simp only [Option.some.injEq] at h
      subst h
      refine ⟨by omega, ?_, rfl, rfl⟩
      intro hzero
      rw [hzero, abs_zero] at hspread
      exact hspread (by norm_num [epsilon])

variable {slope intercept : ℚ}

theorem computeFit_of_line (hline : OnLine slope intercept samples)
    (h : computeFit samples = some coefficients) : coefficients = (slope, intercept) := by
  obtain ⟨hlength, hspread, hslope, hintercept⟩ := computeFit_some h
  have hcount : (samples.length : ℚ) ≠ 0 := by
    exact_mod_cast (by omega : samples.length ≠ 0)
  have hmeans : (means samples).2 = slope * (means samples).1 + intercept := hline.mean hcount
  have hcenter : means samples =
      ((means samples).1, slope * (means samples).1 + intercept) := by
    rw [← hmeans]
  have hfirst : coefficients.1 = slope := by
    rw [hslope, hcenter, hline.comovement_eq]
    exact mul_div_cancel_right₀ slope hspread
  refine Prod.ext hfirst ?_
  rw [hintercept, hfirst, hmeans]
  ring

@[simp] theorem length_relativeSamples (origin : ℚ) (baseTick : ℕ) (window : List (ℕ × ℚ)) :
    (relativeSamples origin baseTick window).length = window.length :=
  List.length_map _

def TicksDiffer (window : List (ℕ × ℚ)) : Prop :=
  ∃ sample ∈ window, ∃ other ∈ window, sample.1 ≠ other.1

variable {window : List (ℕ × ℚ)}

theorem spread_of_ticksDiffer (h : TicksDiffer window) (origin : ℚ) (baseTick : ℕ) (center : ℚ) :
    1 / 2 ≤ spread center (relativeSamples origin baseTick window) := by
  obtain ⟨sample, hsample, other, hother, hne⟩ := h
  have hticks : ((sample.1 : ℚ) - baseTick) - ((other.1 : ℚ) - baseTick) =
      (((sample.1 : ℤ) - other.1 : ℤ) : ℚ) := by
    push_cast
    ring
  have hwhole : (1 : ℤ) ≤ ((sample.1 : ℤ) - other.1) * ((sample.1 : ℤ) - other.1) := by
    have hdiff : (sample.1 : ℤ) - other.1 ≠ 0 := by omega
    have hpos := mul_self_pos.mpr hdiff
    omega
  have hsquare : (1 : ℚ) ≤ (((sample.1 : ℤ) - other.1 : ℤ) : ℚ) *
      (((sample.1 : ℤ) - other.1 : ℤ) : ℚ) := by
    exact_mod_cast hwhole
  have hspread := @half_square_le_spread ℚ _ _ _
    ((sample.1 : ℚ) - baseTick, durationSince sample.2 origin)
    ((other.1 : ℚ) - baseTick, durationSince other.2 origin)
    (relativeSamples origin baseTick window)
    (List.mem_map.mpr ⟨sample, hsample, rfl⟩) (List.mem_map.mpr ⟨other, hother, rfl⟩)
    (by
      intro heq
      rw [sub_left_inj] at heq
      exact hne (by exact_mod_cast heq)) center
  simp only [hticks] at hspread
  linarith

theorem computeFit_isSome (origin : ℚ) (baseTick : ℕ) (window : List (ℕ × ℚ)) :
    (computeFit (relativeSamples origin baseTick window)).isSome ↔
      2 ≤ window.length ∧ TicksDiffer window := by
  constructor
  · intro h
    obtain ⟨coefficients, hfit⟩ := Option.isSome_iff_exists.mp h
    obtain ⟨hlength, hspread, -, -⟩ := computeFit_some hfit
    rw [length_relativeSamples] at hlength
    refine ⟨hlength, ?_⟩
    by_contra hsame
    apply hspread
    obtain ⟨first, hfirst⟩ := List.exists_mem_of_length_pos (show 0 < window.length by omega)
    have hall : ∀ point ∈ relativeSamples origin baseTick window,
        point.1 = (first.1 : ℚ) - baseTick := by
      intro point hpoint
      obtain ⟨sample, hsample, rfl⟩ := List.mem_map.mp hpoint
      have hticks : sample.1 = first.1 := by
        by_contra hne
        exact hsame ⟨sample, hsample, first, hfirst, hne⟩
      rw [hticks]
    have hpoints : relativeSamples origin baseTick window ≠ [] := by
      intro hnil
      have hcount := length_relativeSamples origin baseTick window
      rw [hnil, List.length_nil] at hcount
      omega
    rw [means, mean_eq hpoints hall]
    exact spread_eq_zero hall
  · rintro ⟨hlength, hdiffer⟩
    have hspread := spread_of_ticksDiffer hdiffer origin baseTick
      (means (relativeSamples origin baseTick window)).1
    rw [computeFit_eq, length_relativeSamples, if_neg (by omega), if_neg, Option.isSome_some]
    rw [not_lt, abs_of_nonneg (by linarith)]
    exact le_trans (by norm_num [epsilon]) hspread

theorem mem_of_mem_trimmedSamples {trim : ℕ}
    {sample : ℚ × ℚ} (h : sample ∈ trimmedSamples coefficients samples trim) :
    sample ∈ samples := by
  obtain ⟨residual, -, hget⟩ := List.mem_filterMap.mp h
  exact List.mem_of_getElem? hget

theorem fitLine_isSome (trimOutliers : Bool) (samples : List (ℚ × ℚ)) :
    (fitLine trimOutliers samples).isSome = (computeFit samples).isSome := by
  unfold fitLine
  cases computeFit samples with
  | none => rfl
  | some coefficients =>
    simp only [Option.bind_eq_bind, Option.bind_some]
    split
    · split <;> rfl
    · rfl

variable {trimOutliers : Bool}

theorem fitLine_of_line (hline : OnLine slope intercept samples)
    (h : fitLine trimOutliers samples = some coefficients) :
    coefficients = (slope, intercept) := by
  unfold fitLine at h
  obtain ⟨first, hfirst, h⟩ := Option.bind_eq_some_iff.mp h
  have hall := computeFit_of_line hline hfirst
  split at h
  · dsimp only at h
    split at h
    · simp only [Option.some.injEq] at h
      generalize htrimmed : trimmedSamples first samples
        ⌊(samples.length : ℚ) * (1 / 10)⌋₊ = trimmed at h
      have hsub : ∀ sample ∈ trimmed, sample ∈ samples := by
        intro sample hsample
        rw [← htrimmed] at hsample
        exact mem_of_mem_trimmedSamples hsample
      cases hagain : computeFit trimmed with
      | none => rw [← h, hagain, Option.getD_none, hall]
      | some again =>
        rw [← h, hagain, Option.getD_some]
        exact computeFit_of_line (hline.mono hsub) hagain
    · simp only [Option.some.injEq] at h
      rw [← h, hall]
  · simp only [Option.some.injEq] at h
    rw [← h, hall]

def TicksAdvance (window : List (ℕ × ℚ)) : Prop :=
  ∃ first last, window.head? = some first ∧ window.getLast? = some last ∧ first.1 < last.1

theorem fitOffset_some {freq : ℚ} (h : fitOffset freq samples = some coefficients) :
    coefficients.1 = 1 / freq ∧
      ∃ sample ∈ samples, coefficients.2 = sample.2 - coefficients.1 * sample.1 := by
  unfold fitOffset at h
  obtain ⟨first, hfirst, h⟩ := Option.bind_eq_some_iff.mp h
  obtain ⟨last, hlast, h⟩ := Option.bind_eq_some_iff.mp h
  split at h
  · cases h
  · obtain ⟨intercept, hmedian, h⟩ := Option.bind_eq_some_iff.mp h
    simp only [Option.some.injEq] at h
    subst h
    refine ⟨rfl, ?_⟩
    have hmem := List.mem_mergeSort.mp (List.mem_of_getElem? hmedian)
    obtain ⟨sample, hsample, hoffset⟩ := List.mem_map.mp hmem
    exact ⟨sample, hsample, hoffset.symm⟩

theorem fitOffset_isSome (freq origin : ℚ) (baseTick : ℕ) (window : List (ℕ × ℚ)) :
    (fitOffset freq (relativeSamples origin baseTick window)).isSome ↔
      TicksAdvance window := by
  unfold fitOffset TicksAdvance
  simp only [relativeSamples, List.head?_map, List.getLast?_map]
  cases hfirst : window.head? with
  | none => simp
  | some first =>
    cases hlast : window.getLast? with
    | none => simp
    | some last =>
      simp only [Option.map_some, Option.bind_eq_bind, Option.bind_some, Option.some.injEq,
        exists_and_left, exists_eq_left', sub_le_sub_iff_right, Nat.cast_le]
      split
      · rename_i hle
        simp only [Option.isSome_none, Bool.false_eq_true, false_iff]
        omega
      · rename_i hlt
        have hpos : 0 < window.length := by
          cases window with
          | nil => simp at hfirst
          | cons head tail => simp
        simp only [List.length_mergeSort, List.length_map]
        rw [List.getElem?_eq_getElem (by
          rw [List.length_mergeSort, List.length_map, List.length_map]
          omega)]
        simp only [Option.bind_some, Option.isSome_some, true_iff]
        omega

/-- The device's clock moved: past the first tick where a frequency is reported, and to
another one at all where the slope has to come from the samples. -/
def Moved (freqHz : Option ℚ) (window : List (ℕ × ℚ)) : Prop :=
  match reported freqHz with
  | some _ => TicksAdvance window
  | none => TicksDiffer window

theorem fitWindow_isSome (freqHz : Option ℚ) (trimOutliers : Bool) (origin : ℚ)
    (window : List (ℕ × ℚ)) :
    (fitWindow freqHz trimOutliers origin window).isSome ↔
      2 ≤ window.length ∧ Moved freqHz window := by
  unfold fitWindow Moved
  split
  · simp only [Option.isSome_none, Bool.false_eq_true, false_iff]
    omega
  · rename_i hlength
    cases hfirst : window.head? with
    | none =>
      rw [List.head?_eq_none_iff] at hfirst
      simp [hfirst] at hlength
    | some first =>
      simp only [Option.bind_eq_bind, Option.bind_some, Option.isSome_bind, Option.isSome_some,
        Option.any_true, fitSamples]
      cases reported freqHz with
      | some freq =>
        rw [fitOffset_isSome, iff_and_self]
        omega
      | none => rw [fitLine_isSome, computeFit_isSome]

variable {freqHz : Option ℚ} {origin : ℚ}

theorem fitWindow_some (h : fitWindow freqHz trimOutliers origin window = some coefficients) :
    ∃ (first : ℕ × ℚ) (relative : ℚ × ℚ), window.head? = some first ∧
      coefficients = (relative.1, relative.2 - relative.1 * first.1) ∧
      fitSamples freqHz trimOutliers (relativeSamples origin first.1 window) =
        some relative := by
  unfold fitWindow at h
  split at h
  · cases h
  · obtain ⟨first, hfirst, h⟩ := Option.bind_eq_some_iff.mp h
    obtain ⟨relative, hrelative, h⟩ := Option.bind_eq_some_iff.mp h
    simp only [Option.some.injEq] at h
    exact ⟨first, relative, hfirst, h.symm, hrelative⟩

theorem fitWindow_slope {freq : ℚ}
    (h : fitWindow freqHz trimOutliers origin window = some coefficients)
    (hfreq : reported freqHz = some freq) : coefficients.1 = 1 / freq := by
  obtain ⟨first, relative, hfirst, hcoefficients, hrelative⟩ := fitWindow_some h
  simp only [fitSamples, hfreq] at hrelative
  rw [hcoefficients]
  exact (fitOffset_some hrelative).1

/-- The samples' instants are a line's values at their ticks. -/
def Linear (slope intercept : ℚ) (window : List (ℕ × ℚ)) : Prop :=
  ∀ sample ∈ window, sample.2 = slope * sample.1 + intercept

theorem Linear.relativeSamples
    (h : Linear slope intercept window) (horigin : ∀ sample ∈ window, origin ≤ sample.2)
    (baseTick : ℕ) :
    OnLine slope (slope * baseTick + intercept - origin)
      (relativeSamples origin baseTick window) := by
  intro point hpoint
  obtain ⟨sample, hsample, rfl⟩ := List.mem_map.mp hpoint
  have hafter := horigin sample hsample
  simp only [durationSince]
  rw [max_eq_right (by linarith), h sample hsample]
  ring

theorem fitWindow_of_linear (h : fitWindow freqHz trimOutliers origin window = some coefficients)
    (hlinear : Linear slope intercept window) (horigin : ∀ sample ∈ window, origin ≤ sample.2)
    (hfreq : ∀ freq, reported freqHz = some freq → 1 / freq = slope) :
    coefficients = (slope, intercept - origin) := by
  obtain ⟨first, relative, hfirst, hcoefficients, hrelative⟩ := fitWindow_some h
  have hline := hlinear.relativeSamples horigin first.1
  have hfit : relative = (slope, slope * first.1 + intercept - origin) := by
    cases hreported : reported freqHz with
    | some freq =>
      simp only [fitSamples, hreported] at hrelative
      obtain ⟨hslope, sample, hsample, hoffset⟩ := fitOffset_some hrelative
      rw [hfreq freq hreported] at hslope
      refine Prod.ext hslope ?_
      rw [hoffset, hslope, hline sample hsample]
      ring
    | none =>
      simp only [fitSamples, hreported] at hrelative
      exact fitLine_of_line hline hrelative
  rw [hcoefficients, hfit]
  ring_nf

/-- The sample on clocks that are ahead by so much. -/
def ahead (ticks : ℕ) (seconds : ℚ) (sample : ℕ × ℚ) : ℕ × ℚ :=
  (sample.1 + ticks, sample.2 + seconds)

theorem relativeSamples_ahead (origin : ℚ) (baseTick : ℕ) (window : List (ℕ × ℚ)) (ticks : ℕ)
    (seconds : ℚ) :
    relativeSamples (origin + seconds) (baseTick + ticks) (window.map (ahead ticks seconds)) =
      relativeSamples origin baseTick window := by
  unfold relativeSamples
  rw [List.map_map]
  apply List.map_congr_left
  intro sample hsample
  simp only [Function.comp, ahead, durationSince, Nat.cast_add, add_sub_add_right_eq_sub]

theorem fitWindow_ahead (freqHz : Option ℚ) (trimOutliers : Bool) (origin : ℚ)
    (window : List (ℕ × ℚ)) (ticks : ℕ) (seconds : ℚ) :
    fitWindow freqHz trimOutliers (origin + seconds) (window.map (ahead ticks seconds)) =
      (fitWindow freqHz trimOutliers origin window).map fun coefficients : ℚ × ℚ =>
        (coefficients.1, coefficients.2 - coefficients.1 * ticks) := by
  unfold fitWindow
  rw [List.length_map, List.head?_map]
  split
  · rfl
  · cases window.head? with
    | none => rfl
    | some first =>
      simp only [Option.map_some, Option.bind_eq_bind, Option.bind_some, ahead,
        relativeSamples_ahead]
      cases fitSamples freqHz trimOutliers (relativeSamples origin first.1 window) with
      | none => rfl
      | some relative =>
        simp only [Option.bind_some, Option.map_some, Nat.cast_add]
        ring_nf

end VivaGenicam.Time
