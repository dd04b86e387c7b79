import VivaGenicam.Gige.TimeSync

/-!
Runs of a synchroniser: which samples its window holds, since when it maps ticks to times,
and how exactly it maps them when the device's clock is linear.
-/

namespace VivaGenicam.Time

/-- The last `cap` of the samples, in order. -/
def lastSamples {α : Type} (cap : ℕ) (samples : List α) : List α :=
  samples.drop (samples.length - cap)

theorem length_lastSamples {α : Type} (cap : ℕ) (samples : List α) :
    (lastSamples cap samples).length = min samples.length cap := by
  rw [lastSamples, List.length_drop]
  omega

variable {cap : ℕ}

theorem mem_of_mem_lastSamples {α : Type} {samples : List α} {sample : α}
    (h : sample ∈ lastSamples cap samples) : sample ∈ samples :=
  List.mem_of_mem_drop h

theorem lastSamples_concat {α : Type} (hcap : 0 < cap) (samples : List α) (sample : α) :
    lastSamples cap (samples ++ [sample]) =
      (if (lastSamples cap samples).length = cap then (lastSamples cap samples).tail
        else lastSamples cap samples) ++ [sample] := by
  rw [length_lastSamples]
  unfold lastSamples
  rw [List.length_append, List.length_singleton]
  split
  · rw [List.tail_drop, List.drop_append_of_le_length (by omega),
      show samples.length + 1 - cap = samples.length - cap + 1 by omega]
  · rw [show samples.length + 1 - cap = 0 by omega, show samples.length - cap = 0 by omega]
    rfl

def SyncOp.sample? : SyncOp → Option (ℕ × ℚ)
  | .update devTs hostInstant _ => some (devTs, hostInstant)
  | _ => none

def samplesOf (ops : List SyncOp) : List (ℕ × ℚ) :=
  ops.filterMap SyncOp.sample?

/-- No sample's instant is before an earlier one's. -/
def Forward (ops : List SyncOp) : Prop :=
  ((samplesOf ops).map Prod.snd).Pairwise (· ≤ ·)

variable {op : SyncOp}

namespace TimeSync

variable (sync : TimeSync)

/-- The state that a call's recomputation starts from. -/
def prepared : SyncOp → TimeSync
  | .update devTs hostInstant now => (sync.withOrigin hostInstant now).push devTs hostInstant
  | .fit freqHz => sync.withFreq freqHz
  | .setFreqHz freq => sync.setFreqHz freq
  | .setAutoFit enabled => sync.setAutoFit enabled
  | .setTrimOutliers enabled => sync.setTrimOutliers enabled

def attempts : SyncOp → Bool
  | .update _ _ _ => sync.autoFit
  | .fit _ => true
  | _ => false

/-- What the call's recomputation comes to: `none` where it makes none or cannot fit. -/
def recomputed (op : SyncOp) : Option (ℚ × ℚ) :=
  if sync.attempts op then (sync.prepared op).refit else none

/-- New coefficients replace the old ones, which stay without them. -/
def landed (coefficients : Option (ℚ × ℚ)) : TimeSync :=
  match coefficients with
  | some coefficients => { sync with a := coefficients.1, b := coefficients.2, fitted := true }
  | none => sync

theorem recompute_eq : sync.recompute = sync.landed sync.refit := rfl

theorem apply_eq (op : SyncOp) :
    sync.apply op = (sync.prepared op).landed (sync.recomputed op) := by
  cases op with
  | update devTs hostInstant now =>
    have hauto : ((sync.withOrigin hostInstant now).push devTs hostInstant).autoFit =
        sync.autoFit := by
      unfold withOrigin push
      cases sync.originInstant <;> rfl
    simp only [apply, update, hauto, recomputed, prepared]
    by_cases hfit : sync.autoFit = true
    · have hattempts : sync.attempts (.update devTs hostInstant now) = true := hfit
      rw [if_pos hfit, if_pos hattempts, recompute_eq]
    · have hattempts : ¬ sync.attempts (.update devTs hostInstant now) = true := hfit
      rw [if_neg hfit, if_neg hattempts]
      rfl
  | fit freqHz => rfl
  | setFreqHz freq => rfl
  | setAutoFit enabled => rfl
  | setTrimOutliers enabled => rfl

section

variable (coefficients : Option (ℚ × ℚ))

@[simp] theorem window_landed : (sync.landed coefficients).window = sync.window := by
  cases coefficients <;> rfl

@[simp] theorem cap_landed : (sync.landed coefficients).cap = sync.cap := by
  cases coefficients <;> rfl

@[simp] theorem originInstant_landed :
    (sync.landed coefficients).originInstant = sync.originInstant := by
  cases coefficients <;> rfl

@[simp] theorem originSystem_landed :
    (sync.landed coefficients).originSystem = sync.originSystem := by
  cases coefficients <;> rfl

theorem fitted_landed :
    (sync.landed coefficients).fitted = (coefficients.isSome || sync.fitted) := by
  cases coefficients <;> rfl

end

@[simp] theorem window_withOrigin (hostInstant now : ℚ) :
    (sync.withOrigin hostInstant now).window = sync.window := by
  unfold withOrigin
  cases sync.originInstant <;> rfl

theorem originInstant_withOrigin (hostInstant now : ℚ) :
    (sync.withOrigin hostInstant now).originInstant =
      some (sync.originInstant.getD hostInstant) := by
  unfold withOrigin
  cases horigin : sync.originInstant with
  | none => rfl
  | some origin => exact horigin

@[simp] theorem cap_withOrigin (hostInstant now : ℚ) :
    (sync.withOrigin hostInstant now).cap = sync.cap := by
  unfold withOrigin
  cases sync.originInstant <;> rfl

theorem fitted_prepared (op : SyncOp) : (sync.prepared op).fitted = sync.fitted := by
  cases op with
  | update devTs hostInstant now =>
    simp only [prepared, push, withOrigin]
    cases sync.originInstant <;> rfl
  | fit freqHz => cases freqHz <;> rfl
  | setFreqHz freq => rfl
  | setAutoFit enabled => rfl
  | setTrimOutliers enabled => rfl

theorem cap_prepared (op : SyncOp) : (sync.prepared op).cap = sync.cap := by
  cases op with
  | update devTs hostInstant now => exact cap_withOrigin sync hostInstant now
  | fit freqHz => cases freqHz <;> rfl
  | setFreqHz freq => rfl
  | setAutoFit enabled => rfl
  | setTrimOutliers enabled => rfl

theorem prepared_of_no_sample (h : op.sample? = none) :
    (sync.prepared op).window = sync.window ∧
      (sync.prepared op).originInstant = sync.originInstant ∧
      (sync.prepared op).originSystem = sync.originSystem := by
  cases op with
  | update devTs hostInstant now => cases h
  | fit freqHz => cases freqHz <;> exact ⟨rfl, rfl, rfl⟩
  | setFreqHz freq => exact ⟨rfl, rfl, rfl⟩
  | setAutoFit enabled => exact ⟨rfl, rfl, rfl⟩
  | setTrimOutliers enabled => exact ⟨rfl, rfl, rfl⟩

theorem refit_some {coefficients : ℚ × ℚ} (h : sync.refit = some coefficients) :
    ∃ origin, sync.originInstant = some origin ∧
      fitWindow sync.freqHz sync.trimOutliers origin sync.window = some coefficients :=
  Option.bind_eq_some_iff.mp h

theorem refit_isSome : sync.refit.isSome ↔
    sync.originInstant.isSome ∧ 2 ≤ sync.window.length ∧ Moved sync.freqHz sync.window := by
  unfold refit
  cases sync.originInstant with
  | none => simp
  | some origin =>
    simp only [Option.bind_eq_bind, Option.bind_some, fitWindow_isSome, Option.isSome_some,
      true_and]

end TimeSync

theorem runSync_concat (cap : ℕ) (ops : List SyncOp) (op : SyncOp) :
    runSync cap (ops ++ [op]) = (runSync cap ops).apply op := by
  rw [runSync, List.foldl_append]
  rfl

/-- A recomputation of the run has succeeded. -/
def Succeeded (cap : ℕ) (ops : List SyncOp) : Prop :=
  ∃ before op after, ops = before ++ op :: after ∧ ((runSync cap before).recomputed op).isSome

theorem not_succeeded_nil (cap : ℕ) : ¬ Succeeded cap [] := by
  rintro ⟨before, op, after, hops, -⟩
  cases before <;> cases hops

variable {ops : List SyncOp}

theorem succeeded_concat :
    Succeeded cap (ops ++ [op]) ↔
      ((runSync cap ops).recomputed op).isSome ∨ Succeeded cap ops := by
  constructor
  · rintro ⟨before, fitted, after, hops, hsome⟩
    rcases List.eq_nil_or_concat after with rfl | ⟨after, last, rfl⟩
    · obtain ⟨rfl, hlast⟩ := List.append_inj' hops rfl
      cases hlast
      exact Or.inl hsome
    · rw [List.concat_eq_append, ← List.cons_append, ← List.append_assoc] at hops
      obtain ⟨rfl, -⟩ := List.append_inj' hops rfl
      exact Or.inr ⟨before, fitted, after, rfl, hsome⟩
  · rintro (hsome | ⟨before, fitted, after, rfl, hsome⟩)
    · exact ⟨ops, op, [], rfl, hsome⟩
    · exact ⟨before, fitted, after ++ [op], by simp, hsome⟩

/-- What holds of a synchroniser after any calls. -/
structure Kept (cap : ℕ) (ops : List SyncOp) (sync : TimeSync) : Prop where
  capacity : sync.cap = cap
  window : sync.window = lastSamples cap (samplesOf ops)
  origin : sync.originInstant = (samplesOf ops).head?.map Prod.snd
  system : sync.originSystem.isSome = sync.originInstant.isSome
  fitted : sync.fitted = true ↔ Succeeded cap ops
  mapped : sync.fitted = true → sync.originInstant.isSome = true

theorem Kept.prepared (hcap : 0 < cap) {sync : TimeSync} (h : Kept cap ops sync) (op : SyncOp) :
    (sync.prepared op).window = lastSamples cap (samplesOf (ops ++ [op])) ∧
      (sync.prepared op).originInstant = (samplesOf (ops ++ [op])).head?.map Prod.snd ∧
      (sync.prepared op).originSystem.isSome = (sync.prepared op).originInstant.isSome := by
  cases hsample : op.sample? with
  | none =>
    obtain ⟨hwindow, horigin, hsystem⟩ := sync.prepared_of_no_sample hsample
    have hsame : samplesOf (ops ++ [op]) = samplesOf ops := by
      simp [samplesOf, List.filterMap_append, hsample]
    rw [hwindow, horigin, hsystem, hsame]
    exact ⟨h.window, h.origin, h.system⟩
  | some sample =>
    cases op with
    | update devTs hostInstant now =>
      have hadded : samplesOf (ops ++ [.update devTs hostInstant now]) =
          samplesOf ops ++ [(devTs, hostInstant)] := by
        simp [samplesOf, List.filterMap_append, SyncOp.sample?]
      rw [hadded, lastSamples_concat hcap, List.head?_append]
      refine ⟨?_, ?_, ?_⟩
      · simp only [TimeSync.prepared, TimeSync.push, TimeSync.window_withOrigin,
          TimeSync.cap_withOrigin, h.capacity, h.window]
      · have horigin := sync.originInstant_withOrigin hostInstant now
        rw [h.origin] at horigin
        simp only [TimeSync.prepared, TimeSync.push, horigin]
        cases (samplesOf ops).head? <;> rfl
      · simp only [TimeSync.prepared, TimeSync.push, TimeSync.withOrigin]
        cases horigin : sync.originInstant with
        | none => rfl
        | some origin => rw [h.system, horigin]
    | fit freqHz => cases hsample
    | setFreqHz freq => cases hsample
    | setAutoFit enabled => cases hsample
    | setTrimOutliers enabled => cases hsample

theorem kept (hcap : 0 < cap) (ops : List SyncOp) :
    Kept cap ops (runSync cap ops) := by
  induction ops using List.reverseRecOn with
  | nil =>
    refine ⟨rfl, List.drop_nil.symm, rfl, rfl, ?_, ?_⟩
    · exact ⟨fun h => Bool.noConfusion h, fun h => absurd h (not_succeeded_nil cap)⟩
    · exact fun h => Bool.noConfusion h
  | append_singleton ops op ih =>
    obtain ⟨hwindow, horigin, hsystem⟩ := ih.prepared hcap op
    have hmapped : ((runSync cap ops).apply op).fitted = true →
        ((runSync cap ops).prepared op).originInstant.isSome = true := by
      rw [TimeSync.apply_eq, TimeSync.fitted_landed, TimeSync.fitted_prepared, Bool.or_eq_true]
      rintro (hsome | hfitted)
      · unfold TimeSync.recomputed at hsome
        split at hsome
        · exact (TimeSync.refit_isSome _).mp hsome |>.1
        · cases hsome
      · rw [horigin]
        have hbefore := ih.mapped hfitted
        rw [ih.origin, Option.isSome_map] at hbefore
        rw [samplesOf] at hbefore
        rw [Option.isSome_map, samplesOf, List.filterMap_append, List.head?_append,
          Option.isSome_or, hbefore, Bool.true_or]
    rw [runSync_concat]
    refine ⟨?_, ?_, ?_, ?_, ?_, ?_⟩
    · rw [TimeSync.apply_eq, TimeSync.cap_landed, TimeSync.cap_prepared, ih.capacity]
    · rw [TimeSync.apply_eq, TimeSync.window_landed, hwindow]
    · rw [TimeSync.apply_eq, TimeSync.originInstant_landed, horigin]
    · rw [TimeSync.apply_eq, TimeSync.originSystem_landed, TimeSync.originInstant_landed,
        hsystem]
    · rw [TimeSync.apply_eq, TimeSync.fitted_landed, TimeSync.fitted_prepared, Bool.or_eq_true,
        succeeded_concat, ih.fitted]
    · intro hfitted
      rw [TimeSync.apply_eq, TimeSync.originInstant_landed]
      exact hmapped hfitted

theorem Kept.originInstant_isSome {sync : TimeSync}
    (h : Kept cap ops sync) (hwindow : 0 < sync.window.length) :
    sync.originInstant.isSome = true := by
  cases hsamples : samplesOf ops with
  | nil =>
    have hempty := h.window
    rw [hsamples] at hempty
    simp [hempty, lastSamples] at hwindow
  | cons first samples =>
    rw [h.origin, hsamples]
    rfl

theorem Kept.toHostTime_none {sync : TimeSync} (h : Kept cap ops sync) (devTs : ℕ) :
    sync.toHostTime devTs = none ↔ ¬ Succeeded cap ops := by
  rw [← h.fitted]
  unfold TimeSync.toHostTime
  split
  · rename_i hfitted
    exact iff_of_true rfl hfitted
  · rename_i hfitted
    rw [not_not] at hfitted
    have hsystem := h.system.trans (h.mapped hfitted)
    obtain ⟨system, hsystem⟩ := Option.isSome_iff_exists.mp hsystem
    refine iff_of_false ?_ (not_not.mpr hfitted)
    simp only [hsystem, Option.bind_eq_bind, Option.bind_some]
    split <;> exact Option.some_ne_none _

theorem Kept.origin_le {sync : TimeSync} (h : Kept cap ops sync)
    (hforward : Forward ops) {origin : ℚ} (horigin : sync.originInstant = some origin)
    {sample : ℕ × ℚ} (hsample : sample ∈ sync.window) : origin ≤ sample.2 := by
  rw [h.window] at hsample
  have hmem := mem_of_mem_lastSamples hsample
  have hhead := h.origin
  rw [horigin] at hhead
  unfold Forward at hforward
  cases hsamples : samplesOf ops with
  | nil =>
    rw [hsamples] at hmem
    cases hmem
  | cons first samples =>
    rw [hsamples] at hmem hhead hforward
    simp only [List.head?_cons, Option.map_some, Option.some.injEq] at hhead
    rw [List.map_cons, List.pairwise_cons] at hforward
    rw [hhead]
    rcases List.mem_cons.mp hmem with rfl | hmem
    · exact le_refl _
    · exact hforward.1 sample.2 (List.mem_map.mpr ⟨sample, hmem, rfl⟩)

/-- The call on clocks that are ahead by so much. -/
def SyncOp.ahead (ticks : ℕ) (seconds : ℚ) : SyncOp → SyncOp
  | .update devTs hostInstant now => .update (devTs + ticks) (hostInstant + seconds) (now + seconds)
  | op => op

/-- The synchroniser that the same calls lead to on those clocks. -/
def TimeSync.ahead (ticks : ℕ) (seconds : ℚ) (sync : TimeSync) : TimeSync :=
  { sync with
    b := sync.b - sync.a * ticks
    window := sync.window.map (Time.ahead ticks seconds)
    originInstant := sync.originInstant.map (· + seconds)
    originSystem := sync.originSystem.map (· + seconds) }

namespace TimeSync

variable (ticks : ℕ) (seconds : ℚ) (sync : TimeSync)

theorem refit_ahead :
    (sync.ahead ticks seconds).refit =
      sync.refit.map fun coefficients : ℚ × ℚ =>
        (coefficients.1, coefficients.2 - coefficients.1 * ticks) := by
  unfold refit
  simp only [ahead]
  cases sync.originInstant with
  | none => rfl
  | some origin =>
    simp only [Option.map_some, Option.bind_eq_bind, Option.bind_some]
    exact fitWindow_ahead _ _ _ _ _ _

theorem prepared_ahead (op : SyncOp) :
    (sync.ahead ticks seconds).prepared (op.ahead ticks seconds) =
      (sync.prepared op).ahead ticks seconds := by
  cases op with
  | update devTs hostInstant now =>
    have horigin : (sync.ahead ticks seconds).withOrigin (hostInstant + seconds) (now + seconds) =
        (sync.withOrigin hostInstant now).ahead ticks seconds := by
      simp only [withOrigin, ahead]
      cases horigin : sync.originInstant <;> simp [horigin]
    simp only [SyncOp.ahead, prepared, horigin]
    simp only [push, ahead, List.length_map]
    split <;> simp [Time.ahead, List.map_tail]
  | fit freqHz => cases freqHz <;> rfl
  | setFreqHz freq => rfl
  | setAutoFit enabled => rfl
  | setTrimOutliers enabled => rfl

theorem recomputed_ahead (op : SyncOp) :
    (sync.ahead ticks seconds).recomputed (op.ahead ticks seconds) =
      (sync.recomputed op).map fun coefficients : ℚ × ℚ =>
        (coefficients.1, coefficients.2 - coefficients.1 * ticks) := by
  have hattempts : (sync.ahead ticks seconds).attempts (op.ahead ticks seconds) =
      sync.attempts op := by
    cases op <;> rfl
  unfold recomputed
  rw [hattempts, prepared_ahead, refit_ahead]
  split <;> rfl

theorem apply_ahead (op : SyncOp) :
    (sync.ahead ticks seconds).apply (op.ahead ticks seconds) =
      (sync.apply op).ahead ticks seconds := by
  rw [apply_eq, apply_eq, prepared_ahead, recomputed_ahead]
  cases sync.recomputed op <;> rfl

theorem toHostTime_ahead (devTs : ℕ) :
    (sync.ahead ticks seconds).toHostTime (devTs + ticks) =
      (sync.toHostTime devTs).map (· + seconds) := by
  have hseconds : sync.a * ((devTs + ticks : ℕ) : ℚ) + (sync.b - sync.a * ticks) =
      sync.a * devTs + sync.b := by
    push_cast
    ring
  unfold toHostTime
  simp only [ahead, hseconds]
  by_cases hfitted : sync.fitted = true
  · rw [if_neg (not_not.mpr hfitted), if_neg (not_not.mpr hfitted)]
    cases sync.originSystem with
    | none => rfl
    | some origin =>
      simp only [Option.map_some, Option.bind_eq_bind, Option.bind_some]
      by_cases hnonneg : 0 ≤ sync.a * devTs + sync.b
      · rw [if_pos hnonneg, if_pos hnonneg, Option.map_some, add_right_comm]
      · rw [if_neg hnonneg, if_neg hnonneg, Option.map_some]
  · rw [if_pos hfitted, if_pos hfitted]
    rfl

end TimeSync

theorem runSync_ahead (cap ticks : ℕ) (seconds : ℚ) (ops : List SyncOp) :
    runSync cap (ops.map (SyncOp.ahead ticks seconds)) =
      (runSync cap ops).ahead ticks seconds := by
  induction ops using List.reverseRecOn with
  | nil =>
    simp [runSync, TimeSync.withCapacity, TimeSync.ahead]
  | append_singleton ops op ih =>
    rw [List.map_append, List.map_singleton, runSync_concat, runSync_concat, ih,
      TimeSync.apply_ahead]

/-- What holds in every state a run reaches. -/
structure Reached (cap : ℕ) (ops : List SyncOp) : Prop where
  window : (runSync cap ops).window = lastSamples cap (samplesOf ops)
  unmapped : ∀ devTs, (runSync cap ops).toHostTime devTs = none ↔ ¬ Succeeded cap ops
  ahead : ∀ ticks seconds devTs,
    (runSync cap (ops.map (SyncOp.ahead ticks seconds))).toHostTime (devTs + ticks) =
      ((runSync cap ops).toHostTime devTs).map (· + seconds)

/-- A fit answers with the coefficients of the window it is called on, and with nothing
where that window cannot be fitted. -/
structure Answered (sync : TimeSync) (freqHz : Option ℚ) : Prop where
  refused : ¬ (2 ≤ sync.window.length ∧ Moved (sync.withFreq freqHz).freqHz sync.window) →
    (sync.fit freqHz).1 = none
  fitted : 2 ≤ sync.window.length ∧ Moved (sync.withFreq freqHz).freqHz sync.window →
    ∃ origin coefficients, sync.originInstant = some origin ∧
      fitWindow (sync.withFreq freqHz).freqHz sync.trimOutliers origin sync.window =
        some coefficients ∧
      (sync.fit freqHz).1 = some coefficients

/-- A time on the host's axis as a system time: nothing is shown before the origin. -/
def systemTime (origin system time : ℚ) : ℚ :=
  system + (max origin time - origin)

/-- What holds after a recomputation. -/
structure Recomputed (sync : TimeSync) (samples : List (ℕ × ℚ)) : Prop where
  linear : ∀ slope intercept, 0 < slope → Linear slope intercept sync.window →
    TicksAdvance sync.window →
    (∀ freq, reported sync.freqHz = some freq → freq = 1 / slope) →
    ∃ origin system, samples.head?.map Prod.snd = some origin ∧
      sync.originSystem = some system ∧
      ∀ devTs, sync.toHostTime devTs =
        some (systemTime origin system (slope * devTs + intercept))

/-- What holds of every call of a run. -/
structure Called (cap : ℕ) (before : List SyncOp) (op : SyncOp) : Prop where
  answered : ∀ freqHz, op = .fit freqHz → Answered (runSync cap before) freqHz
  recomputed : (runSync cap before).attempts op = true →
    Recomputed ((runSync cap before).apply op) (samplesOf (before ++ [op]))
  slope : ((runSync cap before).recomputed op).isSome = true →
    ∀ freq, reported ((runSync cap before).apply op).freqHz = some freq →
      ((runSync cap before).apply op).a = 1 / freq

/-- Device time is mapped as it should be all through a run. -/
structure Dated (cap : ℕ) (ops : List SyncOp) : Prop where
  reached : ∀ before after, ops = before ++ after → Reached cap before
  called : ∀ before op after, ops = before ++ op :: after → Called cap before op

/-- Nothing was fitted before the call, or the window it is made on can be fitted. -/
def Fresh (sync : TimeSync) (freqHz : Option ℚ) : Prop :=
  sync.fitted = false ∨
    (2 ≤ sync.window.length ∧ Moved (sync.withFreq freqHz).freqHz sync.window)

theorem reached (hcap : 0 < cap) (ops : List SyncOp) : Reached cap ops where
  window := (kept hcap ops).window
  unmapped := (kept hcap ops).toHostTime_none
  ahead ticks seconds devTs := by
    rw [runSync_ahead, TimeSync.toHostTime_ahead]

theorem TimeSync.fit_eq (sync : TimeSync) (freqHz : Option ℚ) :
    (sync.fit freqHz).1 =
      ((sync.withFreq freqHz).refit).or
        (if sync.fitted then some (sync.a, sync.b) else none) := by
  have hsame : (sync.withFreq freqHz).fitted = sync.fitted ∧
      (sync.withFreq freqHz).a = sync.a ∧ (sync.withFreq freqHz).b = sync.b := by
    cases freqHz <;> exact ⟨rfl, rfl, rfl⟩
  unfold fit
  rw [recompute_eq]
  cases (sync.withFreq freqHz).refit with
  | some coefficients => rfl
  | none => simp only [landed, hsame, Option.none_or]

theorem answered_iff {sync : TimeSync} (h : Kept cap ops sync)
    (freqHz : Option ℚ) : Answered sync freqHz ↔ Fresh sync freqHz := by
  have hwindow : (sync.withFreq freqHz).window = sync.window ∧
      (sync.withFreq freqHz).originInstant = sync.originInstant ∧
      (sync.withFreq freqHz).trimOutliers = sync.trimOutliers := by
    cases freqHz <;> exact ⟨rfl, rfl, rfl⟩
  have hrefit := (sync.withFreq freqHz).refit_isSome
  rw [hwindow.1, hwindow.2.1] at hrefit
  constructor
  · intro hanswered
    by_contra hstale
    simp only [Fresh, not_or, Bool.not_eq_false] at hstale
    have hnone := hanswered.refused hstale.2
    rw [sync.fit_eq, hstale.1, if_pos rfl] at hnone
    cases hfit : (sync.withFreq freqHz).refit <;> simp [hfit] at hnone
  · intro hfresh
    refine ⟨?_, ?_⟩
    · intro hunfit
      have hfitted : sync.fitted = false := hfresh.resolve_right hunfit
      have hnone : (sync.withFreq freqHz).refit = none := by
        rw [← Option.not_isSome_iff_eq_none, hrefit]
        exact fun hall => hunfit hall.2
      rw [sync.fit_eq, hnone, hfitted]
      rfl
    · intro hfit
      have hsome := h.originInstant_isSome (by omega)
      obtain ⟨coefficients, hcoefficients⟩ :=
        Option.isSome_iff_exists.mp (hrefit.mpr ⟨hsome, hfit⟩)
      obtain ⟨origin, horigin, hwindowFit⟩ := TimeSync.refit_some _ hcoefficients
      rw [hwindow.2.1] at horigin
      rw [hwindow.2.2, hwindow.1] at hwindowFit
      exact ⟨origin, coefficients, horigin, hwindowFit, by
        rw [sync.fit_eq, hcoefficients, Option.some_or]⟩

theorem TicksAdvance.two_le {window : List (ℕ × ℚ)} (h : TicksAdvance window) :
    2 ≤ window.length := by
  obtain ⟨first, last, hfirst, hlast, hlt⟩ := h
  rcases window with - | ⟨head, - | ⟨second, rest⟩⟩
  · cases hfirst
  · simp only [List.head?_cons, List.getLast?_singleton, Option.some.injEq] at hfirst hlast
    rw [← hfirst, ← hlast] at hlt
    omega
  · simp

theorem TicksAdvance.moved {window : List (ℕ × ℚ)} (h : TicksAdvance window)
    (freqHz : Option ℚ) : Moved freqHz window := by
  unfold Moved
  cases reported freqHz with
  | some freq => exact h
  | none =>
    obtain ⟨first, last, hfirst, hlast, hlt⟩ := h
    exact ⟨first, List.mem_of_head? hfirst, last, List.mem_of_getLast? hlast, hlt.ne⟩

theorem TimeSync.apply_of_recomputed {sync : TimeSync} {coefficients : ℚ × ℚ}
    (h : sync.recomputed op = some coefficients) :
    sync.apply op = { sync.prepared op with
      a := coefficients.1, b := coefficients.2, fitted := true } ∧
      (sync.prepared op).refit = some coefficients := by
  refine ⟨?_, ?_⟩
  · rw [apply_eq, h]
    rfl
  · unfold recomputed at h
    split at h
    · exact h
    · cases h

theorem recomputed (hcap : 0 < cap) {before : List SyncOp} (hforward : Forward (before ++ [op]))
    (hattempts : (runSync cap before).attempts op = true) :
    Recomputed ((runSync cap before).apply op) (samplesOf (before ++ [op])) where
  linear slope intercept hslope hlinear hadvance hfreq := by
    have hkept := kept hcap (before ++ [op])
    rw [runSync_concat] at hkept
    have htwo := hadvance.two_le
    obtain ⟨origin, horigin⟩ :=
      Option.isSome_iff_exists.mp (hkept.originInstant_isSome (by omega))
    have hsystem := hkept.system
    rw [horigin, Option.isSome_some] at hsystem
    obtain ⟨system, hsystem⟩ := Option.isSome_iff_exists.mp hsystem
    have hsome : ((runSync cap before).recomputed op).isSome = true := by
      rw [TimeSync.recomputed, if_pos hattempts, TimeSync.refit_isSome]
      rw [TimeSync.apply_eq] at horigin htwo hadvance
      rw [TimeSync.originInstant_landed] at horigin
      rw [TimeSync.window_landed] at htwo hadvance
      exact ⟨by rw [horigin, Option.isSome_some], htwo, hadvance.moved _⟩
    obtain ⟨coefficients, hcoefficients⟩ := Option.isSome_iff_exists.mp hsome
    obtain ⟨hstate, hrefit⟩ := TimeSync.apply_of_recomputed hcoefficients
    obtain ⟨start, hstart, hwindow⟩ := TimeSync.refit_some _ hrefit
    rw [hstate] at horigin hlinear hfreq
    rw [horigin] at hstart
    obtain rfl := Option.some.inj hstart
    have hfit : coefficients = (slope, intercept - origin) := by
      refine fitWindow_of_linear hwindow hlinear ?_ ?_
      · intro sample hsample
        apply hkept.origin_le hforward
        · rw [hstate]
          exact horigin
        · rw [hstate]
          exact hsample
      · intro freq hreported
        rw [hfreq freq hreported, one_div_one_div]
    refine ⟨origin, system, ?_, hsystem, ?_⟩
    · rw [← hkept.origin, hstate]
      exact horigin
    · intro devTs
      rw [hstate] at hsystem
      rw [hstate, hfit]
      simp only [TimeSync.toHostTime, not_true_eq_false, if_false]
      simp only at hsystem
      rw [hsystem]
      simp only [Option.bind_eq_bind, Option.bind_some, systemTime]
      split
      · rename_i hafter
        rw [max_eq_right (by linarith), add_sub_assoc]
      · rename_i hbefore
        rw [max_eq_left (by linarith), sub_self, add_zero]

theorem slope_of_recomputed {sync : TimeSync} (h : (sync.recomputed op).isSome = true) {freq : ℚ}
    (hfreq : reported (sync.apply op).freqHz = some freq) :
    (sync.apply op).a = 1 / freq := by
  obtain ⟨coefficients, hcoefficients⟩ := Option.isSome_iff_exists.mp h
  obtain ⟨hstate, hrefit⟩ := TimeSync.apply_of_recomputed hcoefficients
  obtain ⟨origin, -, hwindow⟩ := TimeSync.refit_some _ hrefit
  rw [hstate] at hfreq ⊢
  exact fitWindow_slope hwindow hfreq

theorem samplesOf_append (ops more : List SyncOp) :
    samplesOf (ops ++ more) = samplesOf ops ++ samplesOf more :=
  List.filterMap_append

theorem Forward.of_append {more : List SyncOp} (h : Forward (ops ++ more)) :
    Forward ops := by
  unfold Forward at h ⊢
  rw [samplesOf_append, List.map_append] at h
  exact (List.pairwise_append.mp h).1

/-- A run dates every tick rightly exactly when each of its fits is made before anything
was fitted or on a window that can be fitted. -/
theorem dated_iff (cap : ℕ) (ops : List SyncOp) (hcap : 2 ≤ cap) (hforward : Forward ops) :
    Dated cap ops ↔
      ∀ before freqHz after, ops = before ++ .fit freqHz :: after →
        Fresh (runSync cap before) freqHz := by
  have hpos : 0 < cap := by omega
  constructor
  · intro hdated before freqHz after hops
    exact (answered_iff (kept hpos before) freqHz).mp
      ((hdated.called before _ after hops).answered freqHz rfl)
  · intro hfresh
    refine ⟨fun before after _ => reached hpos before, ?_⟩
    intro before op after hops
    have hprefix : Forward (before ++ [op]) := by
      rw [hops, ← List.singleton_append, ← List.append_assoc] at hforward
      exact hforward.of_append
    refine ⟨?_, recomputed hpos hprefix, ?_⟩
    · intro freqHz hop
      subst hop
      exact (answered_iff (kept hpos before) freqHz).mpr (hfresh before freqHz after hops)
    · intro hsome freq hfreq
      exact slope_of_recomputed hsome hfreq

def movedClock : List SyncOp :=
  [.update 0 0 0, .update 1 1 1, .fit none]

theorem dated_movedClock : Dated 2 movedClock :=
  (dated_iff 2 movedClock (le_refl 2) (by
    simp [Forward, movedClock, samplesOf, List.filterMap_cons, SyncOp.sample?])).mpr (by
      intro before freqHz after hops
      unfold movedClock at hops
      rcases before with - | ⟨first, - | ⟨second, - | ⟨third, rest⟩⟩⟩
      · simp at hops
      · simp at hops
      · simp only [List.cons_append, List.nil_append, List.cons.injEq, SyncOp.fit.injEq] at hops
        obtain ⟨rfl, rfl, rfl, -⟩ := hops
        right
        have hwindow : (runSync 2 [.update 0 0 0, .update 1 1 1]).window = [(0, 0), (1, 1)] := by
          decide +kernel
        have hfreq : ((runSync 2 [.update 0 0 0, .update 1 1 1]).withFreq none).freqHz = none := by
          decide +kernel
        rw [hwindow, hfreq]
        exact ⟨le_refl 2, (0, 0), by simp, (1, 1), by simp, by decide⟩
      · simp at hops)

/-- Two samples a tick apart, then one more at the last tick, and a fit. -/
def stuckClock : List SyncOp :=
  [.update 0 0 0, .update 1 1 1, .update 1 2 2, .fit none]

/-- The fit answers with the coefficients of the window before. -/
theorem fit_stuckClock_stale :
    ¬ ∀ (cap : ℕ) (ops : List SyncOp), 2 ≤ cap → Forward ops → Dated cap ops := by
  intro h
  have hforward : Forward stuckClock := by
    norm_num [Forward, stuckClock, samplesOf, List.filterMap_cons, SyncOp.sample?]
  have hcall := (h 2 stuckClock (le_refl 2) hforward).called
    (stuckClock.take 3) (.fit none) [] rfl
  have hrefused := (hcall.answered none rfl).refused
  have hwindow : (runSync 2 (stuckClock.take 3)).window = [(1, 1), (1, 2)] := by
    decide +kernel
  have hfreq : ((runSync 2 (stuckClock.take 3)).withFreq none).freqHz = none := by
    decide +kernel
  have hstale : ((runSync 2 (stuckClock.take 3)).fit none).1 = some (1, 0) := by
    decide +kernel
  rw [hwindow, hfreq, hstale] at hrefused
  have hstuck : ¬ Moved none [(1, 1), (1, 2)] := by
    rintro ⟨sample, hsample, other, hother, hne⟩
    simp only [List.mem_cons, List.not_mem_nil, or_false] at hsample hother
    rcases hsample with rfl | rfl <;> rcases hother with rfl | rfl <;> exact hne rfl
  cases hrefused fun hmoved => hstuck hmoved.2

end VivaGenicam.Time
