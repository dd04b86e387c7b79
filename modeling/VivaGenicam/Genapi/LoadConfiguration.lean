import VivaGenicam.Genapi.Configuration
import VivaGenicam.Genapi.PersistencePlan
import VivaGenicam.Genapi.ReadBack
import VivaGenicam.Genapi.TextCodecs

/-!
How a configuration is written back: features as text, one value under its selectors, and
two passes over all the values.
-/

namespace VivaGenicam.Genapi

open GenapiXml Library.Programs

open Prog (fail)

/-- Floats as text, the shortest that reads back. -/
structure FloatText where
  toText : Float → Text
  parse : Text → Option Float

def boolText (value : Bool) : Text := if value then lit "true" else lit "false"

/-- `true`/`false` or `1`/`0`, in any case. -/
def parseBool (text : Text) : Option Bool :=
  let word := toAsciiLower (trim text)
  if word = lit "1" ∨ word = lit "true" then some true
  else if word = lit "0" ∨ word = lit "false" then some false
  else none

namespace NodeMap

variable (map : NodeMap) (floats : FloatText)

def getText (name : Text) : Getter Text :=
  match map.node name with
  | some (.integer _) | some (.intConverter _) => do
    let value ← map.getInteger name
    pure (decimalText value)
  | some (.float _) => do
    let value ← map.getFloat name
    pure (floats.toText value)
  | some (.enumeration _) => map.getEnum name
  | some (.boolean _) => do
    let value ← map.getBool name
    pure (boolText value)
  | some (.swissKnife node) =>
    match node.output with
    | .float => do
      let value ← map.getFloat name
      pure (floats.toText value)
    | .integer => do
      let value ← map.getInteger name
      pure (decimalText value)
  | some (.converter node) => do
    let value ← map.getConverter name
    match node.output with
    | .float => pure (floats.toText value)
    | .integer => pure (decimalText (f64ToI64 value))
  | some (.string _) => map.getString name
  | some (.command _) =>
    fail (.type name "Command" "a feature with a value (a command is executed)")
  | some (.category _) => fail (.type name "Category" "a feature with a value")
  | some (.register _) =>
    fail (.type name "Register" "a feature with a text form (a register is read as bytes)")
  | none => fail (.nodeNotFound name)

/-- The negation of a hexadecimal number may overflow. -/
def setText (name text : Text) : Setter Unit :=
  match map.node name with
  | some (.integer _) | some (.intConverter _) =>
    match parseInteger text with
    | none => .stop .panic
    | some none => fail (.invalidText name "an integer" text)
    | some (some value) => map.setInteger name (.ofInt value)
  | some (.float _) | some (.converter _) =>
    match floats.parse (trim text) with
    | none => fail (.invalidText name "a number" text)
    | some value => map.setFloat name value
  | some (.enumeration _) => map.setEnum name (trim text)
  | some (.boolean _) =>
    match parseBool text with
    | none => fail (.invalidText name "a boolean" text)
    | some value => map.setBool name value
  | some (.string _) => map.setString name text
  | some (.command _) =>
    fail (.type name "Command" "a feature that is set (a command is executed)")
  | some other => fail (.type name other.kindName "a feature set from text")
  | none => fail (.nodeNotFound name)

/-- The value itself, once its selectors are set. -/
def writeValue (value : SavedValue) : Setter Unit :=
  match map.node value.feature with
  | some (.register _) =>
    match hexToBytes value.value with
    | none => fail (.invalidText value.feature "hexadecimal bytes" value.value)
    | some bytes => map.setRegister value.feature bytes
  | _ => map.setText floats value.feature value.value

end NodeMap

/-- A camera's features, as a configuration uses them. -/
structure Features (σ : Type) where
  getText : Text → σ → Outcome GenApiError Text × σ
  setText : Text → Text → σ → Outcome GenApiError Unit × σ
  writeValue : SavedValue → σ → Outcome GenApiError Unit × σ

/-- The features of a node map, with calls in calls to a depth. -/
def features {D : Type} (setting : Setting D) (floats : FloatText) (fuel : Nat) :
    Features (World D) where
  getText name := run (get setting fuel) (look setting) (setting.map.getText floats name)
  setText name text :=
    run (set setting fuel) (deed setting fuel) (setting.map.setText floats name text)
  writeValue value := run (set setting fuel) (deed setting fuel) (setting.map.writeValue floats value)

section

variable {ε α σ : Type}

/-- An error is a result to go on from; a call that panics or never returns is not. -/
def caught : Outcome ε α × σ → Outcome ε (Except ε α) × σ
  | (.ok a, s) => (.ok (.ok a), s)
  | (.error (.error e), s) => (.ok (.error e), s)
  | (.error .panic, s) => (.error .panic, s)
  | (.error .outOfFuel, s) => (.error .outOfFuel, s)

def errorOf : Except ε α → Option ε
  | .ok _ => none
  | .error e => some e

end

namespace Features

variable {σ : Type} (features : Features σ)

/-- Whether the value was written, and the selectors moved on the way with the texts that they
had. -/
def writeUnderSelectors (value : SavedValue) : List (Text × Text) → List (Text × Text) → σ →
    Outcome GenApiError (Except GenApiError Unit × List (Text × Text)) × σ
  | [], moved, s => follow (caught (features.writeValue value s)) fun result s =>
    (.ok (result, moved), s)
  | (selector, entry) :: rest, moved, s =>
    follow (caught (features.getText selector s)) fun read s =>
      match read with
      | .error e => (.ok (.error e, moved), s)
      | .ok original =>
        if original = entry then writeUnderSelectors value rest moved s
        else
          follow (caught (features.setText selector entry s)) fun result s =>
            match result with
            | .error e => (.ok (.error e, moved), s)
            | .ok () => writeUnderSelectors value rest (moved ++ [(selector, original)]) s

def putBack : List (Text × Text) → σ → Outcome GenApiError Unit × σ
  | [], s => (.ok (), s)
  | (selector, original) :: rest, s =>
    follow (caught (features.setText selector original s)) fun _ s => putBack rest s

def writeSaved (value : SavedValue) (s : σ) : Outcome GenApiError Unit × σ :=
  follow (features.writeUnderSelectors value value.selectors [] s) fun written s =>
    follow (features.putBack written.2.reverse s) fun _ s => (written.1.mapError .error, s)

end Features

structure LoadFailure where
  value : SavedValue
  error : GenApiError

structure LoadReport where
  written : Nat
  writtenOnRetry : Nat
  failures : List LoadFailure
  warnings : List Text

def isPermanent : GenApiError → Bool
  | .nodeNotFound _ | .type _ _ _ | .access _ _ | .invalidText _ _ _ => true
  | _ => false

/-- A call of `write_saved` during a load. -/
structure Attempt where
  index : Nat
  value : SavedValue
  error : Option GenApiError

/-- A load under way; its attempts are recorded. -/
structure Loading where
  written : Nat := 0
  writtenOnRetry : Nat := 0
  retry : List (Nat × SavedValue) := []
  failed : List (Nat × LoadFailure) := []
  attempts : List Attempt := []

namespace Loading

def record (loading : Loading) (attempt : Attempt) : Loading :=
  { loading with attempts := loading.attempts ++ [attempt] }

def first (loading : Loading) (attempt : Attempt) : Loading :=
  match attempt.error with
  | none => { loading.record attempt with written := loading.written + 1 }
  | some e =>
    if isPermanent e then
      { loading.record attempt with
        failed := loading.failed ++ [(attempt.index, ⟨attempt.value, e⟩)] }
    else
      { loading.record attempt with retry := loading.retry ++ [(attempt.index, attempt.value)] }

def second (loading : Loading) (attempt : Attempt) : Loading :=
  match attempt.error with
  | none =>
    { loading.record attempt with
      written := loading.written + 1
      writtenOnRetry := loading.writtenOnRetry + 1 }
  | some e =>
    { loading.record attempt with
      failed := loading.failed ++ [(attempt.index, ⟨attempt.value, e⟩)] }

/-- The failures are listed in the configuration's order. -/
def report (loading : Loading) (warnings : List Text) : LoadReport where
  written := loading.written
  writtenOnRetry := loading.writtenOnRetry
  failures := (loading.failed.insertionSort fun a b => a.1 ≤ b.1).map (·.2)
  warnings

end Loading

def pass {σ : Type} (write : SavedValue → σ → Outcome GenApiError Unit × σ)
    (note : Loading → Attempt → Loading) :
    List (Nat × SavedValue) → Loading → σ → Outcome GenApiError Loading × σ
  | [], loading, s => (.ok loading, s)
  | (index, value) :: rest, loading, s =>
    follow (caught (write value s)) fun outcome s =>
      pass write note rest (note loading ⟨index, value, errorOf outcome⟩) s

namespace NodeMap

variable (map : NodeMap)

def planPosition (name : Text) : Option Nat := map.persistencePlan.findIdx? (·.name = name)

def selectorsInPlan (name : Text) : List Text :=
  match map.persistencePlan.find? (·.name = name) with
  | some planned => planned.selectors
  | none => map.selectorsOutermostFirst name

/-- A plain value of a selected feature is bound to the selector lines before it; `current`
has the last of each selector first. -/
def bindReplayed (current : List (Text × Text)) : List SavedValue → List SavedValue
  | [] => []
  | value :: rest =>
    if value.selectors = [] then
      let selectors := (map.selectorsInPlan value.feature).filterMap fun selector =>
        (current.lookup selector).map fun entry => (selector, entry)
      let current :=
        if map.selectedBy value.feature = [] then current
        else (value.feature, value.value) :: current
      { value with selectors } :: bindReplayed current rest
    else value :: bindReplayed current rest

def bindReplayedSelectors (values : List SavedValue) : List SavedValue := map.bindReplayed [] values

/-- The plan's order, and the configuration's where the plan has none. -/
def loadsBefore (a b : Nat × SavedValue) : Prop :=
  let position (value : SavedValue) := (map.planPosition value.feature).getD (2 ^ 64 - 1)
  position a.2 < position b.2 ∨ position a.2 = position b.2 ∧ a.1 ≤ b.1

instance : DecidableRel map.loadsBefore := fun _ _ => inferInstanceAs (Decidable (_ ∨ _))

end NodeMap

/-- A configuration from another camera model, or another major version of its XML. -/
def identityWarnings (saved camera : DocumentIdentity) : List Text :=
  let major (version : Text) : Text := version.takeWhile (· ≠ '.')
  if (saved.vendorName ≠ [] ∧ saved.vendorName ≠ camera.vendorName) ∨
      (saved.modelName ≠ [] ∧ saved.modelName ≠ camera.modelName) then
    [lit "saved from a " ++ saved.vendorName ++ ' ' :: saved.modelName ++ lit ", loaded onto a " ++
      camera.vendorName ++ ' ' :: camera.modelName]
  else if camera.version ≠ [] ∧ major saved.version ≠ [] ∧
      major saved.version ≠ major camera.version then
    [lit "saved with version " ++ saved.version ++ lit " of the camera's XML, loaded with version " ++
      camera.version ++ lit ": a different major version is not compatible"]
  else []

/-- The report, and the attempts that it is about. -/
def Features.loadConfiguration {σ : Type} (features : Features σ) (map : NodeMap)
    (camera : DocumentIdentity) (configuration : Configuration) (s : σ) :
    Outcome GenApiError (LoadReport × List Attempt) × σ :=
  let values := map.bindReplayedSelectors configuration.values
  let ordered := (values.mapIdx Prod.mk).insertionSort map.loadsBefore
  follow (pass features.writeSaved Loading.first ordered {} s) fun loading s =>
    follow (pass features.writeSaved Loading.second loading.retry loading s) fun loading s =>
      (.ok (loading.report (identityWarnings configuration.identity camera), loading.attempts), s)

section

variable {ε α σ : Type}

def Halted (outcome : Outcome ε α) : Prop := outcome = .error .panic ∨ outcome = .error .outOfFuel

theorem caught_eq_ok {r : Outcome ε α × σ} {result : Except ε α} {s : σ} :
    caught r = (.ok result, s) ↔ r = (result.mapError .error, s) := by
  obtain ⟨outcome, u⟩ := r
  rcases outcome with ⟨e | _ | _⟩ | a <;> rcases result with e' | a' <;>
    simp [caught, Except.mapError]

theorem caught_eq_error {r : Outcome ε α × σ} {reason : Stop ε} {s : σ}
    (h : caught r = (.error reason, s)) : r = (.error reason, s) ∧ Halted r.1 := by
  obtain ⟨outcome, u⟩ := r
  rcases outcome with ⟨e | _ | _⟩ | a
  · simp [caught] at h
  · cases h
    exact ⟨rfl, .inl rfl⟩
  · cases h
    exact ⟨rfl, .inr rfl⟩
  · simp [caught] at h

end

namespace Attempt

def task (attempt : Attempt) : Nat × SavedValue := (attempt.index, attempt.value)

def succeeded (attempt : Attempt) : Bool := attempt.error.isNone

def retried (attempt : Attempt) : Bool := attempt.error.any fun e => !isPermanent e

def failure (attempt : Attempt) : Option (Nat × LoadFailure) :=
  attempt.error.map fun e => (attempt.index, ⟨attempt.value, e⟩)

end Attempt

section

variable {σ : Type} {write : SavedValue → σ → Outcome GenApiError Unit × σ}
  {note : Loading → Attempt → Loading}

theorem pass_ok {tasks : List (Nat × SavedValue)} {loading loading' : Loading} {s s' : σ}
    (h : pass write note tasks loading s = (.ok loading', s')) :
    ∃ attempts : List Attempt, attempts.map Attempt.task = tasks ∧
      loading' = attempts.foldl note loading := by
  induction tasks generalizing loading s with
  | nil =>
    cases h
    exact ⟨[], rfl, rfl⟩
  | cons task rest ih =>
    obtain ⟨outcome, u, -, hrest⟩ := follow_eq_ok.mp h
    obtain ⟨attempts, htasks, hloading⟩ := ih hrest
    exact ⟨⟨task.1, task.2, errorOf outcome⟩ :: attempts, congrArg (task :: ·) htasks, hloading⟩

theorem pass_halts {tasks : List (Nat × SavedValue)} {loading : Loading} {reason : Stop GenApiError}
    {s s' : σ} (h : pass write note tasks loading s = (.error reason, s')) :
    ∃ task ∈ tasks, ∃ u, Halted (write task.2 u).1 := by
  induction tasks generalizing loading s with
  | nil => cases h
  | cons task rest ih =>
    rcases follow_eq_error.mp h with hwrite | ⟨outcome, u, -, hrest⟩
    · exact ⟨task, List.mem_cons_self, s, (caught_eq_error hwrite).2⟩
    · obtain ⟨other, hmem, hhalted⟩ := ih hrest
      exact ⟨other, List.mem_cons_of_mem _ hmem, hhalted⟩

end

namespace Loading

theorem foldl_first (attempts : List Attempt) (loading : Loading) :
    attempts.foldl first loading = {
      written := loading.written + attempts.countP (·.succeeded)
      writtenOnRetry := loading.writtenOnRetry
      retry := loading.retry ++ (attempts.filter (·.retried)).map Attempt.task
      failed := loading.failed ++ (attempts.filter (!·.retried)).filterMap Attempt.failure
      attempts := loading.attempts ++ attempts } := by
  induction attempts generalizing loading with
  | nil => simp
  | cons attempt rest ih =>
    obtain ⟨index, value, _ | e⟩ := attempt
    · rw [List.foldl_cons, ih]
      simp [first, record, Attempt.succeeded, Attempt.retried, Attempt.failure,
        List.filterMap_cons, Nat.add_assoc, Nat.add_comm 1]
    · rw [List.foldl_cons, ih]
      cases hpermanent : isPermanent e
      · simp [first, record, hpermanent, Attempt.succeeded, Attempt.retried, Attempt.task]
      · simp [first, record, hpermanent, Attempt.succeeded, Attempt.retried, Attempt.failure]

theorem foldl_second (attempts : List Attempt) (loading : Loading) :
    attempts.foldl second loading = {
      written := loading.written + attempts.countP (·.succeeded)
      writtenOnRetry := loading.writtenOnRetry + attempts.countP (·.succeeded)
      retry := loading.retry
      failed := loading.failed ++ attempts.filterMap Attempt.failure
      attempts := loading.attempts ++ attempts } := by
  induction attempts generalizing loading with
  | nil => simp
  | cons attempt rest ih =>
    obtain ⟨index, value, _ | e⟩ := attempt
    · rw [List.foldl_cons, ih]
      simp [second, record, Attempt.succeeded, Attempt.failure, List.filterMap_cons,
        Nat.add_assoc, Nat.add_comm 1]
    · rw [List.foldl_cons, ih]
      simp [second, record, Attempt.succeeded, Attempt.failure]

end Loading

/-- The attempts of a load: each value once, and again those whose error a second attempt can
change. -/
structure Passes (values : List SavedValue) (first second : List Attempt) : Prop where
  once : (first.map Attempt.task).Perm (values.mapIdx Prod.mk)
  again : second.map Attempt.task = (first.filter (·.retried)).map Attempt.task

namespace Passes

variable {values : List SavedValue} {first second : List Attempt}

def last (first second : List Attempt) : List Attempt := first.filter (!·.retried) ++ second

theorem perm_last (h : Passes values first second) :
    ((last first second).map Attempt.task).Perm (values.mapIdx Prod.mk) := by
  unfold last
  rw [List.map_append, h.again, ← List.map_append]
  refine .trans (.map _ ?_) h.once
  have := List.filter_append_perm (fun attempt : Attempt => !attempt.retried) first
  simpa only [Bool.not_not] using this

theorem countP_last : (last first second).countP (·.succeeded) =
    first.countP (·.succeeded) + second.countP (·.succeeded) := by
  unfold last
  rw [List.countP_append, List.countP_filter]
  congr 1
  refine List.countP_congr fun attempt _ => ?_
  obtain ⟨index, value, _ | e⟩ := attempt <;> simp [Attempt.succeeded, Attempt.retried]

theorem length_filterMap_failure (attempts : List Attempt) :
    attempts.countP (·.succeeded) + (attempts.filterMap Attempt.failure).length =
      attempts.length := by
  induction attempts with
  | nil => rfl
  | cons attempt rest ih =>
    obtain ⟨index, value, _ | e⟩ := attempt <;>
      simp [Attempt.succeeded, Attempt.failure, List.filterMap_cons] at ih ⊢ <;> omega

theorem tasks_filterMap_failure (attempts : List Attempt) :
    (attempts.filterMap Attempt.failure).map (fun failed => (failed.1, failed.2.value)) =
      (attempts.filter (!·.succeeded)).map Attempt.task := by
  induction attempts with
  | nil => rfl
  | cons attempt rest ih =>
    obtain ⟨index, value, _ | e⟩ := attempt <;>
      simpa [Attempt.succeeded, Attempt.failure, Attempt.task, List.filterMap_cons] using ih

theorem pairwise_mapIdx (values : List SavedValue) :
    (values.mapIdx Prod.mk).Pairwise fun a b => a.1 < b.1 := by
  rw [List.pairwise_iff_getElem]
  intro i j hi hj hlt
  simpa only [List.getElem_mapIdx] using hlt

theorem failures_sublist (h : Passes values first second) :
    (((((last first second).filterMap Attempt.failure).insertionSort fun a b => a.1 ≤ b.1).map
      (·.2)).map (·.value)).Sublist values := by
  set failed := (last first second).filterMap Attempt.failure
  set tasks := (failed.insertionSort fun a b => a.1 ≤ b.1).map fun entry => (entry.1, entry.2.value)
  have hperm : tasks.Perm (((last first second).filter (!·.succeeded)).map Attempt.task) := by
    rw [← tasks_filterMap_failure]
    exact (List.perm_insertionSort _ _).map _
  have hsubperm : tasks.Subperm (values.mapIdx Prod.mk) :=
    (hperm.subperm.trans (List.filter_sublist.map _).subperm).trans h.perm_last.subperm
  have hnodup : (tasks.map (·.1)).Nodup := by
    obtain ⟨found, hfound, hsublist⟩ := hsubperm
    refine ((hfound.map (·.1)).nodup_iff).mp (.sublist (hsublist.map (·.1)) ?_)
    exact (List.pairwise_map.mpr (pairwise_mapIdx values)).imp fun hlt => Nat.ne_of_lt hlt
  have hsorted : tasks.Pairwise fun a b => a.1 ≤ b.1 :=
    List.pairwise_map.mpr (List.pairwise_insertionSort _ _)
  have hstrict : tasks.Pairwise fun a b => a.1 < b.1 :=
    hsorted.imp₂ (fun _ _ hle hne => Nat.lt_of_le_of_ne hle hne) (List.pairwise_map.mp hnodup)
  have : Std.Antisymm fun a b : Nat × SavedValue => a.1 < b.1 :=
    ⟨fun _ _ hab hba => absurd hab (Nat.lt_asymm hba)⟩
  have hsublist := List.sublist_of_subperm_of_pairwise hsubperm hstrict (pairwise_mapIdx values)
  have hvalues : (values.mapIdx Prod.mk).map (·.2) = values :=
    List.ext_getElem (by simp) fun i _ _ => by simp
  have hmapped := hsublist.map (·.2)
  rw [hvalues, List.map_map] at hmapped
  rw [List.map_map]
  exact hmapped

theorem length_last (h : Passes values first second) :
    (last first second).length = values.length := by
  simpa using h.perm_last.length_eq

theorem index_once (h : Passes values first second) :
    (first.map (·.index)).Perm (List.range values.length) := by
  have hindex := h.once.map (·.1)
  rw [List.map_map] at hindex
  refine hindex.trans (.of_eq (List.ext_getElem (by simp) fun i _ _ => by simp))

theorem index_again (h : Passes values first second) :
    second.map (·.index) = (first.filter (·.retried)).map (·.index) := by
  have hindex := congrArg (List.map (·.1)) h.again
  rwa [List.map_map, List.map_map] at hindex

theorem filter_index_eq {attempts : List Attempt} (hnodup : (attempts.map (·.index)).Nodup)
    {attempt : Attempt} (hmem : attempt ∈ attempts) :
    attempts.filter (fun other => other.index = attempt.index) = [attempt] := by
  induction attempts with
  | nil => cases hmem
  | cons head rest ih =>
    rw [List.map_cons, List.nodup_cons] at hnodup
    rcases List.mem_cons.mp hmem with rfl | hrest
    · rw [List.filter_cons_of_pos (by simp), List.filter_eq_nil_iff.mpr]
      intro other hother hsame
      exact hnodup.1 (List.mem_map.mpr ⟨other, hother, by simpa using hsame⟩)
    · rw [List.filter_cons_of_neg, ih hnodup.2 hrest]
      intro hsame
      exact hnodup.1 (List.mem_map.mpr ⟨attempt, hrest, (of_decide_eq_true hsame).symm⟩)

theorem attempts_of (h : Passes values first second) {index : Nat} (hindex : index < values.length) :
    ∃ attempt : Attempt, ((first ++ second).filter fun other => other.index = index) = [attempt] ∧
        attempt.retried = false ∨
      ∃ again : Attempt,
        ((first ++ second).filter fun other => other.index = index) = [attempt, again] ∧
          attempt.retried = true := by
  have hnodup : (first.map (·.index)).Nodup := h.index_once.nodup_iff.mpr List.nodup_range
  have hnodup' : (second.map (·.index)).Nodup := by
    rw [h.index_again]
    exact hnodup.sublist (List.filter_sublist.map _)
  obtain ⟨attempt, hattempt, rfl⟩ :=
    List.mem_map.mp (h.index_once.mem_iff.mpr (List.mem_range.mpr hindex))
  have hagain : (attempt.index ∈ second.map (·.index)) ↔ attempt.retried = true := by
    rw [h.index_again, List.mem_map]
    constructor
    · rintro ⟨other, hother, hsame⟩
      obtain ⟨hother, hretried⟩ := List.mem_filter.mp hother
      rwa [← List.inj_on_of_nodup_map hnodup hother hattempt hsame]
    · exact fun hretried => ⟨attempt, List.mem_filter.mpr ⟨hattempt, hretried⟩, rfl⟩
  refine ⟨attempt, ?_⟩
  rw [List.filter_append, filter_index_eq hnodup hattempt]
  cases hretried : attempt.retried
  · refine .inl ⟨?_, rfl⟩
    rw [List.filter_eq_nil_iff.mpr, List.append_nil]
    intro other hother hsame
    have := hagain.mp (List.mem_map.mpr ⟨other, hother, by simpa using hsame⟩)
    rw [hretried] at this
    cases this
  · obtain ⟨again, hmem, hsame⟩ := List.mem_map.mp (hagain.mpr hretried)
    refine .inr ⟨again, ?_, rfl⟩
    rw [← hsame, filter_index_eq hnodup' hmem]
    rfl

end Passes

theorem NodeMap.length_bindReplayed (map : NodeMap) (current : List (Text × Text))
    (values : List SavedValue) : (map.bindReplayed current values).length = values.length := by
  induction values generalizing current with
  | nil => rfl
  | cons value rest ih =>
    unfold bindReplayed
    split
    · rw [List.length_cons, ih, List.length_cons]
    · rw [List.length_cons, ih, List.length_cons]

/-- What a load of `values` reports, by its attempts. -/
structure Accounts (values : List SavedValue) (report : LoadReport) (attempts : List Attempt) :
    Prop where
  total : report.written + report.failures.length = values.length
  succeeded : report.written = attempts.countP (·.succeeded)
  inOrder : (report.failures.map (·.value)).Sublist values
  failing : ∀ failure ∈ report.failures, ∃ attempt ∈ attempts,
    attempt.value = failure.value ∧ attempt.error = some failure.error
  attempted : ∀ index < values.length,
    ∃ attempt : Attempt, (attempts.filter fun other => other.index = index) = [attempt] ∧
        attempt.retried = false ∨
      ∃ again : Attempt, (attempts.filter fun other => other.index = index) = [attempt, again] ∧
        attempt.retried = true

theorem failure_eq_some {attempt : Attempt} {failed : Nat × LoadFailure} :
    attempt.failure = some failed ↔
      attempt.task = (failed.1, failed.2.value) ∧ attempt.error = some failed.2.error := by
  obtain ⟨index, value, _ | e⟩ := attempt
  · simp [Attempt.failure]
  · obtain ⟨index', value', e'⟩ := failed
    simp [Attempt.failure, Attempt.task, and_assoc]

theorem accounts_report {values : List SavedValue} {first second : List Attempt}
    (h : Passes values first second) (warnings : List Text) :
    Accounts values ((second.foldl Loading.second (first.foldl Loading.first {})).report warnings)
      (second.foldl Loading.second (first.foldl Loading.first {})).attempts := by
  rw [Loading.foldl_second, Loading.foldl_first]
  simp only [Loading.report, List.nil_append, Nat.zero_add, ← List.filterMap_append]
  refine ⟨?_, (List.countP_append ..).symm, h.failures_sublist, fun failure hfailure => ?_,
    fun index hindex => h.attempts_of hindex⟩
  · rw [List.length_map, List.length_insertionSort, ← Passes.countP_last, ← h.length_last]
    exact Passes.length_filterMap_failure _
  · obtain ⟨failed, hfailed, rfl⟩ := List.mem_map.mp hfailure
    obtain ⟨attempt, hattempt, hreason⟩ :=
      List.mem_filterMap.mp ((List.mem_insertionSort _).mp hfailed)
    obtain ⟨htask, herror⟩ := failure_eq_some.mp hreason
    refine ⟨attempt, ?_, congrArg Prod.snd htask, herror⟩
    rcases List.mem_append.mp hattempt with hlast | hlast
    · exact List.mem_append_left _ (List.mem_filter.mp hlast).1
    · exact List.mem_append_right _ hlast

section

variable {σ : Type} {features : Features σ} {map : NodeMap} {camera : DocumentIdentity}
  {configuration : Configuration} {s s' : σ}

theorem loadConfiguration_accounts {report : LoadReport} {attempts : List Attempt}
    (h : features.loadConfiguration map camera configuration s = (.ok (report, attempts), s')) :
    Accounts (map.bindReplayedSelectors configuration.values) report attempts := by
  obtain ⟨loading, u, hfirst, h⟩ := follow_eq_ok.mp h
  obtain ⟨first, htasks, rfl⟩ := pass_ok hfirst
  obtain ⟨loading, v, hsecond, h⟩ := follow_eq_ok.mp h
  obtain ⟨second, hagain, rfl⟩ := pass_ok hsecond
  rw [Loading.foldl_first, List.nil_append] at hagain
  cases h
  exact accounts_report ⟨htasks ▸ List.perm_insertionSort _ _, hagain⟩ _

theorem loadConfiguration_halts {reason : Stop GenApiError}
    (h : features.loadConfiguration map camera configuration s = (.error reason, s')) :
    ∃ value ∈ map.bindReplayedSelectors configuration.values, ∃ u,
      Halted (features.writeSaved value u).1 := by
  set values := map.bindReplayedSelectors configuration.values with hvalues
  have hmem {task : Nat × SavedValue}
      (htask : task ∈ (values.mapIdx Prod.mk).insertionSort map.loadsBefore) : task.2 ∈ values := by
    obtain ⟨i, hi, rfl⟩ := List.mem_mapIdx.mp ((List.mem_insertionSort _).mp htask)
    exact List.getElem_mem hi
  rcases follow_eq_error.mp h with hfirst | ⟨loading, u, hfirst, h⟩
  · obtain ⟨task, htask, v, hhalted⟩ := pass_halts hfirst
    exact ⟨task.2, hmem htask, v, hhalted⟩
  · obtain ⟨first, htasks, rfl⟩ := pass_ok hfirst
    rcases follow_eq_error.mp h with hsecond | ⟨loading, v, -, h⟩
    · obtain ⟨task, htask, v, hhalted⟩ := pass_halts hsecond
      rw [Loading.foldl_first, List.nil_append] at htask
      obtain ⟨attempt, hattempt, rfl⟩ := List.mem_map.mp htask
      refine ⟨attempt.task.2, hmem ?_, v, hhalted⟩
      exact htasks ▸ List.mem_map_of_mem (List.mem_filter.mp hattempt).1
    · cases h

end

namespace Features

variable {σ : Type} (features : Features σ)

def Holds (name text : Text) (s : σ) : Prop := (features.getText name s).1 = .ok text

/-- A selector set to an entry, and the text it had before. -/
structure Move (σ : Type) where
  selector : Text
  entry : Text
  original : Text
  before : σ
  read : σ
  after : σ

namespace Move

structure Made (move : Move σ) : Prop where
  getText : features.getText move.selector move.before = (.ok move.original, move.read)
  moved : move.original ≠ move.entry
  setText : features.setText move.selector move.entry move.read = (.ok (), move.after)

def undo (move : Move σ) : Text × Text := (move.selector, move.original)

end Move

/-- Putting one selector back leaves what another one holds. -/
def Apart (move : Move σ) (selector : Text) : Prop :=
  ∀ text u, features.Holds selector text u →
    features.Holds selector text (features.setText move.selector move.original u).2

variable {features}

theorem writeUnderSelectors_ok {value : SavedValue} {rest moved moved' : List (Text × Text)}
    {result : Except GenApiError Unit} {s s' : σ}
    (h : features.writeUnderSelectors value rest moved s = (.ok (result, moved'), s')) :
    ∃ moves : List (Move σ), moved' = moved ++ moves.map Move.undo ∧
      ∀ move ∈ moves, move.Made features ∧ (move.selector, move.entry) ∈ rest := by
  induction rest generalizing moved s with
  | nil =>
    obtain ⟨written, u, -, hdone⟩ := follow_eq_ok.mp h
    cases hdone
    exact ⟨[], (List.append_nil _).symm, by simp⟩
  | cons pair rest ih =>
    obtain ⟨selector, entry⟩ := pair
    obtain ⟨read | original, u, hread, hnext⟩ := follow_eq_ok.mp h
    · cases hnext
      exact ⟨[], (List.append_nil _).symm, by simp⟩
    · dsimp only at hnext
      split at hnext
      · obtain ⟨moves, hmoved, hmade⟩ := ih hnext
        exact ⟨moves, hmoved, fun move hmove =>
          ⟨(hmade move hmove).1, List.mem_cons_of_mem _ (hmade move hmove).2⟩⟩
      · rename_i hentry
        obtain ⟨result | done, v, hset, hnext⟩ := follow_eq_ok.mp hnext
        · cases hnext
          exact ⟨[], (List.append_nil _).symm, by simp⟩
        · obtain ⟨moves, hmoved, hmade⟩ := ih hnext
          let move : Move σ := ⟨selector, entry, original, s, u, v⟩
          refine ⟨move :: moves, by rw [hmoved, List.append_assoc]; rfl, fun other hother => ?_⟩
          rcases List.mem_cons.mp hother with rfl | hother
          · exact ⟨⟨caught_eq_ok.mp hread, hentry, caught_eq_ok.mp hset⟩, List.mem_cons_self⟩
          · exact ⟨(hmade other hother).1, List.mem_cons_of_mem _ (hmade other hother).2⟩

theorem putBack_append (front back : List (Text × Text)) (s : σ) :
    features.putBack (front ++ back) s =
      follow (features.putBack front s) fun _ => features.putBack back := by
  induction front generalizing s with
  | nil => rfl
  | cons pair front ih =>
    simp only [List.cons_append, putBack, follow_assoc]
    exact congrArg _ (funext fun _ => funext fun u => ih u)

theorem putBack_holds {moves : List (Move σ)} {selector text : Text} {s s' : σ}
    (hapart : ∀ move ∈ moves, features.Apart move selector) (hholds : features.Holds selector text s)
    (h : features.putBack (moves.map Move.undo) s = (.ok (), s')) :
    features.Holds selector text s' := by
  induction moves generalizing s with
  | nil =>
    cases h
    exact hholds
  | cons move moves ih =>
    obtain ⟨result, u, hset, hrest⟩ := follow_eq_ok.mp h
    refine ih (fun other hother => hapart other (List.mem_cons_of_mem _ hother)) ?_ hrest
    have := hapart move List.mem_cons_self text s hholds
    rwa [caught_eq_ok.mp hset] at this

theorem writeUnderSelectors_halts {value : SavedValue} {rest moved : List (Text × Text)}
    {reason : Stop GenApiError} {s s' : σ}
    (h : features.writeUnderSelectors value rest moved s = (.error reason, s')) :
    Halted (.error reason : Outcome GenApiError Unit) := by
  have hcaught {α : Type} {r : Outcome GenApiError α × σ} {u : σ}
      (hr : caught r = (.error reason, u)) : Halted (.error reason : Outcome GenApiError Unit) := by
    obtain ⟨rfl, hhalted⟩ := caught_eq_error hr
    simpa [Halted] using hhalted
  induction rest generalizing moved s with
  | nil =>
    rcases follow_eq_error.mp h with hwrite | ⟨_, _, _, hdone⟩
    · exact hcaught hwrite
    · cases hdone
  | cons pair rest ih =>
    rcases follow_eq_error.mp h with hread | ⟨e | original, u, -, hnext⟩
    · exact hcaught hread
    · cases hnext
    · dsimp only at hnext
      split at hnext
      · exact ih hnext
      · rcases follow_eq_error.mp hnext with hset | ⟨e | done, v, -, hnext⟩
        · exact hcaught hset
        · cases hnext
        · exact ih hnext

theorem putBack_halts {moved : List (Text × Text)} {reason : Stop GenApiError} {s s' : σ}
    (h : features.putBack moved s = (.error reason, s')) :
    Halted (.error reason : Outcome GenApiError Unit) := by
  induction moved generalizing s with
  | nil => cases h
  | cons pair moved ih =>
    rcases follow_eq_error.mp h with hset | ⟨_, u, -, hrest⟩
    · obtain ⟨hset, hhalted⟩ := caught_eq_error hset
      rwa [hset] at hhalted
    · exact ih hrest

theorem writeSaved_eq {value : SavedValue} {s s' : σ} {result : Outcome GenApiError Unit}
    (h : features.writeSaved value s = (result, s')) (hresult : ¬Halted result) :
    ∃ (written : Except GenApiError Unit) (moved : List (Text × Text)) (u : σ),
      features.writeUnderSelectors value value.selectors [] s = (.ok (written, moved), u) ∧
        features.putBack moved.reverse u = (.ok (), s') := by
  unfold writeSaved at h
  rcases hwrite : features.writeUnderSelectors value value.selectors [] s with
    ⟨reason | ⟨written, moved⟩, u⟩
  · rw [hwrite, follow_error] at h
    cases h
    exact absurd (writeUnderSelectors_halts hwrite) hresult
  · rw [hwrite, follow_ok] at h
    rcases hback : features.putBack moved.reverse u with ⟨reason | done, v⟩
    · rw [hback, follow_error] at h
      cases h
      exact absurd (putBack_halts hback) hresult
    · rw [hback, follow_ok] at h
      cases h
      exact ⟨written, moved, u, rfl, hback⟩

/-- Moves of a value's selectors are undone by setting what they had before, up to a relation
that neither reads nor the write of the value leave, and that all the selectors' texts keep. -/
structure Undoes (features : Features σ) (value : SavedValue) (Alike : σ → σ → Prop) : Prop where
  refl : ∀ s, Alike s s
  trans : ∀ {s u v}, Alike s u → Alike u v → Alike s v
  holds : ∀ pair ∈ value.selectors, ∀ text s u, Alike s u → features.Holds pair.1 text s →
    features.Holds pair.1 text u
  getText : ∀ pair ∈ value.selectors, ∀ s, Alike s (features.getText pair.1 s).2
  refused : ∀ pair ∈ value.selectors, ∀ s e u,
    features.setText pair.1 pair.2 s = (.error (.error e), u) → Alike s u
  undone : ∀ move : Move σ, move.Made features → (move.selector, move.entry) ∈ value.selectors →
    ∀ s, Alike move.after s → ∃ u, features.setText move.selector move.original s = (.ok (), u) ∧
      Alike move.before u
  writeValue : ∀ s, Alike s (features.writeValue value s).2

theorem Undoes.alike {value : SavedValue} {Alike : σ → σ → Prop}
    (hundoes : Undoes features value Alike) {rest moved moved' : List (Text × Text)}
    {result : Except GenApiError Unit} {s s' : σ} (hrest : rest ⊆ value.selectors)
    (h : features.writeUnderSelectors value rest moved s = (.ok (result, moved'), s')) :
    ∃ more, moved' = moved ++ more ∧ ∀ u v, Alike s' u →
      features.putBack more.reverse u = (.ok (), v) → Alike s v := by
  have hnone {s s' : σ} (halike : Alike s s') : ∀ u v, Alike s' u →
      features.putBack ([] : List (Text × Text)).reverse u = (.ok (), v) → Alike s v := by
    intro u v hu hback
    cases hback
    exact hundoes.trans halike hu
  induction rest generalizing moved s with
  | nil =>
    obtain ⟨written, u, hwrite, hdone⟩ := follow_eq_ok.mp h
    cases hdone
    refine ⟨[], (List.append_nil _).symm, hnone ?_⟩
    have := hundoes.writeValue s
    rwa [caught_eq_ok.mp hwrite] at this
  | cons pair rest ih =>
    obtain ⟨hpair, hrest⟩ := List.cons_subset.mp hrest
    obtain ⟨read, u, hread, hnext⟩ := follow_eq_ok.mp h
    have hreadAlike := hundoes.getText pair hpair s
    rw [caught_eq_ok.mp hread] at hreadAlike
    cases read with
    | error e =>
      cases hnext
      exact ⟨[], (List.append_nil _).symm, hnone hreadAlike⟩
    | ok original =>
      dsimp only at hnext
      split at hnext
      · obtain ⟨more, hmoved, hback⟩ := ih hrest hnext
        exact ⟨more, hmoved, fun v t hv ht => hundoes.trans hreadAlike (hback v t hv ht)⟩
      · rename_i hentry
        obtain ⟨result | done, v, hset, hnext⟩ := follow_eq_ok.mp hnext
        · cases hnext
          exact ⟨[], (List.append_nil _).symm, hnone
            (hundoes.trans hreadAlike (hundoes.refused pair hpair _ _ _ (caught_eq_ok.mp hset)))⟩
        · obtain ⟨more, hmoved, hback⟩ := ih hrest hnext
          refine ⟨(pair.1, original) :: more, by rw [hmoved, List.append_assoc]; rfl,
            fun t t' ht hall => ?_⟩
          rw [List.reverse_cons, putBack_append] at hall
          obtain ⟨_, mid, hmore, hlast⟩ := follow_eq_ok.mp hall
          let move : Move σ := ⟨pair.1, pair.2, original, s, u, v⟩
          obtain ⟨w, hw, hbefore⟩ := hundoes.undone move
            ⟨caught_eq_ok.mp hread, hentry, caught_eq_ok.mp hset⟩ hpair mid (hback t mid ht hmore)
          obtain ⟨_, w', hw', hdone⟩ := follow_eq_ok.mp hlast
          have hsame := hw.symm.trans (caught_eq_ok.mp hw')
          cases hdone
          rwa [(Prod.mk.inj hsame).2] at hbefore

/-- What becomes of the selectors that a write moves. -/
structure PutsBack (features : Features σ) (value : SavedValue) (s s' : σ) : Prop where
  /-- Each is put back after those moved later, and then holds what it held when it was moved, if
  that can be set again and no other put-back changes it. -/
  held : ∃ (moves : List (Move σ)) (written : Except GenApiError Unit) (u : σ),
    features.writeUnderSelectors value value.selectors [] s =
      (.ok (written, moves.map Move.undo), u) ∧
    (∀ move ∈ moves, move.Made features ∧ (move.selector, move.entry) ∈ value.selectors) ∧
    ∀ outer move inner, moves = outer ++ move :: inner →
      ∃ v, features.putBack (inner.reverse.map Move.undo) u = (.ok (), v) ∧
        ∀ back, features.setText move.selector move.original v = (.ok (), back) →
          features.Holds move.selector move.original back →
          (∀ other ∈ outer, features.Apart other move.selector) →
            features.Holds move.selector move.original s'
  /-- All hold what they held before the write, where moves are undone. -/
  undone : ∀ Alike : σ → σ → Prop, Undoes features value Alike → Alike s s' ∧
    ∀ pair ∈ value.selectors, ∀ text, features.Holds pair.1 text s → features.Holds pair.1 text s'

theorem writeSaved_putsBack {value : SavedValue} {s s' : σ} {result : Outcome GenApiError Unit}
    (h : features.writeSaved value s = (result, s')) (hresult : ¬Halted result) :
    PutsBack features value s s' := by
  obtain ⟨written, moved, u, hwrite, hback⟩ := writeSaved_eq h hresult
  constructor
  · obtain ⟨moves, hmoved, hmade⟩ := writeUnderSelectors_ok hwrite
    rw [List.nil_append] at hmoved
    subst hmoved
    refine ⟨moves, written, u, hwrite, hmade, fun outer move inner hmoves => ?_⟩
    rw [hmoves, ← List.map_reverse, List.reverse_append, List.reverse_cons, List.append_assoc,
      List.map_append, putBack_append] at hback
    obtain ⟨_, v, hinner, hrest⟩ := follow_eq_ok.mp hback
    refine ⟨v, hinner, fun back hset hholds hapart => ?_⟩
    obtain ⟨_, back', hset', hrest⟩ := follow_eq_ok.mp hrest
    obtain rfl : back = back' := (Prod.mk.inj (hset.symm.trans (caught_eq_ok.mp hset'))).2
    exact putBack_holds (fun other hother => hapart other (List.mem_reverse.mp hother)) hholds hrest
  · intro Alike hundoes
    obtain ⟨more, hmoved, hall⟩ := hundoes.alike (List.Subset.refl _) hwrite
    rw [List.nil_append] at hmoved
    subst hmoved
    have halike := hall u s' (hundoes.refl u) hback
    exact ⟨halike, fun pair hpair text => hundoes.holds pair hpair text s s' halike⟩

end Features

section

variable {ε α β σ : Type}

/-- The second run comes to what the first one does, if that comes to anything. -/
def Extends (r r' : Outcome ε α × σ) : Prop := r.1 ≠ .error .outOfFuel → r' = r

theorem Extends.follow {r r' : Outcome ε α × σ} {next next' : α → σ → Outcome ε β × σ}
    (hr : Extends r r') (hnext : ∀ a s, Extends (next a s) (next' a s)) :
    Extends (follow r next) (follow r' next') := by
  obtain ⟨reason | a, s⟩ := r
  · intro hran
    rw [hr (by rintro ⟨⟩; exact hran rfl)]
    rfl
  · intro hran
    rw [hr (by simp)]
    exact hnext a s hran

theorem Extends.caught {r r' : Outcome ε α × σ} (h : Extends r r') :
    Extends (caught r) (caught r') := by
  intro hran
  rw [h fun hout => hran ?_]
  obtain ⟨outcome, s⟩ := r
  obtain rfl : outcome = .error .outOfFuel := hout
  rfl

end

namespace Features

variable {σ : Type} {first second : Features σ}

/-- One answers everything as the other does, and perhaps more. -/
structure LessDefined (first second : Features σ) : Prop where
  getText : ∀ name s, Extends (first.getText name s) (second.getText name s)
  setText : ∀ name text s, Extends (first.setText name text s) (second.setText name text s)
  writeValue : ∀ value s, Extends (first.writeValue value s) (second.writeValue value s)

namespace LessDefined

variable (h : LessDefined first second)
include h

theorem writeUnderSelectors (value : SavedValue) (rest moved : List (Text × Text)) (s : σ) :
    Extends (first.writeUnderSelectors value rest moved s)
      (second.writeUnderSelectors value rest moved s) := by
  induction rest generalizing moved s with
  | nil => exact (h.writeValue value s).caught.follow fun _ _ _ => rfl
  | cons pair rest ih =>
    refine (h.getText pair.1 s).caught.follow fun read u => ?_
    cases read with
    | error e => exact fun _ => rfl
    | ok original =>
      dsimp only
      split
      · exact ih moved u
      · refine (h.setText pair.1 pair.2 u).caught.follow fun result v => ?_
        cases result with
        | error e => exact fun _ => rfl
        | ok done => exact ih _ v

theorem putBack (moved : List (Text × Text)) (s : σ) :
    Extends (first.putBack moved s) (second.putBack moved s) := by
  induction moved generalizing s with
  | nil => exact fun _ => rfl
  | cons pair moved ih => exact (h.setText pair.1 pair.2 s).caught.follow fun _ u => ih u

theorem writeSaved (value : SavedValue) (s : σ) :
    Extends (first.writeSaved value s) (second.writeSaved value s) :=
  (h.writeUnderSelectors value value.selectors [] s).follow fun _ u =>
    (h.putBack _ u).follow fun _ _ _ => rfl

theorem pass (note : Loading → Attempt → Loading) (tasks : List (Nat × SavedValue))
    (loading : Loading) (s : σ) :
    Extends (pass first.writeSaved note tasks loading s)
      (pass second.writeSaved note tasks loading s) := by
  induction tasks generalizing loading s with
  | nil => exact fun _ => rfl
  | cons task rest ih =>
    exact (h.writeSaved task.2 s).caught.follow fun _ u => ih _ u

end LessDefined

theorem pass_ends {depth : Nat → Features σ}
    (hdepth : ∀ {fuel fuel'}, fuel ≤ fuel' → LessDefined (depth fuel) (depth fuel'))
    (note : Loading → Attempt → Loading) {tasks : List (Nat × SavedValue)}
    (hends : ∀ task ∈ tasks, ∀ u, ∃ fuel, ¬Halted ((depth fuel).writeSaved task.2 u).1)
    (loading : Loading) (s : σ) :
    ∃ fuel loading' s', Genapi.pass (depth fuel).writeSaved note tasks loading s =
      (.ok loading', s') := by
  induction tasks generalizing loading s with
  | nil => exact ⟨0, loading, s, rfl⟩
  | cons task rest ih =>
    obtain ⟨fuel, hfuel⟩ := hends task List.mem_cons_self s
    rcases hcaught : caught ((depth fuel).writeSaved task.2 s) with ⟨reason | outcome, u⟩
    · exact absurd (caught_eq_error hcaught).2 hfuel
    · obtain ⟨fuel', loading', s', hrest⟩ := ih (fun other hother => hends other
        (List.mem_cons_of_mem _ hother)) (note loading ⟨task.1, task.2, errorOf outcome⟩) u
      refine ⟨max fuel fuel', loading', s', ?_⟩
      have hhead := ((hdepth (Nat.le_max_left fuel fuel')).writeSaved task.2 s).caught
      rw [hcaught] at hhead
      have htail := (hdepth (Nat.le_max_right fuel fuel')).pass note rest
        (note loading ⟨task.1, task.2, errorOf outcome⟩) u
      rw [hrest] at htail
      rw [Genapi.pass, hhead (by simp), follow_ok, htail (by simp)]

theorem loadConfiguration_ends {depth : Nat → Features σ}
    (hdepth : ∀ {fuel fuel'}, fuel ≤ fuel' → LessDefined (depth fuel) (depth fuel'))
    (map : NodeMap) (camera : DocumentIdentity) (configuration : Configuration)
    (hends : ∀ value ∈ map.bindReplayedSelectors configuration.values, ∀ u,
      ∃ fuel, ¬Halted ((depth fuel).writeSaved value u).1) (s : σ) :
    ∃ fuel report attempts s',
      (depth fuel).loadConfiguration map camera configuration s =
        (.ok (report, attempts), s') := by
  set values := map.bindReplayedSelectors configuration.values with hvalues
  set ordered := (values.mapIdx Prod.mk).insertionSort map.loadsBefore with hordered
  have hmem {task : Nat × SavedValue} (htask : task ∈ ordered) : task.2 ∈ values := by
    obtain ⟨i, hi, rfl⟩ := List.mem_mapIdx.mp ((List.mem_insertionSort _).mp htask)
    exact List.getElem_mem hi
  obtain ⟨fuel, loading, u, hfirst⟩ := pass_ends hdepth Loading.first
    (fun task htask => hends task.2 (hmem htask)) {} s
  obtain ⟨first, htasks, hloading⟩ := pass_ok hfirst
  have hretry : ∀ task ∈ loading.retry, task.2 ∈ values := by
    intro task htask
    rw [hloading, Loading.foldl_first, List.nil_append] at htask
    obtain ⟨attempt, hattempt, rfl⟩ := List.mem_map.mp htask
    exact hmem (htasks ▸ List.mem_map_of_mem (List.mem_filter.mp hattempt).1)
  obtain ⟨fuel', loading', v, hsecond⟩ := pass_ends hdepth Loading.second
    (fun task htask => hends task.2 (hretry task htask)) loading u
  have hfirst' := (hdepth (Nat.le_max_left fuel fuel')).pass Loading.first ordered {} s
  have hsecond' :=
    (hdepth (Nat.le_max_right fuel fuel')).pass Loading.second loading.retry loading u
  rw [hfirst] at hfirst'
  rw [hsecond] at hsecond'
  refine ⟨max fuel fuel', loading'.report (identityWarnings configuration.identity camera),
    loading'.attempts, v, ?_⟩
  unfold Features.loadConfiguration
  dsimp only
  rw [← hvalues, ← hordered, hfirst' (by simp), follow_ok, hsecond' (by simp), follow_ok]

end Features

theorem features_lessDefined {D : Type} (setting : Setting D) (floats : FloatText)
    {fuel fuel' : Nat} (hle : fuel ≤ fuel') :
    Features.LessDefined (features setting floats fuel) (features setting floats fuel') := by
  have hget : (get setting fuel).LessDefined (get setting fuel') :=
    answers_lessDefined _ _ (Handler.LessDefined.refl _) hle
  have hdeed : (deed setting fuel).LessDefined (deed setting fuel') := by
    intro α o w hran
    cases o with
    | get query => exact hget _ query w hran
    | _ => rfl
  have hset : (set setting fuel).LessDefined (set setting fuel') := answers_lessDefined _ _ hdeed hle
  exact {
    getText := fun name => run_of_lessDefined hget (Handler.LessDefined.refl _) _
    setText := fun name text => run_of_lessDefined hset hdeed _
    writeValue := fun value => run_of_lessDefined hset hdeed _ }

/-- A byte that is read and written as it is. -/
def byteCell (name : Text) (terms : List AddressTerm) : Built where
  invalidators := []
  node := .integer {
    name
    nodeMeta := ⟨.beginner, none, none, none, none, none, true, none, none, []⟩
    addressing := some ⟨terms, 1, none, none⟩
    access := .rw
    min := none
    max := none
    inc := none
    bitfield := none
    sign := .unsigned
    byteOrder := .little
    selected := []
    pvalue := none
    pMax := none
    pMin := none
    pInc := none
    value := none
    indexed := none
    predicates := {} }

/-- The bank chooses where the slot is, and the first slot has a name of its own. -/
def bankMap : NodeMap :=
  .ofBuilt [byteCell (lit "Bank") [.fixed 0],
    byteCell (lit "Slot") [.fixed 16, .index (lit "Bank") .length],
    byteCell (lit "First") [.fixed 16]] [] [] [] []

def noFloatText : FloatText := ⟨fun _ => [], fun _ => none⟩

def bankFeatures : Features (World Memory) := features (onMemory bankMap id) noFloatText 8

/-- The bank is 0; its slot holds 5, and that of the next bank 7. -/
def bankWorld : World Memory :=
  { device := fun address => if address = 16 then 5 else if address = 17 then 7 else 0 }

def firstSlot : SavedValue := ⟨lit "First", [(lit "Bank", lit "1"), (lit "Slot", lit "3")], lit "9"⟩

/-- On memory, a selector that was moved ends with what it `held`, if that can be set again. -/
def MovedKeep (held : Features (World Memory) → World Memory → Text × Text → Text → Prop) : Prop :=
  ∀ (map : NodeMap) (clock : Nat → Nat) (floats : FloatText) (fuel : Nat) (value : SavedValue)
    (w w' u : World Memory) (result : Outcome GenApiError Unit)
    (written : Except GenApiError Unit) (moved : List (Text × Text)),
    let features := features (onMemory map clock) floats fuel
    features.writeSaved value w = (result, w') →
    features.writeUnderSelectors value value.selectors [] w = (.ok (written, moved), u) →
    ∀ pair ∈ moved, pair.1 ≠ value.feature → ∀ text, held features w pair text →
      (features.setText pair.1 text w').1 = .ok () → features.Holds pair.1 text w'

end VivaGenicam.Genapi
