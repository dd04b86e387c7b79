import VivaGenicam.Genapi.Getters
import VivaGenicam.Genapi.Narrowing
import Mathlib.Order.Monotone.Basic

/-!
The limits of converters, with floats as exact rationals: a search for a declared
bound that goes through the nodes a value is taken from, and maps what it finds
through the formula of each converter on its way.
-/

namespace VivaGenicam.Genapi.ConverterLimits

open GenapiXml
open Library.Programs (run)
open Narrowing (SkValue NarrowError)
open NodeMap (FromFormula)

inductive LimitError where
  | narrow (e : NarrowError)
  | cycle (node through : Text)
  | nodeNotFound (name : Text)

/-- What an integer or a float says of its own limits. -/
structure Declared (α : Type) where
  pMin : Option Text
  pMax : Option Text
  pInc : Option Text
  min : Option α
  max : Option α
  inc : Option α
  pvalue : Option Text

namespace Declared

variable {α : Type} (declared : Declared α)

def pointer : Limit → Option Text
  | .min => declared.pMin
  | .max => declared.pMax
  | .inc => declared.pInc

def constant : Limit → Option α
  | .min => declared.min
  | .max => declared.max
  | .inc => declared.inc

end Declared

/-- A node, as far as limits are concerned. -/
inductive LimitNode where
  | integer (declared : Declared Int64)
  | float (declared : Declared ℚ)
  | converter (formula : FromFormula)
  | intConverter (formula : FromFormula)
  | other

def LimitNode.formula : LimitNode → Option FromFormula
  | .converter formula | .intConverter formula => some formula
  | _ => none

structure LimitMap where
  nodes : List (Text × LimitNode)
  named : ∀ entry ∈ nodes, ∀ formula, entry.2.formula = some formula → formula.name = entry.1

def LimitMap.node (map : LimitMap) (name : Text) : Option LimitNode := map.nodes.lookup name

/-- What the rest of the node map answers as it stands: the node behind an indexed
one, the value of a node or a variable while the formulas of a stack are evaluated,
and what an expression comes to. -/
structure Readings where
  indexedTarget : Text → Except LimitError (Option Text)
  resolveValue : Text → List Text → Except LimitError SkValue
  resolveFormulaVar : Text → FormulaVar → List Text → Except LimitError SkValue
  evalAst : Text → AstNode → List (Text × SkValue) → EvalMode → Except LimitError SkValue

namespace Readings

variable (readings : Readings)

def bindVars (formula : Text) (overrides : List (Text × SkValue)) (stack : List Text) :
    List FormulaVar → List (Text × SkValue) → Except LimitError (List (Text × SkValue))
  | [], values => .ok values
  | var :: vars, values =>
    if (overrides.lookup var.name).isSome then bindVars formula overrides stack vars values
    else do
      let value ← readings.resolveFormulaVar formula var stack
      bindVars formula overrides stack vars ((var.name, value) :: values)

def evalFormula (name : Text) (ast : AstNode) (vars : List FormulaVar)
    (overrides : List (Text × SkValue)) (mode : EvalMode) (stack : List Text) :
    Except LimitError SkValue := do
  let values ← readings.bindVars name overrides stack vars []
  readings.evalAst name ast (overrides ++ values) mode

def evalFrom (formula : FromFormula) (raw : SkValue) (stack : List Text) :
    Except LimitError SkValue :=
  readings.evalFormula formula.name formula.ast formula.vars [(lit "TO", raw)] formula.mode stack

/-- A converter's limit, from those of the node behind it. -/
def converterLimitUnguarded (formula : FromFormula) (which : Limit) (stack : List Text)
    (bound : Limit → Except LimitError (Option SkValue)) : Except LimitError (Option SkValue) :=
  let mapped (rawWhich : Limit) : Except LimitError (Option SkValue) := do
    match ← bound rawWhich with
    | some raw => do
      let value ← readings.evalFrom formula raw stack
      pure (some value)
    | none => pure none
  match formula.slope, which with
  | .varying, _ => pure none
  | .decreasing, .min => mapped .max
  | .decreasing, .max => mapped .min
  | .increasing, which | .decreasing, which => mapped which
  | .automatic, which => do
    let low ← bound .min
    let high ← bound .max
    match low, high with
    | some low, some high => do
      let a ← readings.evalFrom formula low stack
      let b ← readings.evalFrom formula high stack
      let (small, large) := if a.asF64 ≤ b.asF64 then (a, b) else (b, a)
      pure (some (if which = .min then small else large))
    | _, _ => pure none

/-- A formula that is on the stack already is a cycle. -/
def converterLimit (formula : FromFormula) (which : Limit) (stack : List Text)
    (bound : formula.name ∉ stack → Limit → Except LimitError (Option SkValue)) :
    Except LimitError (Option SkValue) :=
  if which = .inc then .ok none
  else if h : formula.name ∈ stack then .error (.cycle formula.name formula.name)
  else readings.converterLimitUnguarded formula which (formula.name :: stack) (bound h)

/-- The node that `current` takes its value from, if it has one. -/
def behind (current : Text) : Option Text → Except LimitError (Option Text)
  | some pv => .ok (some pv)
  | none => readings.indexedTarget current

end Readings

/-- The names of a map that a list does not have yet. -/
def LimitMap.left (map : LimitMap) (seen : List Text) : Nat :=
  ((map.nodes.map (·.1)).filter (· ∉ seen)).length

theorem LimitMap.name_mem {map : LimitMap} {name : Text} {node : LimitNode}
    (h : map.node name = some node) : name ∈ map.nodes.map (·.1) := by
  obtain ⟨l₁, l₂, hnodes, -⟩ := List.lookup_eq_some_iff.mp h
  rw [hnodes]
  simp

theorem LimitMap.formula_name {map : LimitMap} {name : Text} {node : LimitNode}
    (h : map.node name = some node) {formula : FromFormula} (hformula : node.formula = some formula) :
    formula.name = name := by
  obtain ⟨l₁, l₂, hnodes, -⟩ := List.lookup_eq_some_iff.mp h
  exact map.named (name, node) (by rw [hnodes]; simp) formula hformula

theorem LimitMap.left_lt {map : LimitMap} {name : Text} (h : name ∈ map.nodes.map (·.1))
    {seen : List Text} (hnew : name ∉ seen) : map.left (name :: seen) < map.left seen := by
  unfold LimitMap.left
  have hsub : ((map.nodes.map (·.1)).filter (· ∉ name :: seen)) =
      ((map.nodes.map (·.1)).filter (· ∉ seen)).filter (· ≠ name) := by
    rw [List.filter_filter]
    congr 1
    funext other
    simp [not_or]
  rw [hsub]
  apply List.length_filter_lt_length_iff_exists.mpr
  exact ⟨name, List.mem_filter.mpr ⟨h, by simpa using hnew⟩, by simp⟩

/-- A pointer wins over a constant, and both over the node behind. -/
def limit (map : LimitMap) (readings : Readings) (name current : Text) (visited : List Text)
    (which : Limit) (stack : List Text) : Except LimitError (Option SkValue) :=
  if hvisited : current ∈ visited then .error (.cycle name current)
  else
    match hnode : map.node current with
    | some (.integer node) =>
      match node.pointer which, node.constant which with
      | some pointer, _ => do
        let value ← readings.resolveValue pointer stack
        let value ← (Narrowing.skToI64 pointer value).mapError .narrow
        pure (some (.int value))
      | none, some value => pure (some (.int value))
      | none, none => do
        match ← readings.behind current node.pvalue with
        | some next => limit map readings name next (current :: visited) which stack
        | none => pure none
    | some (.float node) =>
      if which = .inc then pure none
      else
        match node.pointer which, node.constant which with
        | some pointer, _ => do
          let value ← readings.resolveValue pointer stack
          pure (some (.float value.asF64))
        | none, some value => pure (some (.float value))
        | none, none => do
          match ← readings.behind current node.pvalue with
          | some next => limit map readings name next (current :: visited) which stack
          | none => pure none
    | some (.converter formula) =>
      readings.converterLimit formula which stack fun hstack rawWhich =>
        limit map readings formula.pValue formula.pValue [] rawWhich (formula.name :: stack)
    | some (.intConverter formula) =>
      readings.converterLimit formula which stack fun hstack rawWhich =>
        limit map readings formula.pValue formula.pValue [] rawWhich (formula.name :: stack)
    | some .other => pure none
    | none => .error (.nodeNotFound current)
termination_by (map.left stack, map.left visited)
decreasing_by
  · exact .right _ (LimitMap.left_lt (LimitMap.name_mem hnode) hvisited)
  · exact .right _ (LimitMap.left_lt (LimitMap.name_mem hnode) hvisited)
  · have hname := LimitMap.formula_name hnode rfl
    exact .left _ _ (LimitMap.left_lt (hname ▸ LimitMap.name_mem hnode) hstack)
  · have hname := LimitMap.formula_name hnode rfl
    exact .left _ _ (LimitMap.left_lt (hname ▸ LimitMap.name_mem hnode) hstack)

def Fits (rising : Bool) : Slope → Prop
  | .automatic => True
  | .increasing => rising = true
  | .decreasing => rising = false
  | .varying => False

def opposite : Limit → Limit
  | .min => .max
  | .max => .min
  | .inc => .inc

abbrev Conversion := SkValue → Except LimitError SkValue

/-- Of two raw bounds the one that gives the smaller value, and the one that gives
the larger. -/
def lower (rising : Bool) (lo hi : SkValue) : SkValue := if rising then lo else hi

def upper (rising : Bool) (lo hi : SkValue) : SkValue := if rising then hi else lo

/-- The conversion is defined and monotone over the raw values between two bounds. -/
structure Directed (rising : Bool) (Raw : SkValue → Prop) (lo hi : SkValue) (f : Conversion) :
    Prop where
  defined : ∀ r, Raw r → lo.asF64 ≤ r.asF64 → r.asF64 ≤ hi.asF64 → ∃ v, f r = .ok v
  ordered : ∀ r r' v v', Raw r → Raw r' → lo.asF64 ≤ r.asF64 → r.asF64 ≤ r'.asF64 →
    r'.asF64 ≤ hi.asF64 → f r = .ok v → f r' = .ok v' →
      if rising then v.asF64 ≤ v'.asF64 else v'.asF64 ≤ v.asF64

/-- The limits are the conversions of the raw bounds in increasing order, and the
conversion of each raw value between the bounds is between the limits. -/
def Encloses (rising : Bool) (Raw : SkValue → Prop) (lo hi : SkValue) (f : Conversion)
    (limits : Limit → Except LimitError (Option SkValue)) : Prop :=
  ∃ min max small large, limits .min = .ok (some min) ∧ limits .max = .ok (some max) ∧
    f (lower rising lo hi) = .ok small ∧ f (upper rising lo hi) = .ok large ∧
    min.asF64 = small.asF64 ∧ max.asF64 = large.asF64 ∧ small.asF64 ≤ large.asF64 ∧
    ∀ r v, Raw r → lo.asF64 ≤ r.asF64 → r.asF64 ≤ hi.asF64 → f r = .ok v →
      min.asF64 ≤ v.asF64 ∧ v.asF64 ≤ max.asF64

section

variable {rising : Bool} {Raw : SkValue → Prop} {lo hi : SkValue} {f : Conversion}

theorem raw_lower (hlo : Raw lo) (hhi : Raw hi) : Raw (lower rising lo hi) := by
  cases rising with
  | true => exact hlo
  | false => exact hhi

theorem raw_upper (hlo : Raw lo) (hhi : Raw hi) : Raw (upper rising lo hi) := by
  cases rising with
  | true => exact hhi
  | false => exact hlo

theorem lower_between (hle : lo.asF64 ≤ hi.asF64) :
    lo.asF64 ≤ (lower rising lo hi).asF64 ∧ (lower rising lo hi).asF64 ≤ hi.asF64 := by
  cases rising with
  | true => exact ⟨le_rfl, hle⟩
  | false => exact ⟨hle, le_rfl⟩

theorem upper_between (hle : lo.asF64 ≤ hi.asF64) :
    lo.asF64 ≤ (upper rising lo hi).asF64 ∧ (upper rising lo hi).asF64 ≤ hi.asF64 := by
  cases rising with
  | true => exact ⟨hle, le_rfl⟩
  | false => exact ⟨le_rfl, hle⟩

theorem Directed.congr (h : Directed rising Raw lo hi f) {r r' v v' : SkValue} (hr : Raw r)
    (hr' : Raw r') (hlo : lo.asF64 ≤ r.asF64) (hhi : r.asF64 ≤ hi.asF64)
    (hsame : r.asF64 = r'.asF64) (hv : f r = .ok v) (hv' : f r' = .ok v') :
    v.asF64 = v'.asF64 := by
  have hforth := h.ordered r r' v v' hr hr' hlo hsame.le (hsame ▸ hhi) hv hv'
  have hback := h.ordered r' r v' v hr' hr (hsame ▸ hlo) hsame.ge hhi hv' hv
  cases rising with
  | true => exact le_antisymm hforth hback
  | false => exact le_antisymm hback hforth

theorem Directed.between (h : Directed rising Raw lo hi f) (hlo : Raw lo) (hhi : Raw hi)
    {small large : SkValue} (hsmall : f (lower rising lo hi) = .ok small)
    (hlarge : f (upper rising lo hi) = .ok large)
    {r v : SkValue} (hr : Raw r) (hlor : lo.asF64 ≤ r.asF64) (hrhi : r.asF64 ≤ hi.asF64)
    (hv : f r = .ok v) : small.asF64 ≤ v.asF64 ∧ v.asF64 ≤ large.asF64 := by
  cases rising with
  | true =>
    exact ⟨h.ordered lo r small v hlo hr le_rfl hlor hrhi hsmall hv,
      h.ordered r hi v large hr hhi hlor hrhi le_rfl hv hlarge⟩
  | false =>
    exact ⟨h.ordered r hi v small hr hhi hlor hrhi le_rfl hv hsmall,
      h.ordered lo r large v hlo hr le_rfl hlor hrhi hlarge hv⟩

theorem encloses_of_limits (h : Directed rising Raw lo hi f) (hlo : Raw lo) (hhi : Raw hi)
    (hle : lo.asF64 ≤ hi.asF64) {limits : Limit → Except LimitError (Option SkValue)}
    {min max small large : SkValue} (hmin : limits .min = .ok (some min))
    (hmax : limits .max = .ok (some max)) (hsmall : f (lower rising lo hi) = .ok small)
    (hlarge : f (upper rising lo hi) = .ok large) (hminSmall : min.asF64 = small.asF64)
    (hmaxLarge : max.asF64 = large.asF64) : Encloses rising Raw lo hi f limits := by
  have hbetween {r v : SkValue} := h.between (r := r) (v := v) hlo hhi hsmall hlarge
  refine ⟨min, max, small, large, hmin, hmax, hsmall, hlarge, hminSmall, hmaxLarge, ?_, ?_⟩
  · cases rising with
    | true => exact (hbetween hlo le_rfl hle hsmall).2
    | false => exact (hbetween hlo le_rfl hle hlarge).1
  · intro r v hr hlor hrhi hv
    rw [hminSmall, hmaxLarge]
    exact hbetween hr hlor hrhi hv

theorem converterLimitUnguarded_encloses {readings : Readings} {formula : FromFormula}
    {stack : List Text} {bound : Limit → Except LimitError (Option SkValue)}
    (hmin : bound .min = .ok (some lo)) (hmax : bound .max = .ok (some hi)) (hlo : Raw lo)
    (hhi : Raw hi) (hle : lo.asF64 ≤ hi.asF64)
    (h : Directed rising Raw lo hi fun r => readings.evalFrom formula r stack)
    (hfits : Fits rising formula.slope) :
    Encloses rising Raw lo hi (fun r => readings.evalFrom formula r stack) fun which =>
      readings.converterLimitUnguarded formula which stack bound := by
  obtain ⟨a, ha⟩ := h.defined lo hlo le_rfl hle
  obtain ⟨b, hb⟩ := h.defined hi hhi hle le_rfl
  have horder := h.ordered lo hi a b hlo hhi le_rfl hle le_rfl ha hb
  unfold Readings.converterLimitUnguarded
  cases hslope : formula.slope with
  | varying =>
    rw [hslope] at hfits
    exact hfits.elim
  | increasing =>
    rw [hslope] at hfits
    obtain rfl : rising = true := hfits
    refine encloses_of_limits h hlo hhi hle ?_ ?_ ha hb rfl rfl
    · simp [hmin, ha, bind, Except.bind, pure, Except.pure]
    · simp [hmax, hb, bind, Except.bind, pure, Except.pure]
  | decreasing =>
    rw [hslope] at hfits
    obtain rfl : rising = false := hfits
    refine encloses_of_limits h hlo hhi hle ?_ ?_ hb ha rfl rfl
    · simp [hmax, hb, bind, Except.bind, pure, Except.pure]
    · simp [hmin, ha, bind, Except.bind, pure, Except.pure]
  | automatic =>
    -- where both bounds convert to one number, either of them is the smaller
    cases rising with
    | true =>
      have hle' : a.asF64 ≤ b.asF64 := horder
      refine encloses_of_limits h hlo hhi hle ?_ ?_ ha hb rfl rfl
      · simp [hmin, hmax, ha, hb, if_pos hle', bind, Except.bind, pure, Except.pure]
      · simp [hmin, hmax, ha, hb, if_pos hle', bind, Except.bind, pure, Except.pure]
    | false =>
      by_cases hle' : a.asF64 ≤ b.asF64
      · have hsame : a.asF64 = b.asF64 := le_antisymm hle' horder
        refine encloses_of_limits h hlo hhi hle ?_ ?_ hb ha hsame hsame.symm
        · simp [hmin, hmax, ha, hb, if_pos hle', bind, Except.bind, pure, Except.pure]
        · simp [hmin, hmax, ha, hb, if_pos hle', bind, Except.bind, pure, Except.pure]
      · refine encloses_of_limits h hlo hhi hle ?_ ?_ hb ha rfl rfl
        · simp [hmin, hmax, ha, hb, if_neg hle', bind, Except.bind, pure, Except.pure]
        · simp [hmin, hmax, ha, hb, if_neg hle', bind, Except.bind, pure, Except.pure]

end

/-- Without the bound that its slope needs a converter has no limit. -/
def Unbounded (slope : Slope) (which : Limit)
    (bound : Limit → Except LimitError (Option SkValue)) : Prop :=
  match slope with
  | .varying => True
  | .increasing => bound which = .ok none
  | .decreasing => bound (opposite which) = .ok none
  | .automatic => ∃ low high, bound .min = .ok low ∧ bound .max = .ok high ∧
      (low = none ∨ high = none)

theorem converterLimitUnguarded_none {readings : Readings} {formula : FromFormula}
    {stack : List Text} {which : Limit} (hwhich : which ≠ .inc)
    {bound : Limit → Except LimitError (Option SkValue)}
    (h : Unbounded formula.slope which bound) :
    readings.converterLimitUnguarded formula which stack bound = .ok none := by
  unfold Readings.converterLimitUnguarded
  unfold Unbounded at h
  cases hslope : formula.slope with
  | varying => rfl
  | increasing =>
    rw [hslope] at h
    dsimp only at h ⊢
    rw [h]
    rfl
  | decreasing =>
    rw [hslope] at h
    cases which with
    | min =>
      change bound .max = .ok none at h
      dsimp only
      rw [h]
      rfl
    | max =>
      change bound .min = .ok none at h
      dsimp only
      rw [h]
      rfl
    | inc => exact absurd rfl hwhich
  | automatic =>
    rw [hslope] at h
    obtain ⟨low, high, hlow, hhigh, hnone | hnone⟩ := h
    · dsimp only
      rw [hlow, hhigh, hnone]
      rfl
    · dsimp only
      rw [hlow, hhigh, hnone]
      cases low <;> rfl

/-- A node that declares neither bound, and takes its value from another. -/
def LimitNode.PassesOn (pvalue : Option Text) : LimitNode → Prop
  | .integer node =>
    (∀ which ≠ .inc, node.pointer which = none ∧ node.constant which = none) ∧
      node.pvalue = pvalue
  | .float node =>
    (∀ which ≠ .inc, node.pointer which = none ∧ node.constant which = none) ∧
      node.pvalue = pvalue
  | _ => False

def LimitMap.Links (map : LimitMap) (readings : Readings) (current next : Text) : Prop :=
  ∃ node pvalue, map.node current = some node ∧ node.PassesOn pvalue ∧
    readings.behind current pvalue = .ok (some next)

section

variable {map : LimitMap} {readings : Readings} {start current : Text} {stack visited : List Text}

theorem limit_converter {node : LimitNode} {formula : FromFormula}
    (hnode : map.node current = some node) (hformula : node.formula = some formula)
    (hvisited : current ∉ visited) (hstack : formula.name ∉ stack) (which : Limit) :
    limit map readings start current visited which stack =
      if which = .inc then .ok none
      else readings.converterLimitUnguarded formula which (formula.name :: stack) fun rawWhich =>
        limit map readings formula.pValue formula.pValue [] rawWhich (formula.name :: stack) := by
  rw [limit, dif_neg hvisited]
  split <;> rename_i hfound <;> rw [hnode] at hfound <;> cases hfound <;> cases hformula <;>
    rw [Readings.converterLimit, dif_neg hstack]

theorem limit_link {next : Text} (hvisited : current ∉ visited)
    (hlink : map.Links readings current next) {which : Limit} (hwhich : which ≠ .inc) :
    limit map readings start current visited which stack =
      limit map readings start next (current :: visited) which stack := by
  obtain ⟨node, pvalue, hnode, hpasses, hbehind⟩ := hlink
  rw [limit, dif_neg hvisited]
  split
  · rename_i hfound
    rw [hnode] at hfound
    cases hfound
    obtain ⟨hnone, rfl⟩ := hpasses
    obtain ⟨hpointer, hconstant⟩ := hnone which hwhich
    simp only [hpointer, hconstant, hbehind]
    rfl
  · rename_i hfound
    rw [hnode] at hfound
    cases hfound
    obtain ⟨hnone, rfl⟩ := hpasses
    obtain ⟨hpointer, hconstant⟩ := hnone which hwhich
    simp only [if_neg hwhich, hpointer, hconstant, hbehind]
    rfl
  · rename_i hfound
    rw [hnode] at hfound
    cases hfound
    exact hpasses.elim
  · rename_i hfound
    rw [hnode] at hfound
    cases hfound
    exact hpasses.elim
  · rename_i hfound
    rw [hnode] at hfound
    cases hfound
    exact hpasses.elim
  · rename_i hfound
    rw [hnode] at hfound
    cases hfound

end

/-- A chain of links and converters from a node down to one with raw bounds, and what
its converters together make of a raw value. -/
inductive Chain (map : LimitMap) (readings : Readings) (Raw : SkValue → Prop) (lo hi : SkValue) :
    Text → List Text → Text → List Text → Bool → Conversion → Prop
  | raw {start current : Text} {visited stack : List Text}
      (hmin : limit map readings start current visited .min stack = .ok (some lo))
      (hmax : limit map readings start current visited .max stack = .ok (some hi)) :
      Chain map readings Raw lo hi start visited current stack true .ok
  | link {start current next : Text} {visited stack : List Text} {rising : Bool} {f : Conversion}
      (hvisited : current ∉ visited) (hlink : map.Links readings current next)
      (behind : Chain map readings Raw lo hi start (current :: visited) next stack rising f) :
      Chain map readings Raw lo hi start visited current stack rising f
  | converter {start current : Text} {visited stack : List Text} {rising turned : Bool}
      {f : Conversion} {node : LimitNode} {formula : FromFormula} (Mid : SkValue → Prop)
      (hnode : map.node current = some node) (hformula : node.formula = some formula)
      (hvisited : current ∉ visited) (hstack : formula.name ∉ stack)
      (behind : Chain map readings Raw lo hi formula.pValue [] formula.pValue
        (formula.name :: stack) rising f)
      (hmid : ∀ r v, Raw r → lo.asF64 ≤ r.asF64 → r.asF64 ≤ hi.asF64 → f r = .ok v → Mid v)
      (hturned : ∀ low high,
        limit map readings formula.pValue formula.pValue [] .min (formula.name :: stack) =
          .ok (some low) →
        limit map readings formula.pValue formula.pValue [] .max (formula.name :: stack) =
          .ok (some high) →
        Mid low ∧ Mid high ∧ Directed turned Mid low high fun r =>
          readings.evalFrom formula r (formula.name :: stack))
      (hfits : Fits turned formula.slope) :
      Chain map readings Raw lo hi start visited current stack (rising == turned) fun r =>
        f r >>= fun v => readings.evalFrom formula v (formula.name :: stack)

section

variable {rising turned : Bool} {Raw Mid : SkValue → Prop} {lo hi low high : SkValue}
  {f g : Conversion}

theorem Directed.comp (hf : Directed rising Raw lo hi f) (hg : Directed turned Mid low high g)
    (hmid : ∀ r v, Raw r → lo.asF64 ≤ r.asF64 → r.asF64 ≤ hi.asF64 → f r = .ok v →
      Mid v ∧ low.asF64 ≤ v.asF64 ∧ v.asF64 ≤ high.asF64) :
    Directed (rising == turned) Raw lo hi fun r => f r >>= g where
  defined r hr hlo hhi := by
    obtain ⟨v, hv⟩ := hf.defined r hr hlo hhi
    obtain ⟨hvMid, hlow, hhigh⟩ := hmid r v hr hlo hhi hv
    obtain ⟨u, hu⟩ := hg.defined v hvMid hlow hhigh
    exact ⟨u, by rw [hv]; exact hu⟩
  ordered r r' u u' hr hr' hlo hle hhi hu hu' := by
    obtain ⟨v, hv⟩ := hf.defined r hr hlo (hle.trans hhi)
    obtain ⟨v', hv'⟩ := hf.defined r' hr' (hlo.trans hle) hhi
    obtain ⟨hvMid, hlow, hhigh⟩ := hmid r v hr hlo (hle.trans hhi) hv
    obtain ⟨hvMid', hlow', hhigh'⟩ := hmid r' v' hr' (hlo.trans hle) hhi hv'
    rw [hv] at hu
    rw [hv'] at hu'
    have horder := hf.ordered r r' v v' hr hr' hlo hle hhi hv hv'
    cases rising with
    | true =>
      have hafter := hg.ordered v v' u u' hvMid hvMid' hlow horder hhigh' hu hu'
      cases turned with
      | true => exact hafter
      | false => exact hafter
    | false =>
      have hafter := hg.ordered v' v u' u hvMid' hvMid hlow' horder hhigh hu' hu
      cases turned with
      | true => exact hafter
      | false => exact hafter

end

section

variable {map : LimitMap} {readings : Readings} {Raw : SkValue → Prop} {lo hi : SkValue}
  {start current : Text} {visited stack : List Text} {rising : Bool} {f : Conversion}

/-- By induction on the chain: each converter maps the limits behind it, which enclose
what the converters behind it make of the raw values. -/
theorem Chain.encloses (hchain : Chain map readings Raw lo hi start visited current stack rising f)
    (hlo : Raw lo) (hhi : Raw hi) (hle : lo.asF64 ≤ hi.asF64) :
    Directed rising Raw lo hi f ∧ Encloses rising Raw lo hi f fun which =>
      limit map readings start current visited which stack := by
  induction hchain with
  | raw hmin hmax =>
    have hdirected : Directed true Raw lo hi .ok := by
      constructor
      · exact fun r _ _ _ => ⟨r, rfl⟩
      · intro r r' v v' _ _ _ horder _ hv hv'
        cases hv
        cases hv'
        exact horder
    exact ⟨hdirected, encloses_of_limits hdirected hlo hhi hle hmin hmax rfl rfl rfl rfl⟩
  | link hvisited hlink behind ih =>
    obtain ⟨hdirected, min, max, small, large, hmin, hmax, hrest⟩ := ih
    refine ⟨hdirected, min, max, small, large, ?_, ?_, hrest⟩
    · exact (limit_link hvisited hlink (show Limit.min ≠ .inc from nofun)).trans hmin
    · exact (limit_link hvisited hlink (show Limit.max ≠ .inc from nofun)).trans hmax
  | @converter start current visited stack rising turned f node formula Mid hnode hformula hvisited
      hstack behind hmid hturned hfits ih =>
    obtain ⟨hdirected, low, high, small, large, hlow, hhigh, hsmall, hlarge, hlowSmall,
      hhighLarge, hordered, hbetween⟩ := ih
    obtain ⟨hlowMid, hhighMid, hturns⟩ := hturned low high hlow hhigh
    have hdirected' := hdirected.comp hturns fun r v hr hlor hrhi hv =>
      ⟨hmid r v hr hlor hrhi hv, hbetween r v hr hlor hrhi hv⟩
    have hlowHigh : low.asF64 ≤ high.asF64 := by
      rw [hlowSmall, hhighLarge]
      exact hordered
    have hlowerMid := hmid _ small (raw_lower hlo hhi) (lower_between hle).1
      (lower_between hle).2 hsmall
    have hupperMid := hmid _ large (raw_upper hlo hhi) (upper_between hle).1
      (upper_between hle).2 hlarge
    have houter := @converterLimitUnguarded_encloses turned Mid low high readings formula
      (formula.name :: stack) (fun which => limit map readings formula.pValue formula.pValue []
        which (formula.name :: stack)) hlow hhigh hlowMid hhighMid hlowHigh hturns hfits
    obtain ⟨min, max, least, greatest, hmin, hmax, hleast, hgreatest, hminLeast, hmaxGreatest, -⟩ :=
      houter
    obtain ⟨a, ha⟩ := hturns.defined small hlowerMid hlowSmall.le
      (hlowSmall.symm.le.trans hlowHigh)
    obtain ⟨b, hb⟩ := hturns.defined large hupperMid (hlowHigh.trans hhighLarge.le)
      hhighLarge.symm.le
    have hafter (which : Limit) : limit map readings start current visited which stack = _ :=
      limit_converter hnode hformula hvisited hstack which
    cases turned with
    | true =>
      have hleastSame := hturns.congr hlowMid hlowerMid le_rfl hlowHigh hlowSmall hleast ha
      have hgreatestSame := hturns.congr hhighMid hupperMid hlowHigh le_rfl hhighLarge hgreatest hb
      refine ⟨hdirected', @encloses_of_limits _ Raw lo hi _ hdirected' hlo hhi hle (fun which =>
        limit map readings start current visited which stack) min max _ _
        ((hafter .min).trans hmin) ((hafter .max).trans hmax) ?_ ?_
        (hminLeast.trans hleastSame) (hmaxGreatest.trans hgreatestSame)⟩
      · rw [show lower (rising == true) lo hi = lower rising lo hi by cases rising <;> rfl, hsmall]
        exact ha
      · rw [show upper (rising == true) lo hi = upper rising lo hi by cases rising <;> rfl, hlarge]
        exact hb
    | false =>
      have hleastSame := hturns.congr hhighMid hupperMid hlowHigh le_rfl hhighLarge hleast hb
      have hgreatestSame := hturns.congr hlowMid hlowerMid le_rfl hlowHigh hlowSmall hgreatest ha
      refine ⟨hdirected', @encloses_of_limits _ Raw lo hi _ hdirected' hlo hhi hle (fun which =>
        limit map readings start current visited which stack) min max _ _
        ((hafter .min).trans hmin) ((hafter .max).trans hmax) ?_ ?_
        (hminLeast.trans hleastSame) (hmaxGreatest.trans hgreatestSame)⟩
      · rw [show lower (rising == false) lo hi = upper rising lo hi by cases rising <;> rfl, hlarge]
        exact hb
      · rw [show upper (rising == false) lo hi = lower rising lo hi by cases rising <;> rfl, hsmall]
        exact ha

end

/-- A converter has no limit when its slope varies or the bound it needs behind it is
missing. Otherwise its limits are what a monotone formula makes of the bounds behind
it, in increasing order, and enclose what the formula makes of every raw value between
them, whether its slope is declared or automatic; and so they do through any chain of
links and converters. -/
theorem converter_limits (map : LimitMap) (readings : Readings) :
    (∀ start visited current stack node formula, map.node current = some node →
      node.formula = some formula → current ∉ visited → formula.name ∉ stack →
        (∀ which, Unbounded formula.slope which (fun rawWhich =>
            limit map readings formula.pValue formula.pValue [] rawWhich (formula.name :: stack)) →
          limit map readings start current visited which stack = .ok none) ∧
        ∀ (rising : Bool) (Raw : SkValue → Prop) (lo hi : SkValue),
          limit map readings formula.pValue formula.pValue [] .min (formula.name :: stack) =
            .ok (some lo) →
          limit map readings formula.pValue formula.pValue [] .max (formula.name :: stack) =
            .ok (some hi) →
          lo.asF64 ≤ hi.asF64 → Raw lo → Raw hi → Fits rising formula.slope →
          Directed rising Raw lo hi (fun r =>
            readings.evalFrom formula r (formula.name :: stack)) →
            Encloses rising Raw lo hi (fun r =>
              readings.evalFrom formula r (formula.name :: stack)) fun which =>
                limit map readings start current visited which stack) ∧
    (∀ (Raw : SkValue → Prop) (lo hi : SkValue) start visited current stack rising f,
      Raw lo → Raw hi → lo.asF64 ≤ hi.asF64 →
      Chain map readings Raw lo hi start visited current stack rising f →
        Encloses rising Raw lo hi f fun which =>
          limit map readings start current visited which stack) := by
  constructor
  · intro start visited current stack node formula hnode hformula hvisited hstack
    have hafter (which : Limit) : limit map readings start current visited which stack = _ :=
      limit_converter hnode hformula hvisited hstack which
    constructor
    · intro which hunbounded
      rw [hafter]
      split
      · rfl
      · rename_i hwhich
        exact converterLimitUnguarded_none hwhich hunbounded
    · intro rising Raw lo hi hmin hmax hle hlo hhi hfits hdirected
      have hbounds := @converterLimitUnguarded_encloses rising Raw lo hi readings formula
        (formula.name :: stack) (fun which => limit map readings formula.pValue formula.pValue []
          which (formula.name :: stack)) hmin hmax hlo hhi hle hdirected hfits
      obtain ⟨min, max, small, large, hmin', hmax', hrest⟩ := hbounds
      exact ⟨min, max, small, large, (hafter .min).trans hmin', (hafter .max).trans hmax', hrest⟩
  · intro Raw lo hi start visited current stack rising f hlo hhi hle hchain
    exact (hchain.encloses hlo hhi hle).2

/-- What `minuend` exceeds the value of `pValue` by. -/
def fallFrom (minuend : Int64) (name pValue : Text) (slope : Slope) : FromFormula where
  name
  ast := .binary .sub (.literal (.int minuend)) (.variable (lit "TO"))
  vars := [⟨lit "TO", pValue, .value⟩]
  pValue
  slope
  mode := .float

def gainFormula : FromFormula := fallFrom 100 (lit "Gain") (lit "Raw") .automatic

def levelFormula : FromFormula := fallFrom 5 (lit "Level") (lit "Link") .decreasing

/-- A level that falls with a gain, which falls with a register from 0 to 10. -/
def levelMap : LimitMap where
  nodes := [
    (lit "Raw", .integer ⟨none, none, none, some 0, some 10, none, none⟩),
    (lit "Gain", .converter gainFormula),
    (lit "Link", .float ⟨none, none, none, none, none, none, some (lit "Gain")⟩),
    (lit "Level", .converter levelFormula)]
  named := by simp [LimitNode.formula, gainFormula, levelFormula, fallFrom]

def levelReadings : Readings where
  indexedTarget _ := .ok none
  resolveValue name _ := .error (.nodeNotFound name)
  resolveFormulaVar _ var _ := .error (.nodeNotFound var.provider)
  evalAst _ ast values _ :=
    match ast with
    | .binary .sub (.literal (.int minuend)) (.variable var) =>
      match values.lookup var with
      | some value => .ok (.float (minuend.toInt - value.asF64))
      | none => .error (.narrow .formula)
    | _ => .error (.narrow .formula)

theorem level_evalFrom (minuend : Int64) (name pValue : Text) (slope : Slope) (raw : SkValue)
    (stack : List Text) :
    levelReadings.evalFrom (fallFrom minuend name pValue slope) raw stack =
      .ok (.float (minuend.toInt - raw.asF64)) := rfl

theorem level_falls (minuend : Int64) (name pValue : Text) (slope : Slope) (lo hi : SkValue)
    (stack : List Text) : Directed false (fun _ => True) lo hi fun r =>
      levelReadings.evalFrom (fallFrom minuend name pValue slope) r stack where
  defined r _ _ _ := ⟨_, level_evalFrom minuend name pValue slope r stack⟩
  ordered r r' v v' _ _ _ hle _ hv hv' := by
    rw [level_evalFrom] at hv hv'
    cases hv
    cases hv'
    exact sub_le_sub_left hle _

/-- The level rises with the register, from -95 to -85. -/
theorem converter_limits_level :
    ∃ min max, limit levelMap levelReadings (lit "Level") (lit "Level") [] .min [] =
        .ok (some min) ∧
      limit levelMap levelReadings (lit "Level") (lit "Level") [] .max [] = .ok (some max) ∧
      min.asF64 = -95 ∧ max.asF64 = -85 := by
  have hraw : Chain levelMap levelReadings (fun _ => True) (.int 0) (.int 10) (lit "Raw") []
      (lit "Raw") [lit "Gain", lit "Level"] true .ok := by
    apply Chain.raw
    · rw [limit]
      rfl
    · rw [limit]
      rfl
  have hgain : Chain levelMap levelReadings (fun _ => True) (.int 0) (.int 10) (lit "Link")
      [lit "Link"] (lit "Gain") [lit "Level"] (true == false) fun r =>
        Except.ok r >>= fun v => levelReadings.evalFrom gainFormula v [lit "Gain", lit "Level"] :=
    .converter (fun _ => True) rfl rfl (by decide) (by decide) hraw (fun _ _ _ _ _ _ => trivial)
      (fun low high _ _ => ⟨trivial, trivial, level_falls _ _ _ _ low high _⟩) trivial
  have hlink : levelMap.Links levelReadings (lit "Link") (lit "Gain") := by
    refine ⟨_, _, rfl, ⟨?_, rfl⟩, rfl⟩
    intro which hwhich
    cases which with
    | inc => exact absurd rfl hwhich
    | min => exact ⟨rfl, rfl⟩
    | max => exact ⟨rfl, rfl⟩
  have hlevel : Chain levelMap levelReadings (fun _ => True) (.int 0) (.int 10) (lit "Level") []
      (lit "Level") [] ((true == false) == false) fun r =>
        (Except.ok r >>= fun v => levelReadings.evalFrom gainFormula v [lit "Gain", lit "Level"])
          >>= fun v => levelReadings.evalFrom levelFormula v [lit "Level"] :=
    .converter (fun _ => True) rfl rfl (by simp) (by simp) (.link (by simp) hlink hgain)
      (fun _ _ _ _ _ _ => trivial)
      (fun low high _ _ => ⟨trivial, trivial, level_falls _ _ _ _ low high _⟩) rfl
  obtain ⟨min, max, small, large, hmin, hmax, hsmall, hlarge, hminSmall, hmaxLarge, -⟩ :=
    (converter_limits levelMap levelReadings).2 (fun _ => True) (.int 0) (.int 10) _ _ _ _ _ _
      trivial trivial (by decide) hlevel
  have hfive : ((5 : Int64).toInt : ℚ) = 5 := by exact_mod_cast rfl
  have hhundred : ((100 : Int64).toInt : ℚ) = 100 := by exact_mod_cast rfl
  refine ⟨min, max, hmin, hmax, ?_, ?_⟩
  · cases hsmall
    rw [hminSmall]
    change ((5 : Int64).toInt : ℚ) - ((100 : Int64).toInt - ((0 : Int64).toInt : ℚ)) = -95
    rw [hfive, hhundred, show ((0 : Int64).toInt : ℚ) = 0 by exact_mod_cast rfl]
    norm_num
  · cases hlarge
    rw [hmaxLarge]
    change ((5 : Int64).toInt : ℚ) - ((100 : Int64).toInt - ((10 : Int64).toInt : ℚ)) = -85
    rw [hfive, hhundred, show ((10 : Int64).toInt : ℚ) = 10 by exact_mod_cast rfl]
    norm_num

/-- A number whose minimum is what a converter makes of it. -/
def rawNode : IntegerNode where
  name := lit "Raw"
  nodeMeta := ⟨.beginner, none, none, none, none, none, false, none, none, []⟩
  addressing := none
  access := .rw
  min := none
  max := some 10
  inc := none
  bitfield := none
  sign := .signed
  byteOrder := .little
  selected := []
  pvalue := none
  pMax := none
  pMin := some (lit "Scaled")
  pInc := none
  value := some 5
  indexed := none
  predicates := {}

def scaledNode : IntConverterNode where
  name := lit "Scaled"
  nodeMeta := ⟨.beginner, none, none, none, none, none, false, none, none, []⟩
  pValue := lit "Raw"
  astTo := .variable (lit "FROM")
  astFrom := .variable (lit "TO")
  varsTo := []
  varsFrom := [⟨lit "TO", lit "Raw", .value⟩]
  slope := .increasing
  predicates := {}

def scaledSetting : Setting Unit where
  map := .ofNodes [(lit "Raw", .integer rawNode), (lit "Scaled", .intConverter scaledNode)]
    (by simp [Node.name, rawNode, scaledNode]) [] [] [] [] []
  io := ⟨fun device _ len => (.ok (List.replicate len 0), device), fun device _ _ => (.ok (), device)⟩
  clock := id

/-- The number has limits, and the formula keeps every value as it is; but the converter's
minimum needs its value while the formula is on the stack. -/
theorem bound_needs_converter :
    (get scaledSetting 6 _ (.limit (lit "Raw") (lit "Raw") [] .min []) { device := () }).1 =
      .ok (some (.int 5)) ∧
    (get scaledSetting 6 _ (.limit (lit "Raw") (lit "Raw") [] .max []) { device := () }).1 =
      .ok (some (.int 10)) ∧
    (∀ fuel raw w, (run (get scaledSetting fuel) (look scaledSetting)
      (scaledSetting.map.evalFrom (NodeMap.IntConverterNode.fromFormula scaledNode) (.int raw)
        []).among w).1 = .ok (.int raw)) ∧
    (∀ fuel, (get scaledSetting (fuel + 3) _ (.limit (lit "Scaled") (lit "Scaled") [] .min [])
      { device := () }).1 =
        .error (.error (.exprEval (lit "Scaled") (.cycle (lit "Scaled"))))) :=
  ⟨rfl, rfl, fun _ _ _ => rfl, fun _ => rfl⟩

end VivaGenicam.Genapi.ConverterLimits
