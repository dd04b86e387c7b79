import VivaGenicam.Genapi.IntegerLiterals
import VivaGenicam.Genapi.Nodes
import Mathlib.Data.Rat.Floor

/-!
How an integer is taken from a formula's value. The value of a node that
computes one is read as an integer, used as a limit or a command's value, and
printed; each of these narrows it its own way. Floats are exact rationals here,
so a cast from an integer changes nothing.
-/

namespace VivaGenicam.Genapi.Narrowing

open GenapiXml

/-- What a formula evaluates to. -/
inductive SkValue where
  | int (value : Int64)
  | float (value : ℚ)
deriving DecidableEq

inductive NarrowError where
  /-- The evaluator's own. -/
  | formula
  | notAnInteger (name : Text) (value : ℚ)
  | wrongKind (name : Text) (kind expected : String)
deriving DecidableEq

def truncate (value : ℚ) : Int := if 0 ≤ value then ⌊value⌋ else ⌈value⌉

def saturate (value : Int) : Int64 := .ofInt (max (-2 ^ 63) (min value (2 ^ 63 - 1)))

namespace SkValue

def asI64 : SkValue → Int64
  | .int value => value
  | .float value => saturate (truncate value)

def asF64 : SkValue → ℚ
  | .int value => value.toInt
  | .float value => value

end SkValue

def roundTiesToZero (value : ℚ) : ℚ :=
  if value ≥ 0 then
    let base : ℚ := ⌊value⌋
    if value - base > 1 / 2 then base + 1 else base
  else
    let base : ℚ := ⌈value⌉
    if value - base < -(1 / 2) then base - 1 else base

/-- Round to nearest with ties toward zero. Every rational is finite; the largest
integer, as a float, is `2 ^ 63`. -/
def roundToI64 (name : Text) (value : ℚ) : Except NarrowError Int64 :=
  let rounded := roundTiesToZero value
  if rounded < -2 ^ 63 ∨ rounded > 2 ^ 63 then .error (.notAnInteger name value)
  else
    let truncated : ℚ := truncate rounded
    if |rounded - truncated| > 1 / 10 ^ 9 then .error (.notAnInteger name value)
    else .ok (saturate (truncate truncated))

/-- An integer formula that stayed integral is exact; one that picked up a float
along the way rounds. -/
def skToI64 (name : Text) : SkValue → Except NarrowError Int64
  | .int value => .ok value
  | .float value => roundToI64 name value

inductive FormulaNode where
  | swissKnife (name : Text) (output : SkOutput)
  | converter (name : Text) (output : SkOutput)
  | intConverter (name : Text)

namespace FormulaNode

def name : FormulaNode → Text
  | .swissKnife name _ | .converter name _ | .intConverter name => name

def IntegerOutput : FormulaNode → Prop
  | .swissKnife _ output | .converter _ output => output = .integer
  | .intConverter _ => True

section

-- what `eval_formula` answers, and how a float is printed
variable (formula : Except NarrowError SkValue) (showF64 : ℚ → Text) (node : FormulaNode)

def evaluateSwissKnife : Except NarrowError SkValue := formula

def evaluateConverter : Except NarrowError SkValue := formula

def evaluateIntConverter : Except NarrowError Int64 := do
  return (← formula).asI64

def getConverter : Except NarrowError ℚ := do
  return (← evaluateConverter formula).asF64

def getInteger : Except NarrowError Int64 :=
  match node with
  | .intConverter _ => evaluateIntConverter formula
  | .converter name _ => do roundToI64 name (← getConverter formula)
  | .swissKnife name output =>
    match output with
    | .integer => do skToI64 name (← evaluateSwissKnife formula)
    | .float => .error (.wrongKind name "SwissKnife" "an integer formula")

def resolveValue : Except NarrowError SkValue :=
  match node with
  | .swissKnife _ _ => evaluateSwissKnife formula
  | .converter _ _ => evaluateConverter formula
  | .intConverter _ => do return .int (← evaluateIntConverter formula)

/-- The bound an integer takes from the node a `<pMin>`, `<pMax>` or `<pInc>`
names. -/
def limit : Except NarrowError Int64 := do skToI64 node.name (← resolveValue formula node)

def commandValue : Except NarrowError Int64 := do
  skToI64 node.name (← resolveValue formula node)

def getText : Except NarrowError Text :=
  match node with
  | .intConverter _ => do return decimalText (← getInteger formula node)
  | .swissKnife _ output =>
    match output with
    | .integer => do return decimalText (← getInteger formula node)
    | .float => do return showF64 (← evaluateSwissKnife formula).asF64
  | .converter _ output =>
    match output with
    | .integer => do return decimalText (saturate (truncate (← getConverter formula)))
    | .float => do return showF64 (← getConverter formula)

end

/-- The value is narrowed by one rule wherever an integer is taken from it. -/
def OneRule (showF64 : ℚ → Text) (node : FormulaNode) (value : SkValue) : Prop :=
  node.getInteger (.ok value) = skToI64 node.name value ∧
    node.limit (.ok value) = skToI64 node.name value ∧
    node.commandValue (.ok value) = skToI64 node.name value ∧
    node.getText (.ok value) showF64 = (skToI64 node.name value).map decimalText

/-- Rounding and truncation give the same 64 bits: the fraction is at most one
half, or the value is where both saturate. -/
def RoundsAsTruncated (value : ℚ) : Prop :=
  -2 ^ 63 - 1 / 2 ≤ value ∧ value ≤ 2 ^ 63 + 1 / 2 ∧
    (2 ^ 63 - 1 ≤ value ∨ Int.fract |value| ≤ 1 / 2)

instance RoundsAsTruncated.decidable (value : ℚ) : Decidable (RoundsAsTruncated value) :=
  inferInstanceAs (Decidable (_ ∧ _ ∧ (_ ∨ _)))

def KeepsRule : FormulaNode → SkValue → Prop
  | .swissKnife _ _, _ | _, .int _ => True
  | .converter _ _, .float value | .intConverter _, .float value => RoundsAsTruncated value

end FormulaNode

/-- The integer `roundTiesToZero` gives. -/
def nearest (value : ℚ) : Int :=
  if value ≥ 0 then
    if value - ⌊value⌋ > 1 / 2 then ⌊value⌋ + 1 else ⌊value⌋
  else
    if value - ⌈value⌉ < -(1 / 2) then ⌈value⌉ - 1 else ⌈value⌉

theorem roundTiesToZero_eq (value : ℚ) : roundTiesToZero value = nearest value := by
  unfold roundTiesToZero nearest
  dsimp only
  split_ifs <;> push_cast <;> rfl

theorem truncate_intCast (value : Int) : truncate (value : ℚ) = value := by
  unfold truncate
  rw [Int.floor_intCast, Int.ceil_intCast, ite_self]

theorem roundToI64_eq (name : Text) (value : ℚ) :
    roundToI64 name value =
      if -2 ^ 63 ≤ nearest value ∧ nearest value ≤ 2 ^ 63 then .ok (saturate (nearest value))
      else .error (.notAnInteger name value) := by
  have hlow : ((nearest value : ℚ) < -2 ^ 63) ↔ nearest value < -2 ^ 63 := by
    rw [← Int.cast_lt (R := ℚ)]
    push_cast
    rfl
  have hhigh : ((nearest value : ℚ) > 2 ^ 63) ↔ nearest value > 2 ^ 63 := by
    rw [gt_iff_lt, gt_iff_lt, ← Int.cast_lt (R := ℚ)]
    push_cast
    rfl
  unfold roundToI64
  simp only [roundTiesToZero_eq, truncate_intCast, sub_self, abs_zero, hlow, hhigh]
  rw [if_neg (show ¬ (0 : ℚ) > 1 / 10 ^ 9 by norm_num)]
  split
  · rw [if_neg (by omega)]
  · rw [if_pos (by omega)]

theorem saturate_toInt (value : Int) :
    (saturate value).toInt = max (-2 ^ 63) (min value (2 ^ 63 - 1)) := by
  unfold saturate
  rw [Int64.toInt_ofInt_of_le]
  · exact le_max_left _ _
  · omega

theorem saturate_of_toInt (value : Int64) : saturate value.toInt = value := by
  have hlow := value.le_toInt
  have hhigh := value.toInt_lt
  apply Int64.toInt_inj.mp
  rw [saturate_toInt]
  omega

theorem saturate_eq_iff (first second : Int) :
    saturate first = saturate second ↔
      max (-2 ^ 63) (min first (2 ^ 63 - 1)) = max (-2 ^ 63) (min second (2 ^ 63 - 1)) := by
  rw [← Int64.toInt_inj, saturate_toInt, saturate_toInt]

theorem nearest_nonneg {value : ℚ} (h : 0 ≤ value) :
    (-2 ^ 63 ≤ nearest value ∧ nearest value ≤ 2 ^ 63 ∧
      saturate (nearest value) = saturate (truncate value)) ↔
      FormulaNode.RoundsAsTruncated value := by
  have hlow := Int.floor_le value
  have hhigh := Int.lt_floor_add_one value
  have hpos : 0 ≤ ⌊value⌋ := Int.floor_nonneg.mpr h
  unfold FormulaNode.RoundsAsTruncated nearest truncate
  rw [if_pos h, if_pos h, abs_of_nonneg h, Int.fract, saturate_eq_iff]
  split
  · rename_i hhalf
    constructor
    · rintro ⟨-, hle, heq⟩
      have htop : ⌊value⌋ = 2 ^ 63 - 1 := by omega
      rw [htop] at hlow hhigh hhalf
      push_cast at hlow hhigh hhalf
      exact ⟨by linarith, by linarith, .inl (by linarith)⟩
    · rintro ⟨-, hle, hend⟩
      have hbelow : ⌊value⌋ < 2 ^ 63 := by
        have hlt : (⌊value⌋ : ℚ) < (2 ^ 63 : Int) := by
          push_cast
          linarith
        exact Int.cast_lt.mp hlt
      have habove : (2 ^ 63 - 2 : Int) < ⌊value⌋ := by
        have hge : (2 ^ 63 - 1 : ℚ) ≤ value := hend.resolve_right (by linarith)
        have hlt : ((2 ^ 63 - 2 : Int) : ℚ) < ⌊value⌋ := by
          push_cast
          linarith
        exact Int.cast_lt.mp hlt
      omega
  · rename_i hhalf
    constructor
    · rintro ⟨-, hle, -⟩
      have hcast : (⌊value⌋ : ℚ) ≤ (2 ^ 63 : Int) := Int.cast_le.mpr hle
      push_cast at hcast
      exact ⟨by linarith, by linarith, .inr (by linarith)⟩
    · rintro ⟨-, hle, -⟩
      have hlt : (⌊value⌋ : ℚ) < (2 ^ 63 + 1 : Int) := by
        push_cast
        linarith
      have hbelow := Int.cast_lt.mp hlt
      exact ⟨by omega, by omega, rfl⟩

theorem nearest_neg {value : ℚ} (h : value < 0) :
    (-2 ^ 63 ≤ nearest value ∧ nearest value ≤ 2 ^ 63 ∧
      saturate (nearest value) = saturate (truncate value)) ↔
      FormulaNode.RoundsAsTruncated value := by
  have hlow := Int.le_ceil value
  have hhigh := Int.ceil_lt_add_one value
  have hneg : ⌈value⌉ ≤ 0 := Int.ceil_nonpos.mpr h.le
  unfold FormulaNode.RoundsAsTruncated nearest truncate
  rw [if_neg (not_le.mpr h), if_neg (not_le.mpr h), abs_of_neg h, Int.fract, Int.floor_neg,
    Int.cast_neg, saturate_eq_iff]
  split
  · rename_i hhalf
    -- truncation never reaches the integer below
    refine iff_of_false (fun hall => ?_) (fun hall => ?_)
    · omega
    · rcases hall.2.2 with hend | hfract
      · linarith
      · linarith
  · rename_i hhalf
    constructor
    · rintro ⟨hge, -, -⟩
      have hcast : ((-2 ^ 63 : Int) : ℚ) ≤ ⌈value⌉ := Int.cast_le.mpr hge
      push_cast at hcast
      exact ⟨by linarith, by linarith, .inr (by linarith)⟩
    · rintro ⟨hge, -, -⟩
      have hlt : ((-2 ^ 63 - 1 : Int) : ℚ) < ⌈value⌉ := by
        push_cast
        linarith
      have habove := Int.cast_lt.mp hlt
      exact ⟨by omega, by omega, rfl⟩

theorem nearest_iff (value : ℚ) :
    (-2 ^ 63 ≤ nearest value ∧ nearest value ≤ 2 ^ 63 ∧
      saturate (nearest value) = saturate (truncate value)) ↔
      FormulaNode.RoundsAsTruncated value := by
  rcases le_or_gt 0 value with h | h
  · exact nearest_nonneg h
  · exact nearest_neg h

theorem truncated_iff (name : Text) (value : ℚ) :
    Except.ok (saturate (truncate value)) = roundToI64 name value ↔
      FormulaNode.RoundsAsTruncated value := by
  rw [roundToI64_eq, ← nearest_iff]
  split
  · rename_i hin
    rw [Except.ok.injEq]
    exact ⟨fun heq => ⟨hin.1, hin.2, heq.symm⟩, fun hall => hall.2.2.symm⟩
  · rename_i hout
    exact iff_of_false nofun fun hall => hout ⟨hall.1, hall.2.1⟩

theorem roundToI64_intCast (name : Text) (value : Int64) :
    roundToI64 name (value.toInt : ℚ) = .ok value := by
  have hlow := value.le_toInt
  have hhigh := value.toInt_lt
  have hnearest : nearest (value.toInt : ℚ) = value.toInt := by
    unfold nearest
    rw [Int.floor_intCast, Int.ceil_intCast, sub_self]
    split
    · exact if_neg (by norm_num)
    · exact if_neg (by norm_num)
  rw [roundToI64_eq, hnearest, if_pos ⟨by omega, by omega⟩, saturate_of_toInt]

theorem decimalText_injective {first second : Int64} (h : decimalText first = decimalText second) :
    first = second := by
  have hmagnitude : ∀ {m n : Nat}, Nat.toDigits 10 m = Nat.toDigits 10 n → m = n := by
    intro m n heq
    rw [← numeral_toDigits m, heq, numeral_toDigits]
  have hsign : ∀ {m n : Nat}, '-' :: Nat.toDigits 10 m ≠ Nat.toDigits 10 n := by
    intro m n heq
    have hdigit := isDigits_toDigits n '-' (by rw [← heq]; exact List.mem_cons_self)
    exact absurd hdigit (by decide)
  apply Int64.toInt_inj.mp
  unfold decimalText at h
  split at h
  · split at h
    · have := hmagnitude (List.cons.inj h).2
      omega
    · exact absurd h hsign
  · split at h
    · exact absurd h.symm hsign
    · have := hmagnitude h
      omega

namespace FormulaNode

theorem map_decimalText_iff {answer : Int64} {ruled : Except NarrowError Int64} :
    Except.ok (decimalText answer) = ruled.map decimalText ↔ .ok answer = ruled := by
  cases ruled with
  | error err => exact iff_of_false nofun nofun
  | ok value =>
    rw [Except.map, Except.ok.injEq, Except.ok.injEq]
    exact ⟨decimalText_injective, congrArg decimalText⟩

/-- A value is narrowed by one rule exactly where the node's own way is that
rule. -/
theorem one_rule_iff (showF64 : ℚ → Text) (node : FormulaNode) (hinteger : node.IntegerOutput)
    (value : SkValue) : node.OneRule showF64 value ↔ node.KeepsRule value := by
  unfold OneRule
  cases node with
  | swissKnife name output =>
    obtain rfl : output = .integer := hinteger
    refine iff_of_true ⟨rfl, rfl, rfl, ?_⟩ trivial
    change (skToI64 name value >>= fun integer => pure (decimalText integer)) =
      (skToI64 name value).map decimalText
    cases skToI64 name value <;> rfl
  | converter name output =>
    obtain rfl : output = .integer := hinteger
    cases value with
    | int value =>
      refine iff_of_true ⟨roundToI64_intCast name value, rfl, rfl, ?_⟩ trivial
      change Except.ok (decimalText (saturate (truncate (value.toInt : ℚ)))) = _
      rw [truncate_intCast, saturate_of_toInt]
      rfl
    | float value =>
      change (_ ∧ _ ∧ _ ∧ Except.ok (decimalText (saturate (truncate value))) =
        (roundToI64 name value).map decimalText) ↔ RoundsAsTruncated value
      rw [map_decimalText_iff, truncated_iff]
      exact ⟨fun hall => hall.2.2.2, fun hkeeps => ⟨rfl, rfl, rfl, hkeeps⟩⟩
  | intConverter name =>
    cases value with
    | int value => exact iff_of_true ⟨rfl, rfl, rfl, rfl⟩ trivial
    | float value =>
      change (Except.ok (saturate (truncate value)) = roundToI64 name value ∧
        Except.ok (saturate (truncate value)) = roundToI64 name value ∧
        Except.ok (saturate (truncate value)) = roundToI64 name value ∧
        Except.ok (decimalText (saturate (truncate value))) =
          (roundToI64 name value).map decimalText) ↔ RoundsAsTruncated value
      rw [map_decimalText_iff, truncated_iff, and_self, and_self, and_self]

/-- Of eleven quarters an IntConverter reads two, and a Converter prints two and
reads three. -/
theorem one_rule_three_quarters :
    skToI64 (lit "Gain") (.float (11 / 4)) = .ok 3 ∧
      (intConverter (lit "Gain")).getInteger (.ok (.float (11 / 4))) = .ok 2 ∧
      (converter (lit "Gain") .integer).getInteger (.ok (.float (11 / 4))) = .ok 3 ∧
      (converter (lit "Gain") .integer).getText (.ok (.float (11 / 4))) (fun _ => []) =
        .ok (lit "2") ∧
      ¬ (intConverter (lit "Gain")).OneRule (fun _ => []) (.float (11 / 4)) ∧
      ¬ (converter (lit "Gain") .integer).OneRule (fun _ => []) (.float (11 / 4)) := by
  have hruled : skToI64 (lit "Gain") (.float (11 / 4)) = .ok 3 := by decide +kernel
  have hread : (intConverter (lit "Gain")).getInteger (.ok (.float (11 / 4))) = .ok 2 := by
    decide +kernel
  have hprinted : (converter (lit "Gain") .integer).getText (.ok (.float (11 / 4)))
      (fun _ => []) = .ok (lit "2") := by decide +kernel
  refine ⟨hruled, hread, by decide +kernel, hprinted, fun hrule => ?_, fun hrule => ?_⟩
  · have heq := hread.symm.trans (hrule.1.trans hruled)
    exact absurd (Except.ok.inj heq) (by decide)
  · have heq := hprinted.symm.trans (hrule.2.2.2.trans (congrArg (Except.map decimalText) hruled))
    exact absurd (Except.ok.inj heq) (by decide)

theorem one_rule_iff_half :
    (converter (lit "Gain") .integer).OneRule (fun _ => []) (.float (5 / 2)) ∧
      ¬ (intConverter (lit "Gain")).OneRule (fun _ => []) (.float (8 / 3)) := by
  constructor
  · have hkeeps : RoundsAsTruncated (5 / 2) := by decide +kernel
    exact (one_rule_iff _ (converter (lit "Gain") .integer) rfl _).mpr hkeeps
  · have hbreaks : ¬ RoundsAsTruncated (8 / 3) := by decide +kernel
    exact mt (one_rule_iff _ (intConverter (lit "Gain")) trivial _).mp hbreaks

end FormulaNode

end VivaGenicam.Genapi.Narrowing
