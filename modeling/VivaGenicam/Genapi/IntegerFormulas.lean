import VivaGenicam.Genapi.Formula

/-!
Integer formulas: what they mean as arithmetic on 64-bit words, which of their
parts are evaluated, and that evaluation computes exactly that.
-/

namespace VivaGenicam.Genapi

open GenapiXml

/-- The 64-bit two's complement number congruent to `n`. -/
def word (n : Int) : Int := n.bmod (2 ^ 64)

def truth (p : Prop) [Decidable p] : Int := if p then 1 else 0

def shiftCount (n : Int) : Nat := (n % 64).toNat

namespace UnaryOp

def meaning (op : UnaryOp) (a : Int) : Int :=
  match op with
  | .plus => a
  | .minus => word (-a)
  | .not => truth (a = 0)
  | .bitNot => -a - 1

end UnaryOp

namespace BinaryOp

/-- Whether the right operand is needed, given the left one. -/
def needsRight (op : BinaryOp) (a : Int) : Prop :=
  match op with
  | .and => a ≠ 0
  | .or => a = 0
  | _ => True

instance (op : BinaryOp) (a : Int) : Decidable (op.needsRight a) := by
  cases op <;> unfold needsRight <;> infer_instance

/-- `pow` is not an operator of integer arithmetic. -/
def meaning (op : BinaryOp) (a b : Int) : Except EvalError Int :=
  match op with
  | .add => .ok (word (a + b))
  | .sub => .ok (word (a - b))
  | .mul => .ok (word (a * b))
  | .div => if b = 0 then .error .divisionByZero else .ok (word (a.tdiv b))
  | .mod => if b = 0 then .error .divisionByZero else .ok (a.tmod b)
  | .lt => .ok (truth (a < b))
  | .le => .ok (truth (a ≤ b))
  | .gt => .ok (truth (a > b))
  | .ge => .ok (truth (a ≥ b))
  | .eq => .ok (truth (a = b))
  | .ne => .ok (truth (a ≠ b))
  | .and => .ok (truth (a ≠ 0 ∧ b ≠ 0))
  | .or => .ok (truth (a ≠ 0 ∨ b ≠ 0))
  | .bitAnd => .ok (BitVec.ofInt 64 a &&& BitVec.ofInt 64 b).toInt
  | .bitOr => .ok (BitVec.ofInt 64 a ||| BitVec.ofInt 64 b).toInt
  | .bitXor => .ok (BitVec.ofInt 64 a ^^^ BitVec.ofInt 64 b).toInt
  | .shl => .ok (word (a * 2 ^ shiftCount b))
  | .shr => .ok (a / 2 ^ shiftCount b)
  | .pow => .error .unreachable

/-- The value without the right operand, where it is not needed. -/
def skipped (op : BinaryOp) : Int := if op = .or then 1 else 0

end BinaryOp

namespace Function

/-- Functions of integers; the others take or give a float. -/
def IsInteger : Function → Prop
  | .rounding _ | .abs | .neg | .sgn | .extreme _ => True
  | .binary op => op = .mod
  | _ => False

def meaning (function : Function) (args : List Int) : Except EvalError Int :=
  match function, args with
  | .rounding _, [a] => .ok a
  | .abs, [a] => .ok (word |a|)
  | .neg, [a] => .ok (word (-a))
  | .sgn, [a] => .ok a.sign
  | .binary op, [a, b] => op.meaning a b
  | .extreme true, [a, b] => .ok (min a b)
  | .extreme false, [a, b] => .ok (max a b)
  | _, _ => .error .unreachable

end Function

section

variable (env : Text → Int)

mutual

/-- What a formula means when its variables have the values of `env`. -/
def meaning : AstNode → Except EvalError Int
  | .literal value => .ok value.asI64.toInt
  | .variable name => .ok (env name)
  | .unary op expr => do pure (op.meaning (← meaning expr))
  | .binary op left right => do
    let a ← meaning left
    if op.needsRight a then op.meaning a (← meaning right) else pure op.skipped
  | .ternary cond thenExpr elseExpr => do
    if (← meaning cond) ≠ 0 then meaning thenExpr else meaning elseExpr
  | .fnCall name args => do
    let values ← meanings args
    match Function.named name with
    | none => .error (.unknownFunction name)
    | some function =>
      if args.length ≠ function.arity then
        .error (.arityMismatch name function.arity args.length)
      else function.meaning values

def meanings : List AstNode → Except EvalError (List Int)
  | [] => .ok []
  | arg :: rest => do
    let value ← meaning arg
    let values ← meanings rest
    pure (value :: values)

end

mutual

def asked : AstNode → List Text
  | .literal _ => []
  | .variable name => [name]
  | .unary _ expr => asked expr
  | .binary op left right =>
    asked left ++
      match meaning env left with
      | .ok a => if op.needsRight a then asked right else []
      | .error _ => []
  | .ternary cond thenExpr elseExpr =>
    asked cond ++
      match meaning env cond with
      | .ok a => if a ≠ 0 then asked thenExpr else asked elseExpr
      | .error _ => []
  | .fnCall _ args => askedAll args

def askedAll : List AstNode → List Text
  | [] => []
  | arg :: rest =>
    asked arg ++
      match meaning env arg with
      | .ok _ => askedAll rest
      | .error _ => []

end

/-- The arguments that are evaluated: those before them have a value. -/
inductive Reached : List AstNode → AstNode → Prop
  | head (arg : AstNode) (rest : List AstNode) : Reached (arg :: rest) arg
  | tail {first arg : AstNode} {rest : List AstNode} {a : Int}
    (hfirst : meaning env first = .ok a) (h : Reached rest arg) : Reached (first :: rest) arg

/-- The parts of a formula that are evaluated. -/
inductive Evaluated : AstNode → AstNode → Prop
  | self (ast : AstNode) : Evaluated ast ast
  | unary (op : UnaryOp) {expr sub : AstNode} (h : Evaluated expr sub) :
    Evaluated (.unary op expr) sub
  | left (op : BinaryOp) {left sub : AstNode} (right : AstNode) (h : Evaluated left sub) :
    Evaluated (.binary op left right) sub
  | right {op : BinaryOp} {left right sub : AstNode} {a : Int}
    (hleft : meaning env left = .ok a) (hneeds : op.needsRight a) (h : Evaluated right sub) :
    Evaluated (.binary op left right) sub
  | cond {cond sub : AstNode} (thenExpr elseExpr : AstNode) (h : Evaluated cond sub) :
    Evaluated (.ternary cond thenExpr elseExpr) sub
  | thenExpr {cond thenExpr sub : AstNode} (elseExpr : AstNode) {a : Int}
    (hcond : meaning env cond = .ok a) (hne : a ≠ 0) (h : Evaluated thenExpr sub) :
    Evaluated (.ternary cond thenExpr elseExpr) sub
  | elseExpr {cond elseExpr sub : AstNode} (thenExpr : AstNode)
    (hcond : meaning env cond = .ok 0) (h : Evaluated elseExpr sub) :
    Evaluated (.ternary cond thenExpr elseExpr) sub
  | arg (name : Text) {args : List AstNode} {arg sub : AstNode}
    (hreached : Reached env args arg) (h : Evaluated arg sub) :
    Evaluated (.fnCall name args) sub

/-- A quotient or remainder whose operands are evaluated, the divisor to zero. -/
inductive DividesByZero : AstNode → Prop
  | operator {op : BinaryOp} {left right : AstNode} {a : Int} (hop : op = .div ∨ op = .mod)
    (hleft : meaning env left = .ok a) (hright : meaning env right = .ok 0) :
    DividesByZero (.binary op left right)
  | function {name : Text} {left right : AstNode} {a : Int}
    (hname : Function.named name = some (.binary .mod))
    (hleft : meaning env left = .ok a) (hright : meaning env right = .ok 0) :
    DividesByZero (.fnCall name [left, right])

end

mutual

/-- No float literal, power, constant or function of floats. -/
def AstNode.IntegerOnly : AstNode → Prop
  | .literal value => value.isInt = true
  | .variable _ => True
  | .unary _ expr => expr.IntegerOnly
  | .binary op left right => op ≠ .pow ∧ left.IntegerOnly ∧ right.IntegerOnly
  | .ternary cond thenExpr elseExpr =>
    cond.IntegerOnly ∧ thenExpr.IntegerOnly ∧ elseExpr.IntegerOnly
  | .fnCall name args =>
    (∀ function, Function.named name = some function → function.IsInteger) ∧
      AstNode.AllIntegerOnly args

def AstNode.AllIntegerOnly : List AstNode → Prop
  | [] => True
  | arg :: rest => arg.IntegerOnly ∧ AstNode.AllIntegerOnly rest

end

mutual

def AstNode.variables : AstNode → List Text
  | .literal _ => []
  | .variable name => [name]
  | .unary _ expr => expr.variables
  | .binary _ left right => left.variables ++ right.variables
  | .ternary cond thenExpr elseExpr =>
    cond.variables ++ thenExpr.variables ++ elseExpr.variables
  | .fnCall _ args => AstNode.allVariables args

def AstNode.allVariables : List AstNode → List Text
  | [] => []
  | arg :: rest => arg.variables ++ AstNode.allVariables rest

end

mutual

/-- Every function called is known and given as many arguments as it takes. -/
def AstNode.CallsKnown : AstNode → Prop
  | .literal _ | .variable _ => True
  | .unary _ expr => expr.CallsKnown
  | .binary _ left right => left.CallsKnown ∧ right.CallsKnown
  | .ternary cond thenExpr elseExpr =>
    cond.CallsKnown ∧ thenExpr.CallsKnown ∧ elseExpr.CallsKnown
  | .fnCall name args =>
    (∃ function, Function.named name = some function ∧ args.length = function.arity) ∧
      AstNode.AllCallsKnown args

def AstNode.AllCallsKnown : List AstNode → Prop
  | [] => True
  | arg :: rest => arg.CallsKnown ∧ AstNode.AllCallsKnown rest

end

theorem toInt_ite_one_zero (p : Prop) [Decidable p] :
    (if p then (1 : Int64) else 0).toInt = truth p := by
  unfold truth
  split <;> rfl

variable (x : Int64)

theorem int_ne_zero_iff : x ≠ 0 ↔ x.toInt ≠ 0 := by
  rw [ne_eq, ne_eq, ← Int64.toInt_inj]
  rfl

theorem isTruthy_int : (Value.int x).isTruthy = true ↔ x.toInt ≠ 0 := by
  rw [← int_ne_zero_iff]
  simp [Value.isTruthy]

theorem toInt_bounds : -2 ^ 63 ≤ x.toInt ∧ x.toInt < 2 ^ 63 :=
  ⟨Int64.le_toInt x, Int64.toInt_lt x⟩

theorem word_of_bounds {n : Int} (hlow : -2 ^ 63 ≤ n) (hhigh : n < 2 ^ 63) : word n = n := by
  unfold word
  rw [Int.bmod_eq_of_le (by norm_num; omega) (by norm_num; omega)]

theorem toInt_wrappingAbs : (wrappingAbs x).toInt = word |x.toInt| := by
  have hbounds := toInt_bounds x
  unfold wrappingAbs
  split
  · rename_i hneg
    have hneg : x.toInt < 0 := Int64.lt_iff_toInt_lt.mp hneg
    rw [Int64.toInt_neg, abs_of_neg hneg]
    rfl
  · rename_i hneg
    have hpos : 0 ≤ x.toInt := not_lt.mp fun h => hneg (Int64.lt_iff_toInt_lt.mpr h)
    rw [abs_of_nonneg hpos, word_of_bounds hbounds.1 hbounds.2]

theorem toInt_signum : (signum x).toInt = x.toInt.sign := by
  unfold signum
  split
  · rename_i hneg
    have hneg : x.toInt < 0 := Int64.lt_iff_toInt_lt.mp hneg
    rw [Int.sign_eq_neg_one_of_neg hneg]
    rfl
  · rename_i hneg
    split
    · rename_i hzero
      rw [hzero]
      rfl
    · rename_i hzero
      have hne := (int_ne_zero_iff x).mp hzero
      have hpos : 0 ≤ x.toInt := not_lt.mp fun h => hneg (Int64.lt_iff_toInt_lt.mpr h)
      rw [Int.sign_eq_one_of_pos (by omega)]
      rfl

theorem shiftAmount_int (y : Int64) : shiftAmount (.int y) = shiftCount y.toInt := by
  have hmask : (y.toBitVec &&& 63).toNat = y.toBitVec.toNat % 64 := by
    rw [BitVec.toNat_and]
    exact Nat.and_two_pow_sub_one_eq_mod _ 6
  have hint : y.toInt = y.toBitVec.toInt := rfl
  have hcount : (y.toInt % 64).toNat = y.toBitVec.toNat % 64 := by
    rw [hint, BitVec.toInt_eq_toNat_cond]
    split <;> omega
  rw [shiftCount, hcount]
  exact hmask

theorem shiftCount_lt (n : Int) : shiftCount n < 64 := by
  unfold shiftCount
  omega

theorem toInt_wrappingShl {count : Nat} (hcount : count < 64) :
    (wrappingShl x count).toInt = word (x.toInt * 2 ^ count) := by
  have hint : (wrappingShl x count).toInt = (x.toBitVec <<< (count % 64)).toInt := rfl
  have hx : x.toInt = x.toBitVec.toInt := rfl
  rw [hint, Nat.mod_eq_of_lt hcount, BitVec.toInt_shiftLeft, hx, word, BitVec.toInt_eq_toNat_bmod,
    Nat.shiftLeft_eq, Int.bmod_mul_bmod]
  norm_cast

theorem toInt_wrappingShr {count : Nat} (hcount : count < 64) :
    (wrappingShr x count).toInt = x.toInt / 2 ^ count := by
  have hint : (wrappingShr x count).toInt = (x.toBitVec.sshiftRight (count % 64)).toInt := rfl
  have hx : x.toInt = x.toBitVec.toInt := rfl
  rw [hint, Nat.mod_eq_of_lt hcount, BitVec.toInt_sshiftRight, hx, Int.shiftRight_eq_div_pow]
  norm_cast

theorem evalUnary_int (op : UnaryOp) (x : Int64) :
    ∃ y, evalUnary op (.int x) .integer = .int y ∧ y.toInt = op.meaning x.toInt := by
  cases op with
  | plus => exact ⟨x, rfl, rfl⟩
  | minus => exact ⟨-x, by simp [evalUnary, Value.asI64], by simp [UnaryOp.meaning, word]⟩
  | not =>
    refine ⟨_, rfl, ?_⟩
    simp only [UnaryOp.meaning]
    by_cases hzero : x = 0
    · subst hzero
      rfl
    · have hne := (int_ne_zero_iff x).mp hzero
      simp [Value.isTruthy, hzero, truth, hne]
  | bitNot =>
    refine ⟨~~~x, rfl, ?_⟩
    have hbounds := toInt_bounds x
    rw [Int64.toInt_not, UnaryOp.meaning]
    exact word_of_bounds (by omega) (by omega)

theorem compare_int (x y : Int64) (intCmp : Int64 → Int64 → Bool)
    (floatCmp : Float → Float → Bool) (p : Int → Int → Prop) [DecidableRel p]
    (h : intCmp x y = true ↔ p x.toInt y.toInt) :
    ∃ z, compare (.int x) (.int y) .integer intCmp floatCmp = .int z ∧
      z.toInt = truth (p x.toInt y.toInt) := by
  refine ⟨if intCmp x y = true then 1 else 0, rfl, ?_⟩
  rw [toInt_ite_one_zero]
  simp only [truth, h]

theorem bitwise_toInt : BitVec.ofInt 64 x.toInt = x.toBitVec :=
  BitVec.ofInt_toInt

theorem evalBinary_int {op : BinaryOp} (hpow : op ≠ .pow) (hand : op ≠ .and) (hor : op ≠ .or)
    (x y : Int64) : ∃ r : Except EvalError Int64,
      evalBinary op (.int x) (.int y) .integer = r.map .int ∧
        op.meaning x.toInt y.toInt = r.map Int64.toInt := by
  have hcompare : ∀ z : Int64, ∀ v : Value, ∀ n : Int, v = .int z → z.toInt = n →
      ∃ r : Except EvalError Int64, (.ok v : Except EvalError Value) = r.map .int ∧
        (.ok n : Except EvalError Int) = r.map Int64.toInt := by
    rintro z v n rfl rfl
    exact ⟨.ok z, rfl, rfl⟩
  cases op with
  | add => exact ⟨.ok (x + y), rfl, by simp [BinaryOp.meaning, word, Except.map]⟩
  | sub => exact ⟨.ok (x - y), rfl, by simp [BinaryOp.meaning, word, Except.map]⟩
  | mul => exact ⟨.ok (x * y), rfl, by simp [BinaryOp.meaning, word, Except.map]⟩
  | div =>
    by_cases hzero : y = 0
    · exact ⟨.error .divisionByZero, by simp [evalBinary, Value.asI64, hzero, Except.map],
        by simp [BinaryOp.meaning, hzero, Except.map]⟩
    · have hne := (int_ne_zero_iff y).mp hzero
      exact ⟨.ok (x / y), by simp [evalBinary, Value.asI64, hzero, Except.map],
        by simp [BinaryOp.meaning, hne, Except.map, word]⟩
  | mod =>
    by_cases hzero : y = 0
    · exact ⟨.error .divisionByZero, by simp [evalBinary, Value.asI64, hzero, Except.map],
        by simp [BinaryOp.meaning, hzero, Except.map]⟩
    · have hne := (int_ne_zero_iff y).mp hzero
      exact ⟨.ok (x % y), by simp [evalBinary, Value.asI64, hzero, Except.map],
        by simp [BinaryOp.meaning, hne, Except.map]⟩
  | pow => exact absurd rfl hpow
  | and => exact absurd rfl hand
  | or => exact absurd rfl hor
  | lt =>
    obtain ⟨z, hv, hz⟩ := compare_int x y (· < ·) (· < ·) (· < ·)
      (by simp [Int64.lt_iff_toInt_lt])
    exact hcompare z _ _ hv hz
  | le =>
    obtain ⟨z, hv, hz⟩ := compare_int x y (· ≤ ·) (· ≤ ·) (· ≤ ·)
      (by simp [Int64.le_iff_toInt_le])
    exact hcompare z _ _ hv hz
  | gt =>
    obtain ⟨z, hv, hz⟩ := compare_int x y (· > ·) (· > ·) (· > ·)
      (by simp [Int64.lt_iff_toInt_lt])
    exact hcompare z _ _ hv hz
  | ge =>
    obtain ⟨z, hv, hz⟩ := compare_int x y (· ≥ ·) (· ≥ ·) (· ≥ ·)
      (by simp [Int64.le_iff_toInt_le])
    exact hcompare z _ _ hv hz
  | eq =>
    obtain ⟨z, hv, hz⟩ := compare_int x y (· == ·) (· == ·) (· = ·)
      (by simp [Int64.toInt_inj])
    exact hcompare z _ _ hv hz
  | ne =>
    obtain ⟨z, hv, hz⟩ := compare_int x y (· != ·) (· != ·) (· ≠ ·)
      (by simp [Int64.toInt_inj])
    exact hcompare z _ _ hv hz
  | bitAnd =>
    refine ⟨.ok (x &&& y), rfl, ?_⟩
    simp only [BinaryOp.meaning, bitwise_toInt]
    rfl
  | bitOr =>
    refine ⟨.ok (x ||| y), rfl, ?_⟩
    simp only [BinaryOp.meaning, bitwise_toInt]
    rfl
  | bitXor =>
    refine ⟨.ok (x ^^^ y), rfl, ?_⟩
    simp only [BinaryOp.meaning, bitwise_toInt]
    rfl
  | shl =>
    refine ⟨.ok (wrappingShl x (shiftAmount (.int y))), rfl, ?_⟩
    have hshift := toInt_wrappingShl x (shiftCount_lt y.toInt)
    simp only [BinaryOp.meaning, Except.map, shiftAmount_int, hshift]
  | shr =>
    refine ⟨.ok (wrappingShr x (shiftAmount (.int y))), rfl, ?_⟩
    have hshift := toInt_wrappingShr x (shiftCount_lt y.toInt)
    simp only [BinaryOp.meaning, Except.map, shiftAmount_int, hshift]

theorem pick_int (x y : Int64) (wantMin : Bool) :
    ∃ z, pick (.int x) (.int y) .integer wantMin = .int z ∧
      z.toInt = if wantMin then min x.toInt y.toInt else max x.toInt y.toInt := by
  have hle : (x ≤ y) ↔ x.toInt ≤ y.toInt := Int64.le_iff_toInt_le
  by_cases hxy : x ≤ y
  · have hint := hle.mp hxy
    cases wantMin with
    | true => exact ⟨x, by simp [pick, integral, Value.asI64, hxy], by simp [hint]⟩
    | false => exact ⟨y, by simp [pick, integral, Value.asI64, hxy], by simp [hint]⟩
  · have hint := not_le.mp fun h => hxy (hle.mpr h)
    cases wantMin with
    | true => exact ⟨y, by simp [pick, integral, Value.asI64, hxy], by simp [le_of_lt hint]⟩
    | false => exact ⟨x, by simp [pick, integral, Value.asI64, hxy], by simp [le_of_lt hint]⟩

theorem apply_int {function : Function} (hinteger : function.IsInteger) (args : List Int64)
    (harity : args.length = function.arity) :
    ∃ r : Except EvalError Int64,
      function.apply .integer (args.map .int) = r.map .int ∧
        function.meaning (args.map Int64.toInt) = r.map Int64.toInt := by
  cases function with
  | float f => exact absurd hinteger id
  | constant value => exact absurd hinteger id
  | atan2 => exact absurd hinteger id
  | rounding f =>
    obtain ⟨x, rfl⟩ := List.length_eq_one_iff.mp harity
    exact ⟨.ok x, by simp [Function.apply, Value.asI64, Except.map], rfl⟩
  | abs =>
    obtain ⟨x, rfl⟩ := List.length_eq_one_iff.mp harity
    refine ⟨.ok (wrappingAbs x), by simp [Function.apply, Value.asI64, Except.map], ?_⟩
    simp [Function.meaning, Except.map, toInt_wrappingAbs]
  | neg =>
    obtain ⟨x, rfl⟩ := List.length_eq_one_iff.mp harity
    obtain ⟨y, hy, hmeaning⟩ := evalUnary_int .minus x
    refine ⟨.ok y, by simp [Function.apply, hy, Except.map], ?_⟩
    simp [Function.meaning, Except.map, hmeaning, UnaryOp.meaning]
  | sgn =>
    obtain ⟨x, rfl⟩ := List.length_eq_one_iff.mp harity
    refine ⟨.ok (signum x), by simp [Function.apply, Value.asI64, Except.map], ?_⟩
    simp [Function.meaning, Except.map, toInt_signum]
  | binary op =>
    obtain ⟨x, y, rfl⟩ := List.length_eq_two.mp harity
    cases hinteger
    exact @evalBinary_int .mod (by simp) (by simp) (by simp) x y
  | extreme wantMin =>
    obtain ⟨x, y, rfl⟩ := List.length_eq_two.mp harity
    obtain ⟨z, hz, hmeaning⟩ := pick_int x y wantMin
    refine ⟨.ok z, by simp [Function.apply, hz, Except.map], ?_⟩
    cases wantMin <;> simp [Function.meaning, Except.map, hmeaning]

variable {name : Text} {op : BinaryOp} {left arg : AstNode} {e : EvalError} {a : Int}
  {args rest : List AstNode} {values : List Int}

section

variable {σ : Type} {vars : Text → Eval σ Value} {next : Text → σ → σ} {env : Text → Int64}

/-- The computation gives `r` and has read what was asked for, in order. -/
def Yields {α : Type} (x : Eval σ α) (r : Except EvalError α) (asked : List Text)
    (next : Text → σ → σ) : Prop :=
  ∀ s, x.run.run s = (r, asked.foldl (fun s name => next name s) s)

theorem Yields.pure {α : Type} (a : α) : Yields (Pure.pure a : Eval σ α) (.ok a) [] next :=
  fun _ => rfl

theorem Yields.lift {α : Type} (r : Except EvalError α) :
    Yields (liftExcept r : Eval σ α) r [] next := by
  intro s
  cases r <;> rfl

theorem Yields.bind {α β : Type} {x : Eval σ α} {f : α → Eval σ β} {r : Except EvalError α}
    {w : Except EvalError β} {p q : List Text} (hx : Yields x r p next)
    (hok : ∀ a, r = .ok a → Yields (f a) w q next)
    (herror : ∀ e, r = .error e → w = .error e ∧ q = []) :
    Yields (x >>= f) w (p ++ q) next := by
  intro s
  simp only [ExceptT.run_bind, StateT.run_bind]
  rw [hx s, List.foldl_append]
  cases hr : r with
  | ok a => exact hok a hr _
  | error e =>
    obtain ⟨rfl, rfl⟩ := herror e hr
    rfl

theorem Yields.map_truth {x : Eval σ Value} {r : Except EvalError Int64} {asked : List Text}
    (hx : Yields x (r.map .int) asked next) :
    Yields (do let rhs ← x; Pure.pure (Value.fromBool rhs.isTruthy))
      ((r.map fun y => if y ≠ 0 then 1 else 0).map .int) asked next := by
  have hbind := hx.bind (q := []) (f := fun rhs => Pure.pure (Value.fromBool rhs.isTruthy))
    (w := (r.map fun y => if y ≠ 0 then 1 else 0).map .int) ?_ ?_
  · simpa using hbind
  · intro v hv
    cases r with
    | error e => cases hv
    | ok y =>
      cases hv
      have htruth : Value.fromBool (Value.int y).isTruthy = .int (if y ≠ 0 then 1 else 0) := by
        by_cases hy : y = 0 <;> simp [Value.fromBool, Value.isTruthy, hy]
      rw [htruth]
      exact Yields.pure _
  · intro e he
    cases r with
    | error e' => exact ⟨he, rfl⟩
    | ok y => cases he

/-- Evaluation gives the meaning, and has read the variables asked for. -/
def Computes (evaluated : Eval σ Value) (meant : Except EvalError Int) (asked : List Text)
    (next : Text → σ → σ) : Prop :=
  ∃ r : Except EvalError Int64, meant = r.map Int64.toInt ∧
    Yields evaluated (r.map .int) asked next

def ComputesAll (evaluated : Eval σ (List Value)) (meant : Except EvalError (List Int))
    (asked : List Text) (next : Text → σ → σ) : Prop :=
  ∃ r : Except EvalError (List Int64), meant = r.map (·.map Int64.toInt) ∧
    Yields evaluated (r.map (·.map .int)) asked next

theorem resolveName_yields {value : Value}
    (h : ∀ s, (vars name).run.run s = (.ok value, next name s)) :
    Yields (resolveName vars name) (.ok value) [name] next := by
  intro s
  simp only [resolveName, ExceptT.run_mk, StateT.run_bind]
  rw [h s]
  rfl

theorem evaluate_binary (hand : op ≠ .and) (hor : op ≠ .or) (mode : EvalMode)
    (left right : AstNode) : evaluate vars mode (.binary op left right) = (do
      let lhs ← evaluate vars mode left
      let rhs ← evaluate vars mode right
      liftExcept (evalBinary op lhs rhs mode)) := by
  cases op <;> first | rfl | contradiction

variable (right : AstNode)

theorem meaning_binary_error {env : Text → Int} (h : meaning env left = .error e) :
    meaning env (.binary op left right) = .error e := by
  simp only [meaning, h]
  rfl

theorem meaning_binary_ok {env : Text → Int} (h : meaning env left = .ok a) :
    meaning env (.binary op left right) =
      if op.needsRight a then meaning env right >>= op.meaning a else .ok op.skipped := by
  simp only [meaning, h]
  rfl

theorem asked_binary_ok {env : Text → Int} (h : meaning env left = .ok a) :
    asked env (.binary op left right) =
      asked env left ++ if op.needsRight a then asked env right else [] := by
  simp only [asked, h]

theorem asked_binary_error {env : Text → Int} (h : meaning env left = .error e) :
    asked env (.binary op left right) = asked env left := by
  simp only [asked, h, List.append_nil]

theorem computes_binary {right : AstNode} (hpow : op ≠ .pow)
    (hleft : Computes (evaluate vars .integer left) (meaning (fun name => (env name).toInt) left)
      (asked (fun name => (env name).toInt) left) next)
    (hright : Computes (evaluate vars .integer right) (meaning (fun name => (env name).toInt) right)
      (asked (fun name => (env name).toInt) right) next) :
    Computes (evaluate vars .integer (.binary op left right))
      (meaning (fun name => (env name).toInt) (.binary op left right))
      (asked (fun name => (env name).toInt) (.binary op left right)) next := by
  obtain ⟨r, hmeant, hyields⟩ := hleft
  obtain ⟨r', hmeant', hyields'⟩ := hright
  cases r with
  | error e =>
    refine ⟨.error e, meaning_binary_error right hmeant, ?_⟩
    rw [asked_binary_error right hmeant]
    have hfail : ∀ f : Value → Eval σ Value,
        Yields (evaluate vars .integer left >>= f) (.error e)
          (asked (fun name => (env name).toInt) left) next := by
      intro f
      have hbind := hyields.bind (f := f) (w := .error e) (q := [])
        (fun a ha => by simp [Except.map] at ha) (fun e' he => by simp_all [Except.map])
      simpa using hbind
    cases op <;> exact hfail _
  | ok x =>
    rw [Computes, meaning_binary_ok right hmeant, asked_binary_ok right hmeant]
    by_cases hand : op = .and
    · subst hand
      by_cases hx : x.toInt ≠ 0
      · have htrue := (isTruthy_int x).mpr hx
        refine ⟨r'.map fun y => if y ≠ 0 then 1 else 0, ?_, ?_⟩
        · rw [if_pos (show BinaryOp.needsRight .and x.toInt from hx), hmeant']
          cases r' with
          | error e => rfl
          | ok y =>
            simp only [Except.map, bind, Except.bind, BinaryOp.meaning, toInt_ite_one_zero]
            simp [truth, hx, int_ne_zero_iff]
        · rw [if_pos (show BinaryOp.needsRight .and x.toInt from hx)]
          refine hyields.bind (fun v hv => ?_) nofun
          cases hv
          simp only [htrue, Bool.not_true, Bool.false_eq_true, if_false]
          exact hyields'.map_truth
      · have hfalse : (Value.int x).isTruthy = false :=
          Bool.eq_false_iff.mpr fun h => hx ((isTruthy_int x).mp h)
        refine ⟨.ok 0, ?_, ?_⟩
        · rw [if_neg (show ¬BinaryOp.needsRight .and x.toInt from hx)]
          rfl
        · rw [if_neg (show ¬BinaryOp.needsRight .and x.toInt from hx)]
          refine hyields.bind (fun v hv => ?_) nofun
          cases hv
          simp only [hfalse, Bool.not_false, if_true]
          exact Yields.pure _
    · by_cases hor : op = .or
      · subst hor
        by_cases hx : x.toInt = 0
        · have hfalse : (Value.int x).isTruthy = false :=
            Bool.eq_false_iff.mpr fun h => (isTruthy_int x).mp h hx
          refine ⟨r'.map fun y => if y ≠ 0 then 1 else 0, ?_, ?_⟩
          · rw [if_pos (show BinaryOp.needsRight .or x.toInt from hx), hmeant']
            cases r' with
            | error e => rfl
            | ok y =>
              simp only [Except.map, bind, Except.bind, BinaryOp.meaning, toInt_ite_one_zero]
              simp [truth, hx, int_ne_zero_iff]
          · rw [if_pos (show BinaryOp.needsRight .or x.toInt from hx)]
            refine hyields.bind (fun v hv => ?_) nofun
            cases hv
            simp only [hfalse, Bool.false_eq_true, if_false]
            exact hyields'.map_truth
        · have htrue := (isTruthy_int x).mpr hx
          refine ⟨.ok 1, ?_, ?_⟩
          · rw [if_neg (show ¬BinaryOp.needsRight .or x.toInt from hx)]
            rfl
          · rw [if_neg (show ¬BinaryOp.needsRight .or x.toInt from hx)]
            refine hyields.bind (fun v hv => ?_) nofun
            cases hv
            simp only [htrue, if_true]
            exact Yields.pure _
      · have hneeds : op.needsRight x.toInt := by
          cases op <;> trivial
        rw [if_pos hneeds, if_pos hneeds, evaluate_binary hand hor, hmeant']
        cases r' with
        | error e =>
          refine ⟨.error e, rfl, ?_⟩
          refine hyields.bind (fun v _ => ?_) nofun
          have hbind := hyields'.bind (f := fun rhs => liftExcept (evalBinary op v rhs .integer))
            (w := .error e) (q := []) nofun fun e' he => ⟨he ▸ rfl, rfl⟩
          rw [List.append_nil] at hbind
          exact hbind
        | ok y =>
          obtain ⟨result, heval, hmeaning⟩ := evalBinary_int hpow hand hor x y
          refine ⟨result, hmeaning, ?_⟩
          refine hyields.bind (fun v hv => ?_) nofun
          cases hv
          have hbind := hyields'.bind (w := result.map .int) (q := [])
            (f := fun rhs => liftExcept (evalBinary op (.int x) rhs .integer))
            (fun v hv => by cases hv; rw [heval]; exact Yields.lift _) nofun
          simpa using hbind

theorem computes_unary (op : UnaryOp) {expr : AstNode}
    (h : Computes (evaluate vars .integer expr) (meaning (fun name => (env name).toInt) expr)
      (asked (fun name => (env name).toInt) expr) next) :
    Computes (evaluate vars .integer (.unary op expr))
      (meaning (fun name => (env name).toInt) (.unary op expr))
      (asked (fun name => (env name).toInt) (.unary op expr)) next := by
  obtain ⟨r, hmeant, hyields⟩ := h
  cases r with
  | error e =>
    refine ⟨.error e, by simp only [meaning, hmeant]; rfl, ?_⟩
    have hbind := hyields.bind (q := []) (w := .error e)
      (f := fun inner => Pure.pure (evalUnary op inner .integer)) nofun
      fun e' he => ⟨he ▸ rfl, rfl⟩
    rw [List.append_nil] at hbind
    exact hbind
  | ok x =>
    obtain ⟨y, heval, hmeaning⟩ := evalUnary_int op x
    refine ⟨.ok y, by simp only [meaning, hmeant, Except.map, hmeaning]; rfl, ?_⟩
    have hbind := hyields.bind (q := []) (w := .ok (.int y))
      (f := fun inner => Pure.pure (evalUnary op inner .integer))
      (fun v hv => by cases hv; rw [heval]; exact Yields.pure _) nofun
    rw [List.append_nil] at hbind
    exact hbind

theorem computes_ternary {cond thenExpr elseExpr : AstNode}
    (hcond : Computes (evaluate vars .integer cond) (meaning (fun name => (env name).toInt) cond)
      (asked (fun name => (env name).toInt) cond) next)
    (hthen : Computes (evaluate vars .integer thenExpr)
      (meaning (fun name => (env name).toInt) thenExpr)
      (asked (fun name => (env name).toInt) thenExpr) next)
    (helse : Computes (evaluate vars .integer elseExpr)
      (meaning (fun name => (env name).toInt) elseExpr)
      (asked (fun name => (env name).toInt) elseExpr) next) :
    Computes (evaluate vars .integer (.ternary cond thenExpr elseExpr))
      (meaning (fun name => (env name).toInt) (.ternary cond thenExpr elseExpr))
      (asked (fun name => (env name).toInt) (.ternary cond thenExpr elseExpr)) next := by
  obtain ⟨r, hmeant, hyields⟩ := hcond
  cases r with
  | error e =>
    refine ⟨.error e, by simp only [meaning, hmeant]; rfl, ?_⟩
    have hasked : asked (fun name => (env name).toInt) (.ternary cond thenExpr elseExpr) =
        asked (fun name => (env name).toInt) cond ++ [] := by
      simp only [asked, hmeant, Except.map]
    rw [hasked]
    exact hyields.bind nofun fun e' he => ⟨he ▸ rfl, rfl⟩
  | ok x =>
    have hasked : asked (fun name => (env name).toInt) (.ternary cond thenExpr elseExpr) =
        asked (fun name => (env name).toInt) cond ++
          if x.toInt ≠ 0 then asked (fun name => (env name).toInt) thenExpr
          else asked (fun name => (env name).toInt) elseExpr := by
      simp only [asked, hmeant, Except.map]
    have hmeaning : meaning (fun name => (env name).toInt) (.ternary cond thenExpr elseExpr) =
        if x.toInt ≠ 0 then meaning (fun name => (env name).toInt) thenExpr
        else meaning (fun name => (env name).toInt) elseExpr := by
      simp only [meaning, hmeant]
      rfl
    rw [Computes, hmeaning, hasked]
    by_cases hx : x.toInt ≠ 0
    · obtain ⟨r', hmeant', hyields'⟩ := hthen
      refine ⟨r', by rw [if_pos hx, hmeant'], ?_⟩
      rw [if_pos hx]
      refine hyields.bind (fun v hv => ?_) nofun
      cases hv
      simp only [(isTruthy_int x).mpr hx, if_true]
      exact hyields'
    · obtain ⟨r', hmeant', hyields'⟩ := helse
      refine ⟨r', by rw [if_neg hx, hmeant'], ?_⟩
      rw [if_neg hx]
      refine hyields.bind (fun v hv => ?_) nofun
      cases hv
      have hfalse : (Value.int x).isTruthy = false :=
        Bool.eq_false_iff.mpr fun h => hx ((isTruthy_int x).mp h)
      simp only [hfalse, Bool.false_eq_true, if_false]
      exact hyields'

theorem length_of_meanings {env : Text → Int}
    (h : meanings env args = .ok values) : values.length = args.length := by
  induction args generalizing values with
  | nil =>
    cases h
    rfl
  | cons arg rest ih =>
    simp only [meanings] at h
    cases hvalue : meaning env arg with
    | error e => simp [hvalue, bind, Except.bind] at h
    | ok value =>
      cases hvalues : meanings env rest with
      | error e => simp [hvalue, hvalues, bind, Except.bind] at h
      | ok others =>
        simp only [hvalue, hvalues, bind, Except.bind, pure, Except.pure, Except.ok.injEq] at h
        rw [← h, List.length_cons, List.length_cons, ih hvalues]

theorem computes_fnCall
    (hinteger : ∀ function, Function.named name = some function → function.IsInteger)
    (h : ComputesAll (evaluateAll vars .integer args) (meanings (fun name => (env name).toInt) args)
      (askedAll (fun name => (env name).toInt) args) next) :
    Computes (evaluate vars .integer (.fnCall name args))
      (meaning (fun name => (env name).toInt) (.fnCall name args))
      (asked (fun name => (env name).toInt) (.fnCall name args)) next := by
  obtain ⟨r, hmeant, hyields⟩ := h
  cases r with
  | error e =>
    refine ⟨.error e, by simp only [meaning, hmeant]; rfl, ?_⟩
    have hbind := hyields.bind (q := []) (w := .error e)
      (f := fun values => liftExcept (evalFunction name values .integer))
      (fun v hv => by cases hv) fun e' he => by cases he; exact ⟨rfl, rfl⟩
    rw [List.append_nil] at hbind
    exact hbind
  | ok xs =>
    have hlength : xs.length = args.length := by
      have hlength := length_of_meanings hmeant
      rwa [List.length_map] at hlength
    have hcall : ∃ result : Except EvalError Int64,
        evalFunction name (xs.map .int) .integer = result.map .int ∧
          meaning (fun name => (env name).toInt) (.fnCall name args) =
            result.map Int64.toInt := by
      simp only [evalFunction, meaning, hmeant]
      cases hnamed : Function.named name with
      | none => exact ⟨.error (.unknownFunction name), rfl, rfl⟩
      | some function =>
        simp only [List.length_map, hlength]
        by_cases harity : args.length = function.arity
        · obtain ⟨result, happly, hmeaning⟩ :=
            apply_int (hinteger function hnamed) xs (hlength.trans harity)
          refine ⟨result, by rw [if_neg (not_not.mpr harity), happly], ?_⟩
          simp only [Except.map, bind, Except.bind, if_neg (not_not.mpr harity), hmeaning]
        · refine ⟨.error (.arityMismatch name function.arity args.length), ?_, ?_⟩
          · rw [if_pos harity]
            rfl
          · simp only [Except.map, bind, Except.bind, if_pos harity]
    obtain ⟨result, heval, hmeaning⟩ := hcall
    refine ⟨result, hmeaning, ?_⟩
    have hbind := hyields.bind (q := []) (w := result.map .int)
      (f := fun values => liftExcept (evalFunction name values .integer))
      (fun v hv => by cases hv; rw [heval]; exact Yields.lift _) fun e he => by cases he
    rw [List.append_nil] at hbind
    exact hbind

theorem computesAll_cons
    (harg : Computes (evaluate vars .integer arg) (meaning (fun name => (env name).toInt) arg)
      (asked (fun name => (env name).toInt) arg) next)
    (hrest : ComputesAll (evaluateAll vars .integer rest)
      (meanings (fun name => (env name).toInt) rest)
      (askedAll (fun name => (env name).toInt) rest) next) :
    ComputesAll (evaluateAll vars .integer (arg :: rest))
      (meanings (fun name => (env name).toInt) (arg :: rest))
      (askedAll (fun name => (env name).toInt) (arg :: rest)) next := by
  obtain ⟨r, hmeant, hyields⟩ := harg
  obtain ⟨r', hmeant', hyields'⟩ := hrest
  simp only [ComputesAll, meanings, askedAll, evaluateAll, hmeant, hmeant']
  cases r with
  | error e =>
    exact ⟨.error e, rfl, hyields.bind nofun fun e' he => by cases he; exact ⟨rfl, rfl⟩⟩
  | ok x =>
    cases r' with
    | error e =>
      refine ⟨.error e, rfl, hyields.bind (fun v _ => ?_) nofun⟩
      have hbind := hyields'.bind (q := []) (w := .error e)
        (f := fun values => Pure.pure (v :: values)) nofun
        fun e' he => by cases he; exact ⟨rfl, rfl⟩
      rw [List.append_nil] at hbind
      exact hbind
    | ok xs =>
      refine ⟨.ok (x :: xs), rfl, hyields.bind (fun v hv => ?_) nofun⟩
      cases hv
      have hbind := hyields'.bind (q := []) (w := .ok ((x :: xs).map .int))
        (f := fun values => Pure.pure (Value.int x :: values))
        (fun v hv => by cases hv; exact Yields.pure _) nofun
      rw [List.append_nil] at hbind
      exact hbind

mutual

theorem evaluate_computes (ast : AstNode) (hinteger : ast.IntegerOnly)
    (hvars : ∀ name ∈ ast.variables, ∀ s,
      (vars name).run.run s = (.ok (.int (env name)), next name s)) :
    Computes (evaluate vars .integer ast) (meaning (fun name => (env name).toInt) ast)
      (asked (fun name => (env name).toInt) ast) next := by
  match ast with
  | .literal (.int x) => exact ⟨.ok x, rfl, Yields.pure _⟩
  | .literal (.float x) => exact absurd hinteger (by simp [AstNode.IntegerOnly, Value.isInt])
  | .variable name =>
    exact ⟨.ok (env name), rfl, resolveName_yields (hvars name (by simp [AstNode.variables]))⟩
  | .unary op expr => exact computes_unary op (evaluate_computes expr hinteger hvars)
  | .binary op left right =>
    obtain ⟨hpow, hleft, hright⟩ := hinteger
    simp only [AstNode.variables, List.mem_append] at hvars
    exact computes_binary hpow (evaluate_computes left hleft fun name h => hvars name (.inl h))
      (evaluate_computes right hright fun name h => hvars name (.inr h))
  | .ternary cond thenExpr elseExpr =>
    obtain ⟨hcond, hthen, helse⟩ := hinteger
    simp only [AstNode.variables, List.mem_append] at hvars
    exact computes_ternary
      (evaluate_computes cond hcond fun name h => hvars name (.inl (.inl h)))
      (evaluate_computes thenExpr hthen fun name h => hvars name (.inl (.inr h)))
      (evaluate_computes elseExpr helse fun name h => hvars name (.inr h))
  | .fnCall name args =>
    exact computes_fnCall hinteger.1 (evaluateAll_computes args hinteger.2 hvars)

theorem evaluateAll_computes (args : List AstNode) (hinteger : AstNode.AllIntegerOnly args)
    (hvars : ∀ name ∈ AstNode.allVariables args, ∀ s,
      (vars name).run.run s = (.ok (.int (env name)), next name s)) :
    ComputesAll (evaluateAll vars .integer args) (meanings (fun name => (env name).toInt) args)
      (askedAll (fun name => (env name).toInt) args) next := by
  match args with
  | [] => exact ⟨.ok [], rfl, Yields.pure _⟩
  | arg :: rest =>
    simp only [AstNode.allVariables, List.mem_append] at hvars
    exact computesAll_cons (evaluate_computes arg hinteger.1 fun name h => hvars name (.inl h))
      (evaluateAll_computes rest hinteger.2 fun name h => hvars name (.inr h))

end

end

/-! ## What is evaluated, and what fails -/

section

variable {env : Text → Int} {sub : AstNode}

theorem evaluated_unary {op : UnaryOp} {expr : AstNode} :
    Evaluated env (.unary op expr) sub ↔ sub = .unary op expr ∨ Evaluated env expr sub := by
  constructor
  · intro h
    cases h with
    | self => exact .inl rfl
    | unary _ h => exact .inr h
  · rintro (rfl | h)
    · exact .self _
    · exact .unary op h

theorem evaluated_binary {right : AstNode} :
    Evaluated env (.binary op left right) sub ↔
      sub = .binary op left right ∨ Evaluated env left sub ∨
        ∃ a, meaning env left = .ok a ∧ op.needsRight a ∧ Evaluated env right sub := by
  constructor
  · intro h
    cases h with
    | self => exact .inl rfl
    | left _ _ h => exact .inr (.inl h)
    | right hleft hneeds h => exact .inr (.inr ⟨_, hleft, hneeds, h⟩)
  · rintro (rfl | h | ⟨a, hleft, hneeds, h⟩)
    · exact .self _
    · exact .left op right h
    · exact .right hleft hneeds h

theorem evaluated_ternary {cond thenExpr elseExpr : AstNode} :
    Evaluated env (.ternary cond thenExpr elseExpr) sub ↔
      sub = .ternary cond thenExpr elseExpr ∨ Evaluated env cond sub ∨
        ∃ a, meaning env cond = .ok a ∧
          Evaluated env (if a ≠ 0 then thenExpr else elseExpr) sub := by
  constructor
  · intro h
    cases h with
    | self => exact .inl rfl
    | cond _ _ h => exact .inr (.inl h)
    | thenExpr _ hcond hne h => exact .inr (.inr ⟨_, hcond, by rwa [if_pos hne]⟩)
    | elseExpr _ hcond h => exact .inr (.inr ⟨0, hcond, h⟩)
  · rintro (rfl | h | ⟨a, hcond, h⟩)
    · exact .self _
    · exact .cond _ _ h
    · by_cases hne : a ≠ 0
      · rw [if_pos hne] at h
        exact .thenExpr _ hcond hne h
      · rw [if_neg hne] at h
        rw [not_not.mp hne] at hcond
        exact .elseExpr _ hcond h

theorem evaluated_fnCall :
    Evaluated env (.fnCall name args) sub ↔
      sub = .fnCall name args ∨ ∃ arg, Reached env args arg ∧ Evaluated env arg sub := by
  constructor
  · intro h
    cases h with
    | self => exact .inl rfl
    | arg _ hreached h => exact .inr ⟨_, hreached, h⟩
  · rintro (rfl | ⟨arg, hreached, h⟩)
    · exact .self _
    · exact .arg name hreached h

theorem reached_cons {first : AstNode} :
    Reached env (first :: rest) arg ↔
      arg = first ∨ ∃ a, meaning env first = .ok a ∧ Reached env rest arg := by
  constructor
  · intro h
    cases h with
    | head => exact .inl rfl
    | tail hfirst h => exact .inr ⟨_, hfirst, h⟩
  · rintro (rfl | ⟨a, hfirst, h⟩)
    · exact .head _ _
    · exact .tail hfirst h

mutual

theorem mem_asked (ast : AstNode) (name : Text) :
    name ∈ asked env ast ↔ Evaluated env ast (.variable name) := by
  match ast with
  | .literal value =>
    simp only [asked, List.not_mem_nil, false_iff]
    intro h
    cases h
  | .variable other =>
    simp only [asked, List.mem_singleton]
    constructor
    · rintro rfl
      exact .self _
    · intro h
      cases h
      rfl
  | .unary op expr =>
    rw [asked, mem_asked expr name, evaluated_unary]
    simp
  | .binary op left right =>
    rw [evaluated_binary, ← mem_asked left name, ← mem_asked right name]
    cases hleft : meaning env left with
    | error e => simp [asked, hleft]
    | ok a => by_cases hneeds : op.needsRight a <;> simp [asked, hleft, hneeds]
  | .ternary cond thenExpr elseExpr =>
    rw [evaluated_ternary, ← mem_asked cond name]
    cases hcond : meaning env cond with
    | error e => simp [asked, hcond]
    | ok a =>
      by_cases hne : a ≠ 0
      · simp [asked, hcond, hne, ← mem_asked thenExpr name]
      · rw [not_not] at hne
        simp [asked, hcond, hne, ← mem_asked elseExpr name]
  | .fnCall _ args =>
    rw [asked, mem_askedAll args name, evaluated_fnCall]
    simp

theorem mem_askedAll (args : List AstNode) (name : Text) :
    name ∈ askedAll env args ↔
      ∃ arg, Reached env args arg ∧ Evaluated env arg (.variable name) := by
  match args with
  | [] =>
    simp only [askedAll, List.not_mem_nil, false_iff]
    rintro ⟨arg, hreached, -⟩
    cases hreached
  | arg :: rest =>
    have hfirst := mem_asked arg name
    have hrest := mem_askedAll rest name
    cases hmeant : meaning env arg with
    | error e => simp [askedAll, reached_cons, hmeant, hfirst]
    | ok a => simp [askedAll, reached_cons, hmeant, hfirst, hrest, or_and_right, exists_or]

end

theorem meaning_divisionByZero (op : BinaryOp) (a b : Int) :
    op.meaning a b = .error .divisionByZero ↔ (op = .div ∨ op = .mod) ∧ b = 0 := by
  cases op <;> simp [BinaryOp.meaning]

theorem function_meaning {function : Function} (hinteger : function.IsInteger)
    (harity : values.length = function.arity) :
    (∃ a, function.meaning values = .ok a) ∨
      function = .binary .mod ∧ (∃ a, values = [a, 0]) ∧
        function.meaning values = .error .divisionByZero := by
  cases function with
  | float f => exact absurd hinteger id
  | constant value => exact absurd hinteger id
  | atan2 => exact absurd hinteger id
  | rounding f =>
    obtain ⟨a, rfl⟩ := List.length_eq_one_iff.mp harity
    exact .inl ⟨_, rfl⟩
  | abs =>
    obtain ⟨a, rfl⟩ := List.length_eq_one_iff.mp harity
    exact .inl ⟨_, rfl⟩
  | neg =>
    obtain ⟨a, rfl⟩ := List.length_eq_one_iff.mp harity
    exact .inl ⟨_, rfl⟩
  | sgn =>
    obtain ⟨a, rfl⟩ := List.length_eq_one_iff.mp harity
    exact .inl ⟨_, rfl⟩
  | binary op =>
    obtain ⟨a, b, rfl⟩ := List.length_eq_two.mp harity
    cases hinteger
    by_cases hb : b = 0
    · subst hb
      exact .inr ⟨rfl, ⟨a, rfl⟩, by simp [Function.meaning, BinaryOp.meaning]⟩
    · exact .inl ⟨a.tmod b, by simp [Function.meaning, BinaryOp.meaning, hb]⟩
  | extreme wantMin =>
    obtain ⟨a, b, rfl⟩ := List.length_eq_two.mp harity
    cases wantMin <;> exact .inl ⟨_, rfl⟩

theorem meaning_fnCall_error
    (h : meanings env args = .error e) : meaning env (.fnCall name args) = .error e := by
  simp only [meaning, h]
  rfl

theorem meaning_fnCall_ok
    (h : meanings env args = .ok values) : meaning env (.fnCall name args) =
      match Function.named name with
      | none => .error (.unknownFunction name)
      | some function =>
        if args.length ≠ function.arity then
          .error (.arityMismatch name function.arity args.length)
        else function.meaning values := by
  simp only [meaning, h]
  rfl

theorem meanings_cons_ok :
    meanings env (arg :: rest) = .ok values ↔
      ∃ a others, meaning env arg = .ok a ∧ meanings env rest = .ok others ∧
        values = a :: others := by
  simp only [meanings]
  cases meaning env arg with
  | error e => simp [bind, Except.bind]
  | ok a =>
    cases meanings env rest with
    | error e => simp [bind, Except.bind]
    | ok others => simp [bind, Except.bind, pure, Except.pure, eq_comm]

theorem meanings_cons_error :
    meanings env (arg :: rest) = .error e ↔
      meaning env arg = .error e ∨ ∃ a, meaning env arg = .ok a ∧ meanings env rest = .error e := by
  simp only [meanings]
  cases meaning env arg with
  | error e => simp [bind, Except.bind]
  | ok a =>
    cases meanings env rest with
    | error e => simp [bind, Except.bind]
    | ok others => simp [bind, Except.bind, pure, Except.pure]

theorem dividesByZero_fnCall
    (hinteger : ∀ function, Function.named name = some function → function.IsInteger)
    (h : meanings env args = .ok values) :
    meaning env (.fnCall name args) = .error .divisionByZero ↔
      DividesByZero env (.fnCall name args) := by
  rw [meaning_fnCall_ok h]
  constructor
  · intro hfails
    cases hnamed : Function.named name with
    | none => simp [hnamed] at hfails
    | some function =>
      simp only [hnamed] at hfails
      by_cases harity : args.length = function.arity
      · rw [if_neg (not_not.mpr harity)] at hfails
        have hlength : values.length = function.arity := (length_of_meanings h).trans harity
        rcases function_meaning (hinteger function hnamed) hlength with
          ⟨a, hok⟩ | ⟨rfl, ⟨a, rfl⟩, -⟩
        · rw [hok] at hfails
          cases hfails
        · obtain ⟨left, right, rfl⟩ := List.length_eq_two.mp harity
          obtain ⟨a', others, hleft, hothers, heq⟩ := meanings_cons_ok.mp h
          obtain ⟨b, others', hright, -, heq'⟩ := meanings_cons_ok.mp hothers
          subst heq'
          cases heq
          exact .function hnamed hleft hright
      · rw [if_pos harity] at hfails
        cases hfails
  · intro hdivides
    cases hdivides with
    | function hnamed hleft hright =>
      obtain ⟨a', others, hleft', hothers, rfl⟩ := meanings_cons_ok.mp h
      obtain ⟨b, others', hright', hrest, rfl⟩ := meanings_cons_ok.mp hothers
      cases hrest
      rw [hright] at hright'
      cases hright'
      simp [hnamed, Function.arity, Function.meaning, BinaryOp.meaning]

mutual

theorem divides_iff (ast : AstNode) (hinteger : ast.IntegerOnly) :
    meaning env ast = .error .divisionByZero ↔
      ∃ sub, Evaluated env ast sub ∧ DividesByZero env sub := by
  match ast with
  | .literal value =>
    refine ⟨nofun, ?_⟩
    rintro ⟨sub, h, hsub⟩
    cases h
    cases hsub
  | .variable name =>
    refine ⟨nofun, ?_⟩
    rintro ⟨sub, h, hsub⟩
    cases h
    cases hsub
  | .unary op expr =>
    have hself : ¬DividesByZero env (.unary op expr) := nofun
    have hexpr := divides_iff expr hinteger
    have hmeaning : meaning env (.unary op expr) = .error .divisionByZero ↔
        meaning env expr = .error .divisionByZero := by
      simp only [meaning]
      cases meaning env expr <;> simp [bind, Except.bind, pure, Except.pure]
    simp [hmeaning, hexpr, evaluated_unary, or_and_right, exists_or, hself]
  | .binary op left right =>
    have hleft := divides_iff left hinteger.2.1
    have hright := divides_iff right hinteger.2.2
    have hself : DividesByZero env (.binary op left right) ↔
        (op = .div ∨ op = .mod) ∧ (∃ a, meaning env left = .ok a) ∧
          meaning env right = .ok 0 := by
      constructor
      · intro h
        cases h with
        | operator hop hl hr => exact ⟨hop, ⟨_, hl⟩, hr⟩
      · rintro ⟨hop, ⟨a, hl⟩, hr⟩
        exact .operator hop hl hr
    have hsplit : (∃ sub, Evaluated env (.binary op left right) sub ∧ DividesByZero env sub) ↔
        DividesByZero env (.binary op left right) ∨
          meaning env left = .error .divisionByZero ∨
            ∃ a, meaning env left = .ok a ∧ op.needsRight a ∧
              meaning env right = .error .divisionByZero := by
      rw [hleft, hright]
      constructor
      · rintro ⟨sub, hsub, hdiv⟩
        rcases evaluated_binary.mp hsub with rfl | h | ⟨a, ha, hneeds, h⟩
        · exact .inl hdiv
        · exact .inr (.inl ⟨sub, h, hdiv⟩)
        · exact .inr (.inr ⟨a, ha, hneeds, sub, h, hdiv⟩)
      · rintro (hdiv | ⟨sub, h, hdiv⟩ | ⟨a, ha, hneeds, sub, h, hdiv⟩)
        · exact ⟨_, .self _, hdiv⟩
        · exact ⟨sub, .left op right h, hdiv⟩
        · exact ⟨sub, .right ha hneeds h, hdiv⟩
    rw [hsplit, hself]
    cases hl : meaning env left with
    | error e => simp [meaning_binary_error right hl]
    | ok a =>
      rw [meaning_binary_ok right hl]
      by_cases hneeds : op.needsRight a
      · rw [if_pos hneeds]
        cases hr : meaning env right with
        | error e => simp [bind, Except.bind, hneeds]
        | ok b => simp [bind, Except.bind, meaning_divisionByZero]
      · rw [if_neg hneeds]
        have hop : ¬(op = .div ∨ op = .mod) := by
          rintro (rfl | rfl) <;> exact hneeds trivial
        simp [hneeds, hop]
  | .ternary cond thenExpr elseExpr =>
    have hself : ¬DividesByZero env (.ternary cond thenExpr elseExpr) := nofun
    have hcond := divides_iff cond hinteger.1
    have hthen := divides_iff thenExpr hinteger.2.1
    have helse := divides_iff elseExpr hinteger.2.2
    have hsplit : (∃ sub, Evaluated env (.ternary cond thenExpr elseExpr) sub ∧
        DividesByZero env sub) ↔ meaning env cond = .error .divisionByZero ∨
          ∃ a, meaning env cond = .ok a ∧
            meaning env (if a ≠ 0 then thenExpr else elseExpr) = .error .divisionByZero := by
      have hbranch : ∀ a : Int, meaning env (if a ≠ 0 then thenExpr else elseExpr) =
          .error .divisionByZero ↔ ∃ sub, Evaluated env (if a ≠ 0 then thenExpr else elseExpr) sub ∧
            DividesByZero env sub := by
        intro a
        by_cases hne : a ≠ 0
        · rw [if_pos hne]
          exact hthen
        · rw [if_neg hne]
          exact helse
      simp only [hbranch, hcond]
      constructor
      · rintro ⟨sub, hsub, hdiv⟩
        rcases evaluated_ternary.mp hsub with rfl | h | ⟨a, ha, h⟩
        · exact absurd hdiv hself
        · exact .inl ⟨sub, h, hdiv⟩
        · exact .inr ⟨a, ha, sub, h, hdiv⟩
      · rintro (⟨sub, h, hdiv⟩ | ⟨a, ha, sub, h, hdiv⟩)
        · exact ⟨sub, .cond _ _ h, hdiv⟩
        · exact ⟨sub, evaluated_ternary.mpr (.inr (.inr ⟨a, ha, h⟩)), hdiv⟩
    rw [hsplit]
    cases hc : meaning env cond with
    | error e => simp [meaning, hc, bind, Except.bind]
    | ok a =>
      by_cases hne : a = 0 <;> simp [meaning, hc, bind, Except.bind, hne]
  | .fnCall name args =>
    have hargs := dividesAll_iff args hinteger.2
    have hsplit : (∃ sub, Evaluated env (.fnCall name args) sub ∧ DividesByZero env sub) ↔
        DividesByZero env (.fnCall name args) ∨ meanings env args = .error .divisionByZero := by
      rw [hargs]
      constructor
      · rintro ⟨sub, hsub, hdiv⟩
        rcases evaluated_fnCall.mp hsub with rfl | ⟨arg, hreached, h⟩
        · exact .inl hdiv
        · exact .inr ⟨arg, hreached, sub, h, hdiv⟩
      · rintro (hdiv | ⟨arg, hreached, sub, h, hdiv⟩)
        · exact ⟨_, .self _, hdiv⟩
        · exact ⟨sub, .arg name hreached h, hdiv⟩
    rw [hsplit]
    cases hvalues : meanings env args with
    | error e =>
      have hself : ¬DividesByZero env (.fnCall name args) := by
        intro h
        cases h with
        | function _ hl hr =>
          rcases meanings_cons_error.mp hvalues with he | ⟨_, _, he⟩
          · rw [hl] at he
            cases he
          · rcases meanings_cons_error.mp he with he | ⟨_, _, he⟩
            · rw [hr] at he
              cases he
            · cases he
      simp [meaning_fnCall_error hvalues, hself]
    | ok values => simp [dividesByZero_fnCall hinteger.1 hvalues]

theorem dividesAll_iff (args : List AstNode) (hinteger : AstNode.AllIntegerOnly args) :
    meanings env args = .error .divisionByZero ↔
      ∃ arg, Reached env args arg ∧ ∃ sub, Evaluated env arg sub ∧ DividesByZero env sub := by
  match args with
  | [] =>
    refine ⟨nofun, ?_⟩
    rintro ⟨arg, hreached, -⟩
    cases hreached
  | arg :: rest =>
    rw [meanings_cons_error, divides_iff arg hinteger.1, dividesAll_iff rest hinteger.2]
    constructor
    · rintro (h | ⟨a, ha, other, hreached, h⟩)
      · exact ⟨arg, .head _ _, h⟩
      · exact ⟨other, .tail ha hreached, h⟩
    · rintro ⟨other, hreached, h⟩
      rcases reached_cons.mp hreached with rfl | ⟨a, ha, hreached⟩
      · exact .inl h
      · exact .inr ⟨a, ha, other, hreached, h⟩

end

/-- An error of a formula whose calls may or may not be known. -/
def Explained (known : Prop) (e : EvalError) : Prop :=
  e = .divisionByZero ∨
    ¬known ∧ ∃ name, e = .unknownFunction name ∨
      ∃ expected got, e = .arityMismatch name expected got

theorem Explained.mono {known weaker : Prop} (h : Explained weaker e)
    (himp : known → weaker) : Explained known e :=
  h.imp_right fun ⟨hnot, hname⟩ => ⟨fun hknown => hnot (himp hknown), hname⟩

theorem binary_error (hpow : op ≠ .pow) {b : Int}
    (h : op.meaning a b = .error e) : e = .divisionByZero := by
  cases op with
  | pow => exact absurd rfl hpow
  | div =>
    simp only [BinaryOp.meaning] at h
    split at h <;> cases h
    rfl
  | mod =>
    simp only [BinaryOp.meaning] at h
    split at h <;> cases h
    rfl
  | _ => cases h

mutual

theorem error_explained (ast : AstNode) (hinteger : ast.IntegerOnly) {e : EvalError}
    (h : meaning env ast = .error e) : Explained ast.CallsKnown e := by
  match ast with
  | .literal value => cases h
  | .variable name => cases h
  | .unary op expr =>
    simp only [meaning] at h
    cases hexpr : meaning env expr with
    | error e' =>
      rw [hexpr] at h
      cases h
      exact error_explained expr hinteger hexpr
    | ok a =>
      rw [hexpr] at h
      cases h
  | .binary op left right =>
    cases hleft : meaning env left with
    | error e' =>
      rw [meaning_binary_error right hleft] at h
      cases h
      exact (error_explained left hinteger.2.1 hleft).mono fun hknown => hknown.1
    | ok a =>
      rw [meaning_binary_ok right hleft] at h
      split at h
      · cases hright : meaning env right with
        | error e' =>
          rw [hright] at h
          cases h
          exact (error_explained right hinteger.2.2 hright).mono fun hknown => hknown.2
        | ok b =>
          rw [hright] at h
          exact .inl (binary_error hinteger.1 h)
      · cases h
  | .ternary cond thenExpr elseExpr =>
    simp only [meaning] at h
    cases hcond : meaning env cond with
    | error e' =>
      rw [hcond] at h
      cases h
      exact (error_explained cond hinteger.1 hcond).mono fun hknown => hknown.1
    | ok a =>
      simp only [hcond, bind, Except.bind] at h
      split at h
      · exact (error_explained thenExpr hinteger.2.1 h).mono fun hknown => hknown.2.1
      · exact (error_explained elseExpr hinteger.2.2 h).mono fun hknown => hknown.2.2
  | .fnCall name args =>
    cases hvalues : meanings env args with
    | error e' =>
      rw [meaning_fnCall_error hvalues] at h
      cases h
      exact (errors_explained args hinteger.2 hvalues).mono fun hknown => hknown.2
    | ok values =>
      rw [meaning_fnCall_ok hvalues] at h
      cases hnamed : Function.named name with
      | none =>
        rw [hnamed] at h
        cases h
        refine .inr ⟨?_, name, .inl rfl⟩
        rintro ⟨⟨function, hfunction, -⟩, -⟩
        rw [hnamed] at hfunction
        cases hfunction
      | some function =>
        simp only [hnamed] at h
        by_cases harity : args.length = function.arity
        · rw [if_neg (not_not.mpr harity)] at h
          have hlength := (length_of_meanings hvalues).trans harity
          rcases function_meaning (hinteger.1 function hnamed) hlength with
            ⟨a, hok⟩ | ⟨-, -, hfails⟩
          · rw [hok] at h
            cases h
          · rw [hfails] at h
            cases h
            exact .inl rfl
        · rw [if_pos harity] at h
          cases h
          refine .inr ⟨?_, name, .inr ⟨_, _, rfl⟩⟩
          rintro ⟨⟨other, hother, hlength⟩, -⟩
          rw [hnamed] at hother
          cases hother
          exact harity hlength

theorem errors_explained (args : List AstNode) (hinteger : AstNode.AllIntegerOnly args)
    {e : EvalError} (h : meanings env args = .error e) :
    Explained (AstNode.AllCallsKnown args) e := by
  match args with
  | [] => cases h
  | arg :: rest =>
    rcases meanings_cons_error.mp h with h | ⟨a, -, h⟩
    · exact (error_explained arg hinteger.1 h).mono fun hknown => hknown.1
    · exact (errors_explained rest hinteger.2 h).mono fun hknown => hknown.2

end

end

end VivaGenicam.Genapi
