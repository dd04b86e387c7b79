import VivaGenicam.GenapiXml.Text

/-!
Formulas as trees, and their evaluation: two numeric types, a mode that decides
between them, and operators that skip operands.
-/

namespace VivaGenicam.Genapi

open GenapiXml

def i64Bound : Float := 9223372036854775808

/-- The cast of the source language: truncated, saturating, zero for not a number. -/
def f64ToI64 (value : Float) : Int64 :=
  if value.isNaN then 0
  else if i64Bound ≤ value then Int64.maxValue
  else if value ≤ -i64Bound then Int64.minValue
  else if value < 0 then -Int64.ofNat (-value).toUInt64.toNat
  else Int64.ofNat value.toUInt64.toNat

inductive Value where
  | int (value : Int64)
  | float (value : Float)

namespace Value

def asI64 : Value → Int64
  | .int value => value
  | .float value => f64ToI64 value

def asF64 : Value → Float
  | .int value => value.toFloat
  | .float value => value

def isInt : Value → Bool
  | .int _ => true
  | .float _ => false

def isTruthy : Value → Bool
  | .int value => value != 0
  | .float value => value != 0

def fromBool (value : Bool) : Value :=
  .int (if value then 1 else 0)

end Value

inductive EvalMode where
  | integer
  | float
deriving DecidableEq, Repr

inductive BinaryOp where
  | add
  | sub
  | mul
  | div
  | mod
  | pow
  | lt
  | le
  | gt
  | ge
  | eq
  | ne
  | and
  | or
  | bitAnd
  | bitOr
  | bitXor
  | shl
  | shr
deriving DecidableEq, Repr

inductive UnaryOp where
  | plus
  | minus
  | not
  | bitNot
deriving DecidableEq, Repr

inductive AstNode where
  | literal (value : Value)
  | «variable» (name : Text)
  | unary (op : UnaryOp) (expr : AstNode)
  | binary (op : BinaryOp) (left right : AstNode)
  | ternary (cond thenExpr elseExpr : AstNode)
  | fnCall (name : Text) (args : List AstNode)

/-- `unreachable` is the panic of an operator that reached the wrong function. -/
inductive EvalError where
  | unknownVariable (name : Text)
  | divisionByZero
  | unknownFunction (name : Text)
  | arityMismatch (name : Text) (expected got : Nat)
  | notAnInteger (value : Float)
  | cycle (name : Text)
  | noLimit (var provider : Text) (limit : String)
  | unreachable

def piF64 : Float := 3.14159265358979323846264338327950288
def eF64 : Float := 2.71828182845904523536028747135266250

def builtinConstant (name : Text) : Option Value :=
  if toAsciiLower name = lit "e" then some (.float eF64)
  else if toAsciiLower name = lit "pi" then some (.float piF64)
  else none

/-- The least `Int64` is its own negation. -/
def wrappingAbs (value : Int64) : Int64 :=
  if value < 0 then -value else value

def signum (value : Int64) : Int64 :=
  if value < 0 then -1 else if value = 0 then 0 else 1

def evalUnary (op : UnaryOp) (value : Value) (mode : EvalMode) : Value :=
  match op with
  | .plus => value
  | .minus =>
    if mode = .integer ∨ value.isInt then .int (-value.asI64) else .float (-value.asF64)
  | .not => .fromBool !value.isTruthy
  | .bitNot => .int (~~~value.asI64)

/-- Whether an arithmetic result stays integral. -/
def integral (mode : EvalMode) (lhs rhs : Value) : Bool :=
  mode = .integer || (lhs.isInt && rhs.isInt)

/-- Shift counts are masked to the register width. -/
def shiftAmount (value : Value) : Nat := (value.asI64.toBitVec &&& 63).toNat

def wrappingShl (value : Int64) (count : Nat) : Int64 :=
  .ofBitVec (value.toBitVec <<< (count % 64))

def wrappingShr (value : Int64) (count : Nat) : Int64 :=
  .ofBitVec (value.toBitVec.sshiftRight (count % 64))

def arith (mode : EvalMode) (lhs rhs : Value) (int : Int64 → Int64 → Int64)
    (float : Float → Float → Float) : Value :=
  if integral mode lhs rhs then .int (int lhs.asI64 rhs.asI64)
  else .float (float lhs.asF64 rhs.asF64)

def compare (lhs rhs : Value) (mode : EvalMode) (intCmp : Int64 → Int64 → Bool)
    (floatCmp : Float → Float → Bool) : Value :=
  if integral mode lhs rhs then .fromBool (intCmp lhs.asI64 rhs.asI64)
  else .fromBool (floatCmp lhs.asF64 rhs.asF64)

def evalBinary (op : BinaryOp) (lhs rhs : Value) (mode : EvalMode) : Except EvalError Value :=
  match op with
  | .add => .ok (arith mode lhs rhs (· + ·) (· + ·))
  | .sub => .ok (arith mode lhs rhs (· - ·) (· - ·))
  | .mul => .ok (arith mode lhs rhs (· * ·) (· * ·))
  -- the mode alone decides whether a quotient is truncated
  | .div =>
    if mode = .integer then
      if rhs.asI64 = 0 then .error .divisionByZero
      else .ok (.int (lhs.asI64 / rhs.asI64))
    else if rhs.asF64 == 0 then .error .divisionByZero
    else .ok (.float (lhs.asF64 / rhs.asF64))
  | .mod =>
    if rhs.asI64 = 0 then .error .divisionByZero
    else .ok (.int (lhs.asI64 % rhs.asI64))
  | .pow =>
    let result := Float.pow lhs.asF64 rhs.asF64
    if mode = .integer then .ok (.int (f64ToI64 result)) else .ok (.float result)
  | .lt => .ok (compare lhs rhs mode (· < ·) (· < ·))
  | .le => .ok (compare lhs rhs mode (· ≤ ·) (· ≤ ·))
  | .gt => .ok (compare lhs rhs mode (· > ·) (· > ·))
  | .ge => .ok (compare lhs rhs mode (· ≥ ·) (· ≥ ·))
  | .eq => .ok (compare lhs rhs mode (· == ·) (· == ·))
  | .ne => .ok (compare lhs rhs mode (· != ·) (· != ·))
  | .and | .or => .error .unreachable
  | .bitAnd => .ok (.int (lhs.asI64 &&& rhs.asI64))
  | .bitOr => .ok (.int (lhs.asI64 ||| rhs.asI64))
  | .bitXor => .ok (.int (lhs.asI64 ^^^ rhs.asI64))
  | .shl => .ok (.int (wrappingShl lhs.asI64 (shiftAmount rhs)))
  | .shr => .ok (.int (wrappingShr lhs.asI64 (shiftAmount rhs)))

def truncF64 (value : Float) : Float := if value < 0 then value.ceil else value.floor

def pick (lhs rhs : Value) (mode : EvalMode) (wantMin : Bool) : Value :=
  let takeLhs :=
    if integral mode lhs rhs then decide (lhs.asI64 ≤ rhs.asI64) == wantMin
    else decide (lhs.asF64 ≤ rhs.asF64) == wantMin
  if takeLhs then lhs else rhs

/-- What a function does with its arguments once their number is right. -/
inductive Function where
  | float (f : Float → Float)
  | rounding (f : Float → Float)
  | abs
  | neg
  | sgn
  | constant (value : Float)
  | atan2
  | binary (op : BinaryOp)
  | extreme (wantMin : Bool)

/-- The functions under their lower-case names. -/
def functions : List (String × Function) :=
  [("sin", .float Float.sin), ("cos", .float Float.cos), ("tan", .float Float.tan),
    ("asin", .float Float.asin), ("acos", .float Float.acos), ("atan", .float Float.atan),
    ("sqrt", .float Float.sqrt), ("exp", .float Float.exp), ("ln", .float Float.log),
    ("lg", .float Float.log10), ("trunc", .rounding truncF64), ("floor", .rounding Float.floor),
    ("ceil", .rounding Float.ceil), ("round", .rounding Float.round), ("abs", .abs),
    ("neg", .neg), ("sgn", .sgn), ("sign", .sgn), ("e", .constant eF64), ("pi", .constant piF64),
    ("log", .float Float.log10), ("log10", .float Float.log10), ("log2", .float Float.log2),
    ("atan2", .atan2), ("pow", .binary .pow), ("fmod", .binary .mod), ("min", .extreme true),
    ("max", .extreme false)]

namespace Function

def arity : Function → Nat
  | .float _ | .rounding _ | .abs | .neg | .sgn => 1
  | .constant _ => 0
  | .atan2 | .binary _ | .extreme _ => 2

def named (name : Text) : Option Function :=
  (functions.find? fun entry => lit entry.1 = toAsciiLower name).map (·.2)

def apply (mode : EvalMode) : Function → List Value → Except EvalError Value
  | .float f, [a] => .ok (.float (f a.asF64))
  | .rounding f, [a] =>
    if mode = .integer ∨ a.isInt then .ok (.int a.asI64) else .ok (.float (f a.asF64))
  | .abs, [a] =>
    if mode = .integer ∨ a.isInt then .ok (.int (wrappingAbs a.asI64))
    else .ok (.float a.asF64.abs)
  | .neg, [a] => .ok (evalUnary .minus a mode)
  | .sgn, [a] =>
    if mode = .integer ∨ a.isInt then .ok (.int (signum a.asI64))
    else .ok (.float (if a.asF64 > 0 then 1 else if a.asF64 < 0 then -1 else 0))
  | .constant value, [] => .ok (.float value)
  | .atan2, [a, b] => .ok (.float (Float.atan2 a.asF64 b.asF64))
  | .binary op, [a, b] => evalBinary op a b mode
  | .extreme wantMin, [a, b] => .ok (pick a b mode wantMin)
  | _, _ => .error .unreachable

end Function

def evalFunction (name : Text) (args : List Value) (mode : EvalMode) :
    Except EvalError Value :=
  match Function.named name with
  | none => .error (.unknownFunction name)
  | some function =>
    if args.length ≠ function.arity then
      .error (.arityMismatch name function.arity args.length)
    else function.apply mode args

/-- A computation on what the resolver reads from. -/
abbrev Eval (σ : Type) := ExceptT EvalError (StateM σ)

section

variable {σ : Type} (vars : Text → Eval σ Value) (mode : EvalMode)

/-- A name the resolver does not know may still be a constant. -/
def resolveName (name : Text) : Eval σ Value := ExceptT.mk do
  match ← (vars name).run with
  | .ok value => pure (.ok value)
  | .error (.unknownVariable _) =>
    match builtinConstant name with
    | some value => pure (.ok value)
    | none => pure (.error (.unknownVariable name))
  | .error other => pure (.error other)

mutual

def evaluate : AstNode → Eval σ Value
  | .literal value => pure value
  | .variable name => resolveName vars name
  | .unary op expr => do
    let inner ← evaluate expr
    pure (evalUnary op inner mode)
  | .binary .and left right => do
    let lhs ← evaluate left
    if !lhs.isTruthy then return .fromBool false
    let rhs ← evaluate right
    pure (.fromBool rhs.isTruthy)
  | .binary .or left right => do
    let lhs ← evaluate left
    if lhs.isTruthy then return .fromBool true
    let rhs ← evaluate right
    pure (.fromBool rhs.isTruthy)
  | .binary op left right => do
    let lhs ← evaluate left
    let rhs ← evaluate right
    liftExcept (evalBinary op lhs rhs mode)
  | .ternary cond thenExpr elseExpr => do
    if (← evaluate cond).isTruthy then evaluate thenExpr else evaluate elseExpr
  | .fnCall name args => do
    let values ← evaluateAll args
    liftExcept (evalFunction name values mode)

/-- The arguments one after another, up to the first that fails. -/
def evaluateAll : List AstNode → Eval σ (List Value)
  | [] => pure []
  | arg :: rest => do
    let value ← evaluate arg
    let values ← evaluateAll rest
    pure (value :: values)

end

end

end VivaGenicam.Genapi
