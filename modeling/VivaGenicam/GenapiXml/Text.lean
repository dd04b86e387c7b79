import Mathlib.Tactic

/-!
Text of a GenICam document and the numbers written in it: surrounding white
space is dropped, `_` groups digits, and `0x` starts a hexadecimal number.
-/

namespace VivaGenicam.GenapiXml

/-- A string as its characters. -/
abbrev Text := List Char

instance : LawfulBEq Text := inferInstance

/-- A text of a definition, as its characters. -/
abbrev lit (text : String) : Text := text.toList

/-- Unicode's `White_Space`. -/
def isWhitespace (c : Char) : Bool :=
  (9 ≤ c.toNat ∧ c.toNat ≤ 13) ∨ c.toNat = 0x20 ∨ c.toNat = 0x85 ∨ c.toNat = 0xA0 ∨
    c.toNat = 0x1680 ∨ (0x2000 ≤ c.toNat ∧ c.toNat ≤ 0x200A) ∨ c.toNat = 0x2028 ∨
    c.toNat = 0x2029 ∨ c.toNat = 0x202F ∨ c.toNat = 0x205F ∨ c.toNat = 0x3000

theorem isAlpha_iff (c : Char) :
    c.isAlpha = true ↔
      (65 ≤ c.toNat ∧ c.toNat ≤ 90) ∨ (97 ≤ c.toNat ∧ c.toNat ≤ 122) := by
  change (decide (65 ≤ c.val ∧ c.val ≤ 90) ||
    (decide (97 ≤ c.val) && decide (c.val ≤ 122))) = true ↔ _
  simp only [Bool.or_eq_true, Bool.and_eq_true, decide_eq_true_eq, UInt32.le_iff_toNat_le]
  exact Iff.rfl

theorem isDigit_iff (c : Char) : c.isDigit = true ↔ 48 ≤ c.toNat ∧ c.toNat ≤ 57 := by
  change (decide (48 ≤ c.val) && decide (c.val ≤ 57)) = true ↔ _
  simp only [Bool.and_eq_true, decide_eq_true_eq, UInt32.le_iff_toNat_le]
  exact Iff.rfl

def trim (text : Text) : Text :=
  ((text.dropWhile isWhitespace).reverse.dropWhile isWhitespace).reverse

/-- The text without its surrounding space, if anything is left. -/
def nonBlank (text : Text) : Option Text :=
  if trim text = [] then none else some (trim text)

def toAsciiLower (text : Text) : Text := text.map Char.toLower

def toAsciiUpper (text : Text) : Text := text.map Char.toUpper

inductive IntErrorKind where
  | empty
  | invalidDigit
  | posOverflow
  | negOverflow
deriving DecidableEq, Repr

/-- Why a number's text was refused: the integer parser's verdict, or the
float parser's, which has no kinds of its own. -/
inductive NumberError where
  | int (kind : IntErrorKind)
  | float
deriving DecidableEq, Repr

inductive XmlError where
  | number (text : Text) (expected : String) (source : NumberError)
  | missing (node : Text) (what : String)
  | invalid (node : Text) (problem : String)
deriving DecidableEq, Repr

def digitValue (radix : Nat) (c : Char) : Option Nat :=
  let value :=
    if c.isDigit then some (c.toNat - '0'.toNat)
    else if 'a' ≤ c ∧ c ≤ 'z' then some (c.toNat - 'a'.toNat + 10)
    else if 'A' ≤ c ∧ c ≤ 'Z' then some (c.toNat - 'A'.toNat + 10)
    else none
  value.filter (· < radix)

/-- `from_str_radix`'s loop over the digits, up to `limit`. The product is
checked after the digit is read, as the loop has it. -/
def digitsValue (radix limit : Nat) (overflow : IntErrorKind) (result : Nat) :
    Text → Except IntErrorKind Nat
  | [] => .ok result
  | c :: rest =>
    match digitValue radix c with
    | none => .error .invalidDigit
    | some digit =>
      if limit < result * radix then .error overflow
      else if limit < result * radix + digit then .error overflow
      else digitsValue radix limit overflow (result * radix + digit) rest

def u64FromStrRadix (radix : Nat) (text : Text) : Except IntErrorKind Nat :=
  match text with
  | [] => .error .empty
  | ['+'] | ['-'] => .error .invalidDigit
  | '+' :: digits => digitsValue radix (2 ^ 64 - 1) .posOverflow 0 digits
  | digits => digitsValue radix (2 ^ 64 - 1) .posOverflow 0 digits

def i64FromStrRadix (radix : Nat) (text : Text) : Except IntErrorKind Int :=
  match text with
  | [] => .error .empty
  | ['+'] | ['-'] => .error .invalidDigit
  | '-' :: digits => (digitsValue radix (2 ^ 63) .negOverflow 0 digits).map fun value => -value
  | '+' :: digits => (digitsValue radix (2 ^ 63 - 1) .posOverflow 0 digits).map Int.ofNat
  | digits => (digitsValue radix (2 ^ 63 - 1) .posOverflow 0 digits).map Int.ofNat

/-- `strip_prefix("0x")`. -/
def stripHex : Text → Option Text
  | '0' :: 'x' :: hex => some hex
  | _ => none

def withoutUnderscores (text : Text) : Text := text.filter (· ≠ '_')

/-- A parser's refusal as the document's error about `text`. -/
def numberError {α : Type} (text : Text) (expected : String) :
    Except IntErrorKind α → Except XmlError α
  | .ok value => .ok value
  | .error kind => .error (.number text expected (.int kind))

def parseU64 (value : Text) : Except XmlError Nat :=
  match stripHex (trim value) with
  | some hex =>
    numberError (trim value) "a hexadecimal integer" (u64FromStrRadix 16 (withoutUnderscores hex))
  | none =>
    numberError (trim value) "an unsigned integer"
      (u64FromStrRadix 10 (withoutUnderscores (trim value)))

def parseI64 (value : Text) : Except XmlError Int :=
  match stripHex (trim value) with
  | some hex =>
    numberError (trim value) "a hexadecimal integer" (i64FromStrRadix 16 (withoutUnderscores hex))
  | none =>
    numberError (trim value) "an integer" (i64FromStrRadix 10 (withoutUnderscores (trim value)))

/-- A 64-bit pattern read as two's complement. -/
def asI64 (value : Nat) : Int := (BitVec.ofNat 64 value).toInt

/-- An address: signed decimal, or hexadecimal whose bit pattern is kept. -/
def parseAddress (value : Text) : Except XmlError Int :=
  if (stripHex (trim value)).isSome then (parseU64 (trim value)).map asI64
  else
    numberError (trim value) "an address"
      (i64FromStrRadix 10 (withoutUnderscores (trim value)))

example : parseU64 (lit " 0x0000_FF00 ") = .ok 0xFF00 := by decide

example : parseAddress (lit "0xFFFFFFFFFFFFFFFC") = .ok (-4) := by decide

example : parseAddress (lit "-0x4") =
    .error (.number (lit "-0x4") "an address" (.int .invalidDigit)) := by decide

end VivaGenicam.GenapiXml
