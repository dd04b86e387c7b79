import VivaGenicam.Genapi.Formula
import Mathlib.Data.List.TakeWhile
import Mathlib.Tactic

/-!
The formula lexer: bytes to tokens, the longest token first, and what it accepts as
the spelling of each token.
-/

namespace VivaGenicam.Genapi

open GenapiXml

inductive Token where
  | int (value : Int64)
  | float (value : Float)
  | ident (name : Text)
  | plus
  | minus
  | star
  | slash
  | percent
  | starStar
  | lt
  | le
  | gt
  | ge
  | eq
  | ne
  | ampAmp
  | pipePipe
  | bang
  | amp
  | pipe
  | caret
  | tilde
  | ltLt
  | gtGt
  | question
  | colon
  | lParen
  | rParen
  | comma
  | «end»

structure ParseError where
  msg : String
  offset : Nat
deriving DecidableEq, Repr

/-- The bytes of a text, each `as char`. -/
def asBytes (text : Text) : Text :=
  text.flatMap fun c => (String.utf8EncodeChar c).map fun byte => Char.ofNat byte.toNat

/-- The bytes still to read, and the offset of the first. -/
structure Lexer where
  rest : Text
  pos : Nat

def isAsciiWhitespace (byte : Char) : Bool :=
  byte = ' ' || byte = '\t' || byte = '\n' || byte = '\x0c' || byte = '\r'

def isIdentByte (byte : Char) : Bool := byte.isAlphanum || byte = '_' || byte = '.'

def isHexDigit (byte : Char) : Bool :=
  byte.isDigit || ('a' ≤ byte && byte ≤ 'f') || ('A' ≤ byte && byte ≤ 'F')

/-- What a number's scan has consumed and seen. -/
structure NumberScan where
  text : Text
  seenDigit : Bool
  seenDot : Bool
  seenExp : Bool

def NumberScan.after (scan : NumberScan) (bytes : Text) : NumberScan :=
  { scan with text := bytes ++ scan.text }

/-- `1e3` is scientific notation; in `1 e` the `e` is the constant. -/
def exponentFollows (rest : Text) : Bool :=
  rest.head?.any fun next => next.isDigit || next = '+' || next = '-'

/-- `afterExp` is the place of an exponent's sign. -/
def scanNumber (seenDigit seenDot seenExp afterExp : Bool) : Text → NumberScan
  | [] => ⟨[], seenDigit, seenDot, seenExp⟩
  | byte :: rest =>
    if afterExp ∧ (byte = '+' ∨ byte = '-') then
      (scanNumber seenDigit seenDot seenExp false rest).after [byte]
    else if byte.isDigit then (scanNumber true seenDot seenExp false rest).after [byte]
    else if byte = '.' ∧ !seenDot ∧ !seenExp then
      (scanNumber seenDigit true seenExp false rest).after [byte]
    else if (byte = 'e' ∨ byte = 'E') ∧ !seenExp ∧ seenDigit ∧ exponentFollows rest then
      (scanNumber seenDigit seenDot true true rest).after [byte]
    else ⟨[], seenDigit, seenDot, seenExp⟩

/-- The token of an operator or bracket and how many bytes it takes. -/
def symbol (byte : Char) (next : Option Char) : Option (Token × Nat) :=
  match byte with
  | '+' => some (.plus, 1)
  | '-' => some (.minus, 1)
  | '*' => if next = some '*' then some (.starStar, 2) else some (.star, 1)
  | '/' => some (.slash, 1)
  | '%' => some (.percent, 1)
  | '<' =>
    if next = some '=' then some (.le, 2)
    else if next = some '<' then some (.ltLt, 2)
    else if next = some '>' then some (.ne, 2)
    else some (.lt, 1)
  | '>' =>
    if next = some '=' then some (.ge, 2)
    else if next = some '>' then some (.gtGt, 2)
    else some (.gt, 1)
  | '=' => if next = some '=' then some (.eq, 2) else some (.eq, 1)
  | '!' => if next = some '=' then some (.ne, 2) else some (.bang, 1)
  | '&' => if next = some '&' then some (.ampAmp, 2) else some (.amp, 1)
  | '|' => if next = some '|' then some (.pipePipe, 2) else some (.pipe, 1)
  | '^' => some (.caret, 1)
  | '~' => some (.tilde, 1)
  | '?' => some (.question, 1)
  | ':' => some (.colon, 1)
  | '(' => some (.lParen, 1)
  | ')' => some (.rParen, 1)
  | ',' => some (.comma, 1)
  | _ => none

namespace Lexer

variable (parseF64 : Text → Option Float) (lexer : Lexer)

def advanceBy (n : Nat) : Lexer := ⟨lexer.rest.drop n, lexer.pos + n⟩

def skipWs : Lexer := lexer.advanceBy (lexer.rest.takeWhile isAsciiWhitespace).length

def lexHex (digits : Text) : Except ParseError (Token × Lexer) :=
  let text := digits.takeWhile isHexDigit
  if text = [] then .error ⟨"hex literal has no digits", lexer.pos⟩
  else
    match u64FromStrRadix 16 text with
    | .ok value => .ok (.int (.ofNat value), lexer.advanceBy (2 + text.length))
    | .error _ => .error ⟨"invalid hex literal: 0x" ++ String.ofList text, lexer.pos⟩

/-- The text as a float, when it is no `i64`. -/
def lexFloat (text : Text) : Except ParseError (Token × Lexer) :=
  match parseF64 text with
  | some value => .ok (.float value, lexer.advanceBy text.length)
  | none => .error ⟨"failed to parse number: " ++ String.ofList text, lexer.pos⟩

def lexDecimal : Except ParseError (Token × Lexer) :=
  let scan := scanNumber false false false false lexer.rest
  if !scan.seenDigit then .error ⟨"invalid number literal", lexer.pos⟩
  else if !scan.seenDot && !scan.seenExp then
    match i64FromStrRadix 10 scan.text with
    | .ok value => .ok (.int (.ofInt value), lexer.advanceBy scan.text.length)
    | .error _ => lexFloat parseF64 lexer scan.text
  else lexFloat parseF64 lexer scan.text

def lexNumber : Except ParseError (Token × Lexer) :=
  match lexer.rest with
  | '0' :: next :: digits =>
    if next = 'x' ∨ next = 'X' then lexHex lexer digits else lexDecimal parseF64 lexer
  | _ => lexDecimal parseF64 lexer

def lexIdent : Token × Lexer :=
  let name := lexer.rest.take 1 ++ (lexer.rest.drop 1).takeWhile isIdentByte
  (.ident name, lexer.advanceBy name.length)

def nextToken : Except ParseError (Token × Lexer) :=
  let lexer := lexer.skipWs
  match lexer.rest with
  | [] => .ok (.end, lexer)
  | byte :: rest =>
    if byte.isDigit || byte = '.' then lexNumber parseF64 lexer
    else if byte.isAlpha || byte = '_' then .ok (lexIdent lexer)
    else
      match symbol byte rest.head? with
      | some (token, width) => .ok (token, lexer.advanceBy width)
      | none => .error ⟨"unexpected character '" ++ String.singleton byte ++ "'", lexer.pos⟩

end Lexer

def numeralFrom (radix value : Nat) : Text → Nat
  | [] => value
  | c :: rest => numeralFrom radix (value * radix + (digitValue radix c).getD 0) rest

def numeral (radix : Nat) (digits : Text) : Nat := numeralFrom radix 0 digits

theorem le_numeralFrom {radix : Nat} (hradix : 0 < radix) (digits : Text) (value : Nat) :
    value ≤ numeralFrom radix value digits := by
  induction digits generalizing value with
  | nil => exact le_rfl
  | cons c rest ih =>
    have hle : value ≤ value * radix := Nat.le_mul_of_pos_right value hradix
    have hnext := ih (value * radix + (digitValue radix c).getD 0)
    simp only [numeralFrom]
    omega

theorem numeralFrom_append (radix value : Nat) (digits more : Text) :
    numeralFrom radix value (digits ++ more) =
      numeralFrom radix (numeralFrom radix value digits) more := by
  induction digits generalizing value with
  | nil => rfl
  | cons c rest ih => exact ih _

theorem digitsValue_eq {radix limit : Nat} (hradix : 0 < radix) {overflow : IntErrorKind}
    {digits : Text} (hdigits : ∀ c ∈ digits, (digitValue radix c).isSome) {value : Nat}
    (hvalue : value ≤ limit) :
    digitsValue radix limit overflow value digits =
      if limit < numeralFrom radix value digits then .error overflow
      else .ok (numeralFrom radix value digits) := by
  induction digits generalizing value with
  | nil =>
    rw [numeralFrom, if_neg (by omega)]
    rfl
  | cons c rest ih =>
    obtain ⟨digit, hdigit⟩ := Option.isSome_iff_exists.mp (hdigits c (by simp))
    have hle := le_numeralFrom hradix rest (value * radix + digit)
    simp only [digitsValue, numeralFrom, hdigit, Option.getD_some]
    by_cases hmul : limit < value * radix
    · rw [if_pos hmul, if_pos (by omega)]
    · by_cases hadd : limit < value * radix + digit
      · rw [if_neg hmul, if_pos hadd, if_pos (by omega)]
      · rw [if_neg hmul, if_neg hadd]
        exact ih (fun d hd => hdigits d (List.mem_cons_of_mem c hd)) (by omega)

theorem digitValue_decimal {c : Char} (h : c.isDigit = true) :
    digitValue 10 c = some (c.toNat - 48) := by
  have hbounds : 48 ≤ c.toNat ∧ c.toNat ≤ 57 := by
    simpa [Char.isDigit, UInt32.le_iff_toNat_le] using h
  simp [digitValue, h, Option.filter]
  omega

theorem char_le_iff (c d : Char) : c ≤ d ↔ c.toNat ≤ d.toNat := Iff.rfl

theorem digitValue_hex {c : Char} (h : isHexDigit c = true) : (digitValue 16 c).isSome := by
  simp only [isHexDigit, Bool.or_eq_true, Bool.and_eq_true, decide_eq_true_eq,
    char_le_iff] at h
  rcases h with (h | ⟨hlow, hhigh⟩) | ⟨hlow, hhigh⟩
  · have hten := digitValue_decimal h
    have hbounds : 48 ≤ c.toNat ∧ c.toNat ≤ 57 := by
      simpa [Char.isDigit, UInt32.le_iff_toNat_le] using h
    simp [digitValue, h, Option.filter]
    omega
  · have hdigit : c.isDigit = false := by
      simp [Char.isDigit, UInt32.le_iff_toNat_le] at hlow ⊢
      omega
    have hz : 'a' ≤ c ∧ c ≤ 'z' := by
      simp only [char_le_iff]
      simp at hlow hhigh ⊢
      omega
    simp at hlow hhigh
    simp only [digitValue, hdigit, hz, and_self, if_true, if_false, Bool.false_eq_true]
    simp [Option.filter]
    omega
  · have hdigit : c.isDigit = false := by
      simp [Char.isDigit, UInt32.le_iff_toNat_le] at hlow ⊢
      omega
    have hz : ¬ ('a' ≤ c ∧ c ≤ 'z') := by
      simp only [char_le_iff]
      simp at hlow hhigh ⊢
      omega
    have hupper : 'A' ≤ c ∧ c ≤ 'Z' := by
      simp only [char_le_iff]
      simp at hlow hhigh ⊢
      omega
    simp at hlow hhigh
    simp only [digitValue, hdigit, hz, hupper, and_self, if_true, if_false, Bool.false_eq_true]
    simp [Option.filter]
    omega

theorem i64FromStrRadix_digits {digits : Text} (hne : digits ≠ [])
    (hdigits : ∀ c ∈ digits, c.isDigit = true) :
    i64FromStrRadix 10 digits =
      if numeral 10 digits < 2 ^ 63 then .ok (numeral 10 digits : Int) else .error .posOverflow := by
  have hsome : ∀ c ∈ digits, (digitValue 10 c).isSome := fun c hc => by
    rw [digitValue_decimal (hdigits c hc)]
    rfl
  have hplain : i64FromStrRadix 10 digits =
      (digitsValue 10 (2 ^ 63 - 1) .posOverflow 0 digits).map Int.ofNat := by
    fun_cases i64FromStrRadix 10 digits with
    | case1 => exact absurd rfl hne
    | case2 => exact absurd (hdigits '+' (by simp)) (by decide)
    | case3 => exact absurd (hdigits '-' (by simp)) (by decide)
    | case4 => exact absurd (hdigits '-' (by simp)) (by decide)
    | case5 => exact absurd (hdigits '+' (by simp)) (by decide)
    | case6 => rfl
  rw [hplain, digitsValue_eq (by omega) hsome (by omega)]
  by_cases h : numeral 10 digits < 2 ^ 63
  · rw [if_pos h, if_neg (by simp only [numeral] at h; omega)]
    rfl
  · rw [if_neg h, if_pos (by simp only [numeral] at h; omega)]
    rfl

theorem u64FromStrRadix_digits {digits : Text} (hne : digits ≠ [])
    (hdigits : ∀ c ∈ digits, isHexDigit c = true) :
    u64FromStrRadix 16 digits =
      if numeral 16 digits < 2 ^ 64 then .ok (numeral 16 digits) else .error .posOverflow := by
  have hsome : ∀ c ∈ digits, (digitValue 16 c).isSome := fun c hc => digitValue_hex (hdigits c hc)
  have hplain : u64FromStrRadix 16 digits =
      digitsValue 16 (2 ^ 64 - 1) .posOverflow 0 digits := by
    fun_cases u64FromStrRadix 16 digits with
    | case1 => exact absurd rfl hne
    | case2 => exact absurd (hdigits '+' (by simp)) (by decide)
    | case3 => exact absurd (hdigits '-' (by simp)) (by decide)
    | case4 => exact absurd (hdigits '+' (by simp)) (by decide)
    | case5 => rfl
  rw [hplain, digitsValue_eq (by omega) hsome (by omega)]
  by_cases h : numeral 16 digits < 2 ^ 64
  · rw [if_pos h, if_neg (by simp only [numeral] at h; omega)]
    rfl
  · rw [if_neg h, if_pos (by simp only [numeral] at h; omega)]

end VivaGenicam.Genapi
