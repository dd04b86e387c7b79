import VivaGenicam.Genapi.FormulaText

/-!
What integer literals evaluate to, in decimal and in hexadecimal, and where the
lexer ends them.
-/

namespace VivaGenicam.Genapi

open GenapiXml

/-- The text parses, and in integer mode it evaluates to `value` whatever the
variables are. -/
def EvaluatesTo (parseF64 : Text → Option Float) (text : Text) (value : Value) : Prop :=
  ∃ ast, parseExpression parseF64 text = .ok ast ∧
    ∀ (σ : Type) (vars : Text → Eval σ Value), evaluate vars .integer ast = pure value

/-- An integer in decimal, behind a minus sign when it is negative. -/
def decimalText (value : Int64) : Text :=
  if value.toInt < 0 then '-' :: Nat.toDigits 10 value.toInt.natAbs
  else Nat.toDigits 10 value.toInt.natAbs

def significant (digits : Text) : Text := digits.dropWhile (· == '0')

/-- What the lexer makes of a decimal number, whose token ends before `rest`. -/
def decimalToken (parseF64 : Text → Option Float) (pos : Nat)
    (whole fraction exponent rest : Text) : Except ParseError (Token × Lexer) :=
  let text := whole ++ fraction ++ exponent
  if fraction = [] ∧ exponent = [] ∧ numeral 10 whole < 2 ^ 63 then
    .ok (.int (.ofInt (numeral 10 whole)), ⟨rest, pos + text.length⟩)
  else
    match parseF64 text with
    | some value => .ok (.float value, ⟨rest, pos + text.length⟩)
    | none => .error ⟨"failed to parse number: " ++ String.ofList text, pos⟩

theorem isDigits_toDigits (n : Nat) : IsDigits (Nat.toDigits 10 n) :=
  fun _ hc => Nat.isDigit_of_mem_toDigits (by decide) le_rfl hc

variable {digits : Text}

theorem numeralFrom_digits (h : IsDigits digits) (value : Nat) :
    numeralFrom 10 value digits = Nat.ofDigitChars 10 digits value := by
  induction digits generalizing value with
  | nil => rfl
  | cons c rest ih =>
    rw [numeralFrom, ih (fun d hd => h d (List.mem_cons_of_mem c hd)), Nat.ofDigitChars_cons,
      digitValue_decimal (h c (by simp)), Option.getD_some, Nat.mul_comm]
    rfl

theorem numeral_toDigits (n : Nat) : numeral 10 (Nat.toDigits 10 n) = n := by
  rw [numeral, numeralFrom_digits (isDigits_toDigits n), Nat.ofDigitChars_ten_toDigits]

theorem numeralFrom_hex_lt {digits : Text} (h : ∀ c ∈ digits, isHexDigit c = true) (value : Nat) :
    value * 16 ^ digits.length ≤ numeralFrom 16 value digits ∧
      numeralFrom 16 value digits < (value + 1) * 16 ^ digits.length := by
  induction digits generalizing value with
  | nil => simp [numeralFrom]
  | cons c rest ih =>
    obtain ⟨digit, hdigit⟩ := Option.isSome_iff_exists.mp (digitValue_hex (h c (by simp)))
    have hlt : digit < 16 := by
      unfold digitValue at hdigit
      rw [Option.filter_eq_some_iff] at hdigit
      simpa using hdigit.2
    obtain ⟨hlow, hhigh⟩ := ih (fun d hd => h d (List.mem_cons_of_mem c hd)) (value * 16 + digit)
    rw [numeralFrom, hdigit, Option.getD_some, List.length_cons, pow_succ]
    constructor
    · calc value * (16 ^ rest.length * 16) = (value * 16) * 16 ^ rest.length := by ring
        _ ≤ (value * 16 + digit) * 16 ^ rest.length := Nat.mul_le_mul_right _ (by omega)
        _ ≤ _ := hlow
    · calc numeralFrom 16 (value * 16 + digit) rest
          < (value * 16 + digit + 1) * 16 ^ rest.length := hhigh
        _ ≤ ((value + 1) * 16) * 16 ^ rest.length := Nat.mul_le_mul_right _ (by omega)
        _ = (value + 1) * (16 ^ rest.length * 16) := by ring

theorem numeral_significant (digits : Text) :
    numeral 16 (significant digits) = numeral 16 digits := by
  induction digits with
  | nil => rfl
  | cons c rest ih =>
    unfold significant
    rw [List.dropWhile_cons]
    split
    · rename_i hzero
      obtain rfl : c = '0' := by simpa using hzero
      rw [← significant, ih]
      rfl
    · rfl

theorem digitValue_pos {c : Char} {digit : Nat} (h : digitValue 16 c = some digit) (hne : c ≠ '0') :
    1 ≤ digit := by
  unfold digitValue at h
  rw [Option.filter_eq_some_iff] at h
  obtain ⟨hvalue, -⟩ := h
  split at hvalue
  · rename_i hdigit
    have hbounds : 48 ≤ c.toNat ∧ c.toNat ≤ 57 := by
      simpa [Char.isDigit, UInt32.le_iff_toNat_le] using hdigit
    have hcode : c.toNat ≠ 48 := fun heq => hne (Char.toNat_inj.mp heq)
    have hzero : '0'.toNat = 48 := rfl
    rw [Option.some.injEq] at hvalue
    omega
  · split at hvalue
    · rw [Option.some.injEq] at hvalue
      omega
    · split at hvalue
      · rw [Option.some.injEq] at hvalue
        omega
      · cases hvalue

theorem numeral_hex_lt_iff (h : ∀ c ∈ digits, isHexDigit c = true) :
    numeral 16 digits < 2 ^ 64 ↔ (significant digits).length ≤ 16 := by
  have hsig : ∀ c ∈ significant digits, isHexDigit c = true :=
    fun c hc => h c ((List.dropWhile_suffix _).subset hc)
  rw [← numeral_significant, numeral]
  cases hdigits : significant digits with
  | nil => simp [numeralFrom]
  | cons c rest =>
    rw [hdigits] at hsig
    have hzero : c ≠ '0' := by
      have := List.head?_dropWhile_not (· == '0') digits
      rw [← significant, hdigits] at this
      simpa using this
    have hrest : ∀ d ∈ rest, isHexDigit d = true := fun d hd => hsig d (List.mem_cons_of_mem c hd)
    have hwhole := (numeralFrom_hex_lt hsig 0).2
    rw [Nat.zero_add, Nat.one_mul] at hwhole
    constructor
    · intro hlt
      by_contra hlong
      rw [List.length_cons] at hlong
      obtain ⟨digit, hdigit⟩ := Option.isSome_iff_exists.mp (digitValue_hex (hsig c (by simp)))
      have hpos := digitValue_pos hdigit hzero
      have hlow := (numeralFrom_hex_lt hrest digit).1
      have hpow : 16 ^ 16 ≤ 16 ^ rest.length := Nat.pow_le_pow_right (by decide) (by omega)
      rw [numeralFrom, hdigit, Option.getD_some, Nat.zero_mul, Nat.zero_add] at hlt
      have : 16 ^ rest.length ≤ digit * 16 ^ rest.length := Nat.le_mul_of_pos_left _ hpos
      omega
    · intro hle
      have hpow : 16 ^ (c :: rest).length ≤ 16 ^ 16 := Nat.pow_le_pow_right (by decide) hle
      omega

section Literals

variable {parseF64 : Text → Option Float} {t : Token} {text : Text}

theorem laid_single (h : Spells parseF64 t text) :
    Laid (Spells parseF64) [t] text := by
  have hlaid : Laid (Spells parseF64) [t] ([] ++ text ++ []) := Laid.token nofun h (Laid.done nofun)
  rwa [List.nil_append, List.append_nil] at hlaid

theorem Writes.loosest {ast : AstNode} {level : Nat} {ts : List Token} (hlow : 1 ≤ level)
    (hhigh : level ≤ 14) (h : Writes (.node level ast) ts) : Writes (.node 1 ast) ts := by
  induction level, hlow using Nat.le_induction with
  | base => exact h
  | succ level hlow ih => exact ih (by omega) (.tighter ⟨hlow, by omega⟩ h)

variable {value : Value}

theorem parse_literal (h : Spells parseF64 t text) (ht : Writes (.node 14 (.literal value)) [t]) :
    parseExpression parseF64 text = .ok (.literal value) :=
  (parseExpression_iff parseF64 text _).mpr ⟨[t], ht.loosest (by decide) le_rfl, laid_single h⟩

theorem parse_negative (h : Spells parseF64 t text) (ht : Writes (.node 14 (.literal value)) [t]) :
    parseExpression parseF64 ('-' :: text) = .ok (.unary .minus (.literal value)) := by
  apply (parseExpression_iff parseF64 _ _).mpr
  have hminus : Spells parseF64 .minus ['-'] := .printed (.symbol (by simp [symbols]))
  exact ⟨[.minus, t], (Writes.unary .minus (.tighter (by decide) ht)).loosest (by decide) (by decide),
    show Laid _ _ ([] ++ ['-'] ++ text) from Laid.token nofun hminus (laid_single h)⟩

theorem evaluatesTo_iff {ast : AstNode} {result : Value}
    (hparse : parseExpression parseF64 text = .ok ast)
    (heval : ∀ (σ : Type) (vars : Text → Eval σ Value), evaluate vars .integer ast = pure result) :
    EvaluatesTo parseF64 text value ↔ result = value := by
  constructor
  · rintro ⟨other, hother, hvalue⟩
    rw [hparse] at hother
    cases hother
    have hboth := (heval Unit fun _ => pure value).symm.trans (hvalue Unit fun _ => pure value)
    have hrun := congrArg (fun m : Eval Unit Value => (m.run ()).1) hboth
    exact Except.ok.inj hrun
  · rintro rfl
    exact ⟨ast, hparse, heval⟩

theorem evaluatesTo_literal {literal : Value}
    (h : Spells parseF64 t text) (ht : Writes (.node 14 (.literal literal)) [t]) :
    EvaluatesTo parseF64 text value ↔ literal = value :=
  evaluatesTo_iff (parse_literal h ht) fun _ _ => rfl

theorem evaluatesTo_negative {literal : Value}
    (h : Spells parseF64 t text) (ht : Writes (.node 14 (.literal literal)) [t]) :
    EvaluatesTo parseF64 ('-' :: text) value ↔ .int (-literal.asI64) = value :=
  evaluatesTo_iff (parse_negative h ht) fun _ _ => rfl

theorem evaluatesTo_least (hparse : parseF64 (Nat.toDigits 10 (2 ^ 63)) = some i64Bound)
    (value : Value) :
    EvaluatesTo parseF64 (decimalText Int64.minValue) value ↔
      .int (Int64.minValue + 1) = value := by
  have htext : decimalText Int64.minValue = '-' :: Nat.toDigits 10 (2 ^ 63) := rfl
  have hspells : Spells parseF64 (.float i64Bound) (Nat.toDigits 10 (2 ^ 63)) := by
    have hfloat : Spells parseF64 (.float i64Bound) (Nat.toDigits 10 (2 ^ 63) ++ [] ++ []) := .float
      (isDigits_toDigits (2 ^ 63)) .none .none (.inl Nat.toDigits_ne_nil)
      (.inr (.inr (by rw [numeral_toDigits]))) (by simpa using hparse)
    simpa using hfloat
  have hcast : -(Value.float i64Bound).asI64 = Int64.minValue + 1 := by decide +kernel
  rw [htext, evaluatesTo_negative hspells (.float _), hcast]

theorem evaluatesTo_decimalText
    (hparse : parseF64 (Nat.toDigits 10 (2 ^ 63)) = some i64Bound) (value : Int64) :
    EvaluatesTo parseF64 (decimalText value) (.int value) ↔ value ≠ Int64.minValue := by
  by_cases hleast : value = Int64.minValue
  · rw [hleast, evaluatesTo_least hparse, Value.int.injEq]
    decide
  have hlow := value.le_toInt
  have hhigh := value.toInt_lt
  have hmin : value.toInt ≠ Int64.minValue.toInt := fun heq => hleast (Int64.toInt_inj.mp heq)
  have hbound : Int64.minValue.toInt = -2 ^ 63 := rfl
  have hspells : Spells parseF64 (.int (.ofInt value.toInt.natAbs))
      (Nat.toDigits 10 value.toInt.natAbs) := by
    have hprints := Prints.decimal Nat.toDigits_ne_nil (isDigits_toDigits value.toInt.natAbs)
      (by rw [numeral_toDigits]; omega)
    rw [numeral_toDigits] at hprints
    exact .printed hprints
  refine iff_of_true ?_ hleast
  unfold decimalText
  split
  · rename_i hneg
    have hsign : (value.toInt.natAbs : Int) = -value.toInt := by omega
    have hvalue : -Int64.ofInt value.toInt.natAbs = value := by
      rw [hsign, Int64.ofInt_neg, Int64.neg_neg, Int64.ofInt_toInt]
    exact (evaluatesTo_negative hspells (.int _)).mpr (congrArg Value.int hvalue)
  · rename_i hneg
    have hsign : (value.toInt.natAbs : Int) = value.toInt := by omega
    have hvalue : Int64.ofInt value.toInt.natAbs = value := by rw [hsign, Int64.ofInt_toInt]
    exact (evaluatesTo_literal hspells (.int _)).mpr (congrArg Value.int hvalue)

theorem evaluatesTo_hexadecimal {x : Char} (hx : x = 'x' ∨ x = 'X')
    (hne : digits ≠ []) (h : ∀ c ∈ digits, isHexDigit c = true)
    (hfits : numeral 16 digits < 2 ^ 64) :
    EvaluatesTo parseF64 ('0' :: x :: digits)
      (.int (.ofBitVec (BitVec.ofNat 64 (numeral 16 digits)))) :=
  (evaluatesTo_literal (.hexadecimal hx hne h hfits) (.int _)).mpr rfl

theorem parse_long_hexadecimal {x : Char} (hx : x = 'x' ∨ x = 'X')
    (hne : digits ≠ []) (h : ∀ c ∈ digits, isHexDigit c = true)
    (hlong : ¬ numeral 16 digits < 2 ^ 64) :
    parseExpression parseF64 ('0' :: x :: digits) =
      .error (.error ⟨"invalid hex literal: 0x" ++ String.ofList digits, 0⟩) := by
  have hascii : IsAscii ('0' :: x :: digits) := by
    refine isAscii_cons (by decide) (isAscii_cons ?_ fun c hc => ?_)
    · rcases hx with rfl | rfl <;> decide
    · exact isAscii_of_isIdentByte (isIdentByte_of_isHexDigit (h c hc))
  have hrow : digits.takeWhile isHexDigit = digits := List.takeWhile_eq_self_iff.mpr h
  have hlex : Lexer.lexNumber parseF64 ⟨'0' :: x :: digits, 0⟩ =
      .error ⟨"invalid hex literal: 0x" ++ String.ofList digits, 0⟩ := by
    simp only [Lexer.lexNumber, hx, if_true, Lexer.lexHex, hrow, if_neg hne]
    rw [u64FromStrRadix_digits hne h, if_neg hlong]
  have hnext : Lexer.nextToken parseF64 ⟨'0' :: x :: digits, 0⟩ =
      .error ⟨"invalid hex literal: 0x" ++ String.ofList digits, 0⟩ := hlex
  rw [parseExpression, Parser.new, asBytes_ascii hascii, Parser.ahead, hnext]
  rfl

end Literals

theorem lexNumber_parts (parseF64 : Text → Option Float) (pos : Nat)
    {whole fraction exponent rest : Text} (h : NumberParts whole fraction exponent rest)
    (hdigit : whole ≠ [] ∨ 2 ≤ fraction.length)
    (hhex : ∀ d more, whole ++ fraction ++ exponent ++ rest = '0' :: d :: more →
      ¬ (d = 'x' ∨ d = 'X')) :
    Lexer.lexNumber parseF64 ⟨whole ++ fraction ++ exponent ++ rest, pos⟩ =
      decimalToken parseF64 pos whole fraction exponent rest := by
  rw [lexNumber_decimal hhex, h.lexDecimal, if_pos hdigit]
  unfold decimalToken
  dsimp only
  split
  · rename_i hint
    rw [hint.1, hint.2.1, List.append_nil, List.append_nil]
  · unfold Lexer.lexFloat
    cases parseF64 (whole ++ fraction ++ exponent) with
    | none => rfl
    | some value =>
      dsimp only
      rw [advanceBy_append]

/-- An integer written in decimal evaluates to itself, but for the least one; a
hexadecimal literal of sixteen digits that count evaluates to its two's
complement, and a longer one is refused; a decimal number is read whole,
whatever follows. -/
theorem integer_literals (parseF64 : Text → Option Float)
    (hparse : parseF64 (Nat.toDigits 10 (2 ^ 63)) = some i64Bound) (value : Int64) :
    (EvaluatesTo parseF64 (decimalText value) (.int value) ↔ value ≠ Int64.minValue) ∧
      (∀ x digits, (x = 'x' ∨ x = 'X') → digits ≠ [] → (∀ c ∈ digits, isHexDigit c = true) →
        if (significant digits).length ≤ 16 then
          EvaluatesTo parseF64 ('0' :: x :: digits)
            (.int (.ofBitVec (BitVec.ofNat 64 (numeral 16 digits))))
        else
          parseExpression parseF64 ('0' :: x :: digits) =
            .error (.error ⟨"invalid hex literal: 0x" ++ String.ofList digits, 0⟩)) ∧
      ∀ input, (∀ d more, input = '0' :: d :: more → ¬ (d = 'x' ∨ d = 'X')) →
        ∃ whole fraction exponent rest, input = whole ++ fraction ++ exponent ++ rest ∧
          NumberParts whole fraction exponent rest ∧
          ((whole ≠ [] ∨ 2 ≤ fraction.length) → ∀ pos,
            Lexer.lexNumber parseF64 ⟨input, pos⟩ =
              decimalToken parseF64 pos whole fraction exponent rest) := by
  refine ⟨evaluatesTo_decimalText hparse value, fun x digits hx hne h => ?_, fun input hhex => ?_⟩
  · have hiff := numeral_hex_lt_iff h
    split
    · rename_i hshort
      exact evaluatesTo_hexadecimal hx hne h (hiff.mpr hshort)
    · rename_i hlong
      exact parse_long_hexadecimal hx hne h (mt hiff.mp hlong)
  · obtain ⟨whole, fraction, exponent, rest, rfl, hparts⟩ := exists_parts input
    exact ⟨whole, fraction, exponent, rest, rfl, hparts,
      fun hdigit pos => lexNumber_parts parseF64 pos hparts hdigit hhex⟩

def digitsF64 (digits : Text) : Option Float := some (Float.ofNat (numeral 10 digits))

theorem digitsF64_bound : digitsF64 (Nat.toDigits 10 (2 ^ 63)) = some i64Bound := by
  rw [digitsF64, numeral_toDigits]
  decide +kernel

/-- The least integer evaluates to its successor. -/
theorem least_integer_literal :
    decimalText Int64.minValue = "-9223372036854775808".toList ∧
      ¬ EvaluatesTo digitsF64 (decimalText Int64.minValue) (.int Int64.minValue) ∧
      EvaluatesTo digitsF64 (decimalText Int64.minValue) (.int (-9223372036854775807)) := by
  have hleast := evaluatesTo_least digitsF64_bound
  refine ⟨rfl, ?_, (hleast _).mpr rfl⟩
  rw [hleast, Value.int.injEq]
  decide

theorem integer_literals_42 :
    EvaluatesTo digitsF64 (decimalText 42) (.int 42) ∧
      EvaluatesTo digitsF64 (lit "0xFFFFFFFFFFFFFFFF") (.int (-1)) := by
  have hall := integer_literals digitsF64 digitsF64_bound 42
  refine ⟨hall.1.mpr (by decide), ?_⟩
  have hdigits : ∀ c ∈ List.replicate 16 'F', isHexDigit c = true := by
    intro c hc
    rw [List.eq_of_mem_replicate hc]
    rfl
  have hhex := hall.2.1 'x' (List.replicate 16 'F') (.inl rfl) (by decide) hdigits
  rw [if_pos (by decide)] at hhex
  exact hhex

end VivaGenicam.Genapi
