import VivaGenicam.Genapi.ConfigurationText
import VivaGenicam.Genapi.IntegerLiterals

/-!
Integers and register bytes as text: what the readers of a saved value accept,
beside what the writers produce.
-/

namespace VivaGenicam.Genapi

open GenapiXml

/-- `strip_prefix("0x")`, or else `strip_prefix("0X")`. -/
def stripRadix : Text → Option Text
  | '0' :: 'x' :: rest => some rest
  | '0' :: 'X' :: rest => some rest
  | _ => none

/-- Negation on 64 bits, which overflows at the least value. -/
def negI64 (value : Int) : Option Int := if value = -2 ^ 63 then none else some (-value)

/-- Decimal, or hexadecimal after `0x`; either may be negative. Fails where the
negation overflows. -/
def parseInteger (text : Text) : Option (Option Int) :=
  let text := trim text
  let (negative, digits) :=
    match stripPrefix '-' text with
    | some rest => (true, rest)
    | none => (false, text)
  match stripRadix digits with
  | none => some (i64FromStrRadix 10 text).toOption
  | some hex =>
    match i64FromStrRadix 16 hex with
    | .error _ => some none
    | .ok magnitude => if negative then (negI64 magnitude).map some else some (some magnitude)

def hexDigits (byte : UInt8) : Text :=
  [Nat.digitChar (byte.toNat / 16), Nat.digitChar (byte.toNat % 16)]

/-- A register's bytes as `0x` and two lowercase hexadecimal digits per byte, in
register order. -/
def bytesToHex (bytes : List UInt8) : Text := '0' :: 'x' :: bytes.flatMap hexDigits

def byteLength (text : Text) : Nat := (text.map Char.utf8Size).sum

/-- The text from byte `start` on, if a character starts there. -/
def dropBytes : Nat → Text → Option Text
  | 0, text => some text
  | _ + 1, [] => none
  | start + 1, c :: rest =>
    if c.utf8Size ≤ start + 1 then dropBytes (start + 1 - c.utf8Size) rest else none

/-- The text's first `count` bytes, if they are whole characters. -/
def takeBytes : Nat → Text → Option Text
  | 0, _ => some []
  | _ + 1, [] => none
  | count + 1, c :: rest =>
    if c.utf8Size ≤ count + 1 then (takeBytes (count + 1 - c.utf8Size) rest).map (c :: ·)
    else none

/-- `str::get(start..stop)`. -/
def strGet (text : Text) (start stop : Nat) : Option Text :=
  (dropBytes start text).bind (takeBytes (stop - start))

def u8FromStrRadix (radix : Nat) (text : Text) : Except IntErrorKind UInt8 :=
  match text with
  | [] => .error .empty
  | ['+'] | ['-'] => .error .invalidDigit
  | '+' :: digits => (digitsValue radix 255 .posOverflow 0 digits).map UInt8.ofNat
  | digits => (digitsValue radix 255 .posOverflow 0 digits).map UInt8.ofNat

/-- The digits behind the optional `0x`. -/
def withoutRadix (text : Text) : Text := (stripRadix text).getD text

/-- The inverse of `bytesToHex`; the `0x` is optional. -/
def hexToBytes (text : Text) : Option (List UInt8) :=
  let digits := withoutRadix (trim text)
  if byteLength digits % 2 ≠ 0 then none
  else
    (List.range (byteLength digits / 2)).mapM fun i =>
      (strGet digits (2 * i) (2 * i + 2)).bind fun pair => (u8FromStrRadix 16 pair).toOption

def signed (sign : Text) (magnitude : Nat) : Int :=
  if sign = ['-'] then -(magnitude : Int) else magnitude

def IsSign (sign : Text) : Prop := sign = [] ∨ sign = ['+'] ∨ sign = ['-']

def IsNumeral (radix : Nat) (digits : Text) : Prop :=
  digits ≠ [] ∧ ∀ c ∈ digits, (digitValue radix c).isSome

def InI64 (value : Int) : Prop := -2 ^ 63 ≤ value ∧ value < 2 ^ 63

instance (value : Int) : Decidable (InI64 value) := inferInstanceAs (Decidable (_ ∧ _))

/-- An optional sign and decimal digits, or an optional minus sign, `0x` or `0X`
and hexadecimal digits. -/
inductive DenotesInteger : Text → Int → Prop
  | decimal {sign digits : Text} (hsign : IsSign sign) (hne : digits ≠ [])
      (hdigits : IsDigits digits) :
      DenotesInteger (sign ++ digits) (signed sign (numeral 10 digits))
  | hexadecimal {sign digits : Text} {x : Char} (hsign : sign = [] ∨ sign = ['-'])
      (hx : x = 'x' ∨ x = 'X') (hne : digits ≠ [])
      (hdigits : ∀ c ∈ digits, isHexDigit c = true) :
      DenotesInteger (sign ++ '0' :: x :: digits) (signed sign (numeral 16 digits))

/-- Bytes of two characters each, of which the first is a `First` and the
second a hexadecimal digit. -/
inductive PairsOf (First : Char → Prop) : Text → List UInt8 → Prop
  | nil : PairsOf First [] []
  | cons {high low : Char} {rest : Text} {bytes : List UInt8} (hhigh : First high)
      (hlow : isHexDigit low = true) (hrest : PairsOf First rest bytes) :
      PairsOf First (high :: low :: rest) (UInt8.ofNat (numeral 16 [high, low]) :: bytes)

def IsHexDigit (c : Char) : Prop := isHexDigit c = true

def IsHexDigitOrPlus (c : Char) : Prop := isHexDigit c = true ∨ c = '+'

/-- An integer in hexadecimal, behind a minus sign when it is negative. -/
def hexText (value : Int64) : Text :=
  (if value.toInt < 0 then ['-'] else []) ++ '0' :: 'x' :: Nat.toDigits 16 value.toInt.natAbs

variable {c : Char}

theorem digitValue_sign {radix : Nat} (h : c = '+' ∨ c = '-') :
    digitValue radix c = none := by
  rcases h with rfl | rfl
  all_goals
    simp only [digitValue]
    rw [if_neg (by decide), if_neg (by decide), if_neg (by decide)]
    rfl

theorem digitsValue_ok_iff {radix limit : Nat} (hradix : 0 < radix) {overflow : IntErrorKind}
    {digits : Text} {value : Nat} :
    digitsValue radix limit overflow 0 digits = .ok value ↔
      (∀ c ∈ digits, (digitValue radix c).isSome) ∧ numeral radix digits = value ∧
        value ≤ limit := by
  have hdigits : ∀ {digits : Text} {start : Nat},
      digitsValue radix limit overflow start digits = .ok value →
        ∀ c ∈ digits, (digitValue radix c).isSome := by
    intro digits
    induction digits with
    | nil => simp
    | cons c rest ih =>
      intro start h
      simp only [digitsValue] at h
      cases hc : digitValue radix c with
      | none => simp [hc] at h
      | some digit =>
        simp only [hc] at h
        split at h
        · cases h
        split at h
        · cases h
        · exact List.forall_mem_cons.mpr ⟨by simp [hc], ih h⟩
  constructor
  · intro h
    have hall := hdigits h
    rw [digitsValue_eq hradix hall (Nat.zero_le _)] at h
    split at h
    · cases h
    · rename_i hle
      cases h
      exact ⟨hall, rfl, Nat.le_of_not_lt hle⟩
  · rintro ⟨hall, rfl, hle⟩
    rw [digitsValue_eq hradix hall (Nat.zero_le _)]
    exact if_neg (Nat.not_lt.mpr hle)

variable {sign digits : Text}

theorem i64FromStrRadix_sign {radix : Nat} (hsign : IsSign sign)
    (hne : digits ≠ []) (hfirst : sign = [] → ∀ c, digits.head? = some c → c ≠ '+' ∧ c ≠ '-')
    (value : Int) :
    i64FromStrRadix radix (sign ++ digits) = .ok value ↔
      ∃ magnitude, digitsValue radix (if sign = ['-'] then 2 ^ 63 else 2 ^ 63 - 1)
          (if sign = ['-'] then .negOverflow else .posOverflow) 0 digits = .ok magnitude ∧
        signed sign magnitude = value := by
  obtain ⟨c, rest, rfl⟩ := List.exists_cons_of_ne_nil hne
  have hplain : ∀ result : Except IntErrorKind Nat,
      result.map Int.ofNat = .ok value ↔
        ∃ magnitude, result = .ok magnitude ∧ (magnitude : Int) = value := by
    intro result
    cases result <;> simp [Except.map]
  have hminus : ∀ result : Except IntErrorKind Nat,
      (do let magnitude ← result; pure (magnitude : Int)).map (fun value => -value) = .ok value ↔
        ∃ magnitude, result = .ok magnitude ∧ -(magnitude : Int) = value := by
    intro result
    cases result <;> simp [Except.map, bind, Except.bind, pure, Except.pure]
  rcases hsign with rfl | rfl | rfl
  · obtain ⟨hplus, hdash⟩ := hfirst rfl c rfl
    have hreduce : i64FromStrRadix radix (c :: rest) =
        (digitsValue radix (2 ^ 63 - 1) .posOverflow 0 (c :: rest)).map Int.ofNat := by
      unfold i64FromStrRadix
      split <;> simp_all
    simp only [List.nil_append, hreduce, hplain, signed]
    simp
  · have hreduce : i64FromStrRadix radix (['+'] ++ c :: rest) =
        (digitsValue radix (2 ^ 63 - 1) .posOverflow 0 (c :: rest)).map Int.ofNat := rfl
    simp only [hreduce, hplain, signed]
    simp
  · have hreduce : i64FromStrRadix radix (['-'] ++ c :: rest) =
        (do let magnitude ← digitsValue radix (2 ^ 63) .negOverflow 0 (c :: rest)
            pure (magnitude : Int)).map (fun value => -value) := rfl
    simp only [hreduce, hminus, signed]
    simp

theorem exists_sign (text : Text) : ∃ sign digits, text = sign ++ digits ∧ IsSign sign ∧
    (sign = [] → ∀ c, digits.head? = some c → c ≠ '+' ∧ c ≠ '-') := by
  cases text with
  | nil => exact ⟨[], [], rfl, .inl rfl, by simp⟩
  | cons c rest =>
    by_cases hplus : c = '+'
    · exact ⟨['+'], rest, by simp [hplus], by simp [IsSign], by simp⟩
    by_cases hminus : c = '-'
    · exact ⟨['-'], rest, by simp [hminus], by simp [IsSign], by simp⟩
    · exact ⟨[], c :: rest, rfl, .inl rfl, by simp [hplus, hminus]⟩

theorem i64FromStrRadix_ok_iff {radix : Nat} (hradix : 0 < radix) {text : Text} {value : Int} :
    i64FromStrRadix radix text = .ok value ↔
      ∃ sign digits, text = sign ++ digits ∧ IsSign sign ∧ IsNumeral radix digits ∧
        value = signed sign (numeral radix digits) ∧ InI64 value := by
  constructor
  · intro h
    obtain ⟨sign, digits, rfl, hsign, hfirst⟩ := exists_sign text
    have hne : digits ≠ [] := by
      rintro rfl
      rcases hsign with rfl | rfl | rfl
      all_goals cases h
    obtain ⟨magnitude, hok, rfl⟩ := (i64FromStrRadix_sign hsign hne hfirst value).mp h
    obtain ⟨hall, rfl, hle⟩ := (digitsValue_ok_iff hradix).mp hok
    refine ⟨sign, digits, rfl, hsign, ⟨hne, hall⟩, rfl, ?_⟩
    unfold signed InI64
    split at hle
    · rename_i hminus
      rw [if_pos hminus]
      omega
    · rename_i hminus
      rw [if_neg hminus]
      omega
  · rintro ⟨sign, digits, rfl, hsign, ⟨hne, hall⟩, rfl, hrange⟩
    have hfirst : sign = [] → ∀ c, digits.head? = some c → c ≠ '+' ∧ c ≠ '-' := by
      intro _ c hc
      have hsome := hall c (List.mem_of_mem_head? hc)
      refine ⟨?_, ?_⟩
      · rintro rfl
        simp [digitValue_sign] at hsome
      · rintro rfl
        simp [digitValue_sign] at hsome
    refine (i64FromStrRadix_sign hsign hne hfirst _).mpr ⟨_, ?_, rfl⟩
    refine (digitsValue_ok_iff hradix).mpr ⟨hall, rfl, ?_⟩
    unfold signed InI64 at hrange
    split
    · rename_i hminus
      rw [if_pos hminus] at hrange
      omega
    · rename_i hminus
      rw [if_neg hminus] at hrange
      omega

theorem digitValue_isSome_iff :
    ((digitValue 10 c).isSome ↔ c.isDigit = true) ∧
      ((digitValue 16 c).isSome ↔ isHexDigit c = true) := by
  have hdigit := isDigit_iff c
  refine ⟨⟨fun h => ?_, fun h => by rw [digitValue_decimal h]; rfl⟩,
    ⟨fun h => ?_, digitValue_hex⟩⟩
  · unfold digitValue at h
    simp only [char_le_iff, Char.reduceToNat] at h
    split at h
    · assumption
    · split at h
      · simp [Option.filter] at h
      · split at h
        · simp [Option.filter] at h
        · cases h
  · unfold digitValue at h
    simp only [isHexDigit, Bool.or_eq_true, Bool.and_eq_true, decide_eq_true_eq, char_le_iff,
      Char.reduceToNat] at h ⊢
    split at h
    · simp_all
    · split at h
      · simp [Option.filter] at h
        omega
      · split at h
        · simp [Option.filter] at h
          omega
        · cases h

variable {text hex : Text}

theorem stripRadix_eq_some_iff :
    stripRadix text = some hex ↔ ∃ x, (x = 'x' ∨ x = 'X') ∧ text = '0' :: x :: hex := by
  constructor
  · intro h
    unfold stripRadix at h
    split at h
    · cases h
      exact ⟨'x', .inl rfl, rfl⟩
    · cases h
      exact ⟨'X', .inr rfl, rfl⟩
    · cases h
  · rintro ⟨x, rfl | rfl, rfl⟩
    · rfl
    · rfl

theorem stripPrefix_eq_some_iff {rest : Text} :
    stripPrefix c text = some rest ↔ text = c :: rest := by
  cases text with
  | nil => simp [stripPrefix]
  | cons d more => simp [stripPrefix]

theorem parseInteger_cases (text : Text) :
    (∃ sign x hex, (sign = [] ∨ sign = ['-']) ∧ (x = 'x' ∨ x = 'X') ∧
        trim text = sign ++ '0' :: x :: hex ∧
        parseInteger text =
          match i64FromStrRadix 16 hex with
          | .error _ => some none
          | .ok magnitude =>
            if sign = ['-'] then (negI64 magnitude).map some else some (some magnitude)) ∨
      ((∀ sign x hex, (sign = [] ∨ sign = ['-']) → (x = 'x' ∨ x = 'X') →
          trim text ≠ sign ++ '0' :: x :: hex) ∧
        parseInteger text = some (i64FromStrRadix 10 (trim text)).toOption) := by
  unfold parseInteger
  cases hsign : stripPrefix '-' (trim text) with
  | some rest =>
    have htext := stripPrefix_eq_some_iff.mp hsign
    cases hradix : stripRadix rest with
    | some hex =>
      obtain ⟨x, hx, rfl⟩ := stripRadix_eq_some_iff.mp hradix
      exact .inl ⟨['-'], x, hex, .inr rfl, hx, htext, by simp only [hradix, hsign]⟩
    | none =>
      refine .inr ⟨?_, by simp only [hradix, hsign]⟩
      rintro sign x hex (rfl | rfl) hx heq
      · simp [htext] at heq
      · rw [htext, List.singleton_append, List.cons.injEq] at heq
        simp [stripRadix_eq_some_iff.mpr ⟨x, hx, heq.2⟩] at hradix
  | none =>
    cases hradix : stripRadix (trim text) with
    | some hex =>
      obtain ⟨x, hx, htext⟩ := stripRadix_eq_some_iff.mp hradix
      refine .inl ⟨[], x, hex, .inl rfl, hx, htext, ?_⟩
      simp only [hradix, hsign]
      cases i64FromStrRadix 16 hex with
      | error kind => rfl
      | ok magnitude => simp
    | none =>
      refine .inr ⟨?_, by simp only [hradix, hsign]⟩
      rintro sign x hex (rfl | rfl) hx heq
      · simp [stripRadix_eq_some_iff.mpr ⟨x, hx, heq⟩] at hradix
      · simp [stripPrefix_eq_some_iff.mpr heq] at hsign

/-- The integer texts that the parser gets wrong: a second sign behind `0x`, which
the radix parser takes, and the least value, whose magnitude it refuses. -/
def DoublySigned (text : Text) : Prop :=
  (∃ outer x sign digits, (outer = [] ∨ outer = ['-']) ∧ (x = 'x' ∨ x = 'X') ∧
      (sign = ['+'] ∨ sign = ['-']) ∧ IsNumeral 16 digits ∧
      InI64 (signed sign (numeral 16 digits)) ∧
      text = outer ++ '0' :: x :: (sign ++ digits)) ∨
    ∃ x digits, (x = 'x' ∨ x = 'X') ∧ IsNumeral 16 digits ∧ numeral 16 digits = 2 ^ 63 ∧
      text = '-' :: '0' :: x :: digits

/-- What the text denotes, if it fits 64 bits, is what the parser returns. -/
def ParsesInteger (text : Text) : Prop :=
  ∃ result, parseInteger text = some result ∧
    ∀ value, result = some value ↔ DenotesInteger (trim text) value ∧ InI64 value

theorem isNumeral_ten_iff :
    IsNumeral 10 digits ↔ digits ≠ [] ∧ IsDigits digits := by
  simp only [IsNumeral, IsDigits, digitValue_isSome_iff.1]

theorem isNumeral_sixteen_iff :
    IsNumeral 16 digits ↔ digits ≠ [] ∧ ∀ c ∈ digits, isHexDigit c = true := by
  simp only [IsNumeral, digitValue_isSome_iff.2]

theorem toOption_eq_some_iff {α ε : Type} {result : Except ε α} {value : α} :
    result.toOption = some value ↔ result = .ok value := by
  cases result with
  | error err => simp [Except.toOption]
  | ok inner => simp [Except.toOption]

theorem parsesInteger_of_decimal
    (hshape : ∀ sign x hex, (sign = [] ∨ sign = ['-']) → (x = 'x' ∨ x = 'X') →
      trim text ≠ sign ++ '0' :: x :: hex)
    (hparse : parseInteger text = some (i64FromStrRadix 10 (trim text)).toOption) :
    ParsesInteger text := by
  refine ⟨_, hparse, fun value => ?_⟩
  rw [toOption_eq_some_iff, i64FromStrRadix_ok_iff (by decide)]
  constructor
  · rintro ⟨sign, digits, htext, hsign, hnumeral, rfl, hrange⟩
    obtain ⟨hne, hdigits⟩ := isNumeral_ten_iff.mp hnumeral
    rw [htext]
    exact ⟨.decimal hsign hne hdigits, hrange⟩
  · rintro ⟨hdenotes, hrange⟩
    generalize htext : trim text = whole at hdenotes
    cases hdenotes with
    | decimal hsign hne hdigits =>
      exact ⟨_, _, rfl, hsign, isNumeral_ten_iff.mpr ⟨hne, hdigits⟩, rfl, hrange⟩
    | hexadecimal hsign hx => exact absurd htext (hshape _ _ _ hsign hx)

theorem isNumeral_no_sign {radix : Nat} {inner digits : Text} (hinner : inner = ['+'] ∨ inner = ['-']) :
    ¬ IsNumeral radix (inner ++ digits) := by
  rintro ⟨-, hall⟩
  rcases hinner with rfl | rfl
  · have hplus := hall '+' (by simp)
    rw [digitValue_sign (.inl rfl)] at hplus
    cases hplus
  · have hminus := hall '-' (by simp)
    rw [digitValue_sign (.inr rfl)] at hminus
    cases hminus

variable {x : Char}

theorem denotesInteger_hexadecimal_iff
    (hsign : sign = [] ∨ sign = ['-']) (hx : x = 'x' ∨ x = 'X') {value : Int} :
    DenotesInteger (sign ++ '0' :: x :: hex) value ↔
      IsNumeral 16 hex ∧ value = signed sign (numeral 16 hex) := by
  rw [isNumeral_sixteen_iff]
  constructor
  · intro h
    generalize htext : sign ++ '0' :: x :: hex = text at h
    cases h with
    | @decimal other digits hother hne hdigits =>
      have hmem : x ∈ other ++ digits := by
        rw [← htext]
        simp
      have hnot : x ∉ other ∧ x.isDigit = false := by
        rcases hother with rfl | rfl | rfl
        all_goals
          rcases hx with rfl | rfl
          · exact ⟨by decide, by decide⟩
          · exact ⟨by decide, by decide⟩
      rcases List.mem_append.mp hmem with hmem | hmem
      · exact absurd hmem hnot.1
      · rw [hdigits x hmem] at hnot
        cases hnot.2
    | @hexadecimal other digits y hother hy hne hdigits =>
      have hzero : ('0' : Char) ≠ '-' := by decide
      rcases hsign with rfl | rfl
      · rcases hother with rfl | rfl
        · simp only [List.nil_append, List.cons.injEq] at htext
          obtain ⟨-, rfl, rfl⟩ := htext
          exact ⟨⟨hne, hdigits⟩, rfl⟩
        · simp [hzero] at htext
      · rcases hother with rfl | rfl
        · simp [hzero.symm] at htext
        · simp only [List.singleton_append, List.cons.injEq] at htext
          obtain ⟨-, -, rfl, rfl⟩ := htext
          exact ⟨⟨hne, hdigits⟩, rfl⟩
  · rintro ⟨⟨hne, hdigits⟩, rfl⟩
    exact .hexadecimal hsign hx hne hdigits

theorem doublySigned_iff (hsign : sign = [] ∨ sign = ['-']) (hx : x = 'x' ∨ x = 'X') :
    DoublySigned (sign ++ '0' :: x :: hex) ↔
      (∃ inner digits, (inner = ['+'] ∨ inner = ['-']) ∧ IsNumeral 16 digits ∧
        InI64 (signed inner (numeral 16 digits)) ∧ hex = inner ++ digits) ∨
      (sign = ['-'] ∧ IsNumeral 16 hex ∧ numeral 16 hex = 2 ^ 63) := by
  have hzero : ('0' : Char) ≠ '-' := by decide
  constructor
  · rintro (⟨outer, y, inner, digits, houter, -, hinner, hnumeral, hrange, htext⟩ |
      ⟨y, digits, -, hnumeral, hvalue, htext⟩)
    · refine .inl ⟨inner, digits, hinner, hnumeral, hrange, ?_⟩
      rcases hsign with rfl | rfl
      all_goals
        rcases houter with rfl | rfl
        all_goals simp_all
    · rcases hsign with rfl | rfl
      · simp [hzero] at htext
      · simp only [List.singleton_append, List.cons.injEq] at htext
        obtain ⟨-, -, -, rfl⟩ := htext
        exact .inr ⟨rfl, hnumeral, hvalue⟩
  · rintro (⟨inner, digits, hinner, hnumeral, hrange, rfl⟩ | ⟨rfl, hnumeral, hvalue⟩)
    · exact .inl ⟨sign, x, inner, digits, hsign, hx, hinner, hnumeral, hrange, rfl⟩
    · exact .inr ⟨x, hex, hx, hnumeral, hvalue, rfl⟩

theorem parsesInteger_hexadecimal_iff (hsign : sign = [] ∨ sign = ['-']) (hx : x = 'x' ∨ x = 'X')
    (htext : trim text = sign ++ '0' :: x :: hex)
    (hparse : parseInteger text =
      match i64FromStrRadix 16 hex with
      | .error _ => some none
      | .ok magnitude =>
        if sign = ['-'] then (negI64 magnitude).map some else some (some magnitude)) :
    ParsesInteger text ↔ ¬ DoublySigned (trim text) := by
  have hok := fun value => @i64FromStrRadix_ok_iff 16 (by decide) hex value
  simp only [ParsesInteger, htext, doublySigned_iff hsign hx, denotesInteger_hexadecimal_iff hsign hx,
    hparse]
  cases hread : i64FromStrRadix 16 hex with
  | error kind =>
    have hnone : ∀ sign digits, hex = sign ++ digits → IsSign sign → IsNumeral 16 digits →
        ¬ InI64 (signed sign (numeral 16 digits)) := by
      intro sign digits hsplit hsign hnumeral hrange
      have := (hok _).mpr ⟨sign, digits, hsplit, hsign, hnumeral, rfl, hrange⟩
      rw [hread] at this
      cases this
    constructor
    · rintro ⟨result, hresult, hvalue⟩ (⟨inner, digits, hinner, hnumeral, hrange, hsplit⟩ |
        ⟨rfl, hnumeral, hleast⟩)
      · exact hnone inner digits hsplit (.inr hinner) hnumeral hrange
      · cases hresult
        have hfits : InI64 (signed ['-'] (numeral 16 hex)) := by
          rw [hleast]
          decide
        exact absurd ((hvalue _).mpr ⟨⟨hnumeral, rfl⟩, hfits⟩) (by simp)
    · intro hplain
      refine ⟨none, rfl, fun value => ⟨fun h => absurd h (by simp), ?_⟩⟩
      rintro ⟨⟨hnumeral, rfl⟩, hrange⟩
      have hlarge := hnone [] hex rfl (.inl rfl) hnumeral
      refine absurd (.inr ?_) hplain
      rcases hsign with rfl | rfl
      · exact absurd hrange hlarge
      · refine ⟨rfl, hnumeral, ?_⟩
        simp [signed, InI64] at hlarge hrange
        omega
  | ok magnitude =>
    obtain ⟨inner, digits, rfl, hinner, hnumeral, rfl, hrange⟩ := (hok magnitude).mp hread
    by_cases hempty : inner = []
    · -- the magnitude has no sign of its own
      subst hempty
      have hfits : numeral 16 digits < 2 ^ 63 := by
        simp [signed, InI64] at hrange
        omega
      have hresult : (if sign = ['-'] then (negI64 (signed [] (numeral 16 digits))).map some
          else some (some (signed [] (numeral 16 digits)))) =
          some (some (signed sign (numeral 16 digits))) := by
        rcases hsign with rfl | rfl
        · rfl
        · simp [signed, negI64]
      have hsigned : InI64 (signed sign (numeral 16 digits)) := by
        unfold signed InI64
        split
        · omega
        · omega
      constructor
      · rintro - (⟨other, more, hother, -, -, hsplit⟩ | ⟨-, -, hleast⟩)
        · rw [List.nil_append] at hsplit
          exact isNumeral_no_sign hother (hsplit ▸ hnumeral)
        · rw [List.nil_append] at hleast
          omega
      · intro _
        refine ⟨_, hresult, fun value => ?_⟩
        rw [List.nil_append, Option.some.injEq]
        constructor
        · rintro rfl
          exact ⟨⟨hnumeral, rfl⟩, hsigned⟩
        · rintro ⟨⟨-, rfl⟩, -⟩
          rfl
    · have hsecond : inner = ['+'] ∨ inner = ['-'] := hinner.resolve_left hempty
      have hnot := @isNumeral_no_sign 16 inner digits hsecond
      constructor
      · rintro ⟨result, hresult, hvalue⟩ -
        cases result with
        | none =>
          dsimp only at hresult
          split at hresult
          · simp at hresult
          · simp at hresult
        | some value => exact hnot ((hvalue value).mp rfl).1.1
      · intro hplain
        exact absurd (.inl ⟨inner, digits, hsecond, hnumeral, hrange, rfl⟩) hplain

theorem parsesInteger_iff (text : Text) : ParsesInteger text ↔ ¬ DoublySigned (trim text) := by
  rcases parseInteger_cases text with
    ⟨sign, x, hex, hsign, hx, htext, hparse⟩ | ⟨hshape, hparse⟩
  · exact parsesInteger_hexadecimal_iff hsign hx htext hparse
  · refine ⟨fun _ => ?_, fun _ => parsesInteger_of_decimal hshape hparse⟩
    rintro (⟨outer, x, sign, digits, houter, hx, -, -, -, htext⟩ | ⟨x, digits, hx, -, -, htext⟩)
    · exact hshape outer x (sign ++ digits) houter hx htext
    · exact hshape ['-'] x digits (.inr rfl) hx htext

variable {bytes : List UInt8}

theorem PairsOf.mono {First Other : Char → Prop} (h : ∀ c, First c → Other c)
    (hpairs : PairsOf First text bytes) : PairsOf Other text bytes := by
  induction hpairs with
  | nil => exact .nil
  | cons hhigh hlow _ ih => exact .cons (h _ hhigh) hlow ih

theorem PairsOf.isHexDigit
    (h : PairsOf IsHexDigit text bytes) : ∀ c ∈ text, isHexDigit c = true := by
  induction h with
  | nil => simp
  | cons hhigh hlow _ ih =>
    exact List.forall_mem_cons.mpr ⟨hhigh, List.forall_mem_cons.mpr ⟨hlow, ih⟩⟩

theorem PairsOf.without_plus (h : PairsOf IsHexDigitOrPlus text bytes) (hplus : '+' ∉ text) :
    PairsOf IsHexDigit text bytes := by
  induction h with
  | nil => exact .nil
  | cons hhigh hlow _ ih =>
    simp only [List.mem_cons, not_or] at hplus
    exact .cons (hhigh.resolve_right (Ne.symm hplus.1)) hlow (ih hplus.2.2)

theorem utf8Size_of_isHexDigit (h : isHexDigit c = true) : c.utf8Size = 1 := by
  simp only [isHexDigit, Bool.or_eq_true, Bool.and_eq_true, decide_eq_true_eq, char_le_iff,
    isDigit_iff, Char.reduceToNat] at h
  rw [Char.utf8Size_eq_one_iff, UInt32.le_iff_toNat_le]
  change c.toNat ≤ 127
  omega

theorem u8FromStrRadix_digits {digits : Text} (hne : digits ≠ [])
    (hplus : digits.head? ≠ some '+') (hminus : digits ≠ ['-']) (byte : UInt8) :
    u8FromStrRadix 16 digits = .ok byte ↔
      (∀ c ∈ digits, isHexDigit c = true) ∧ numeral 16 digits ≤ 255 ∧
        byte = UInt8.ofNat (numeral 16 digits) := by
  have hplain : u8FromStrRadix 16 digits =
      (digitsValue 16 255 .posOverflow 0 digits).map UInt8.ofNat := by
    unfold u8FromStrRadix
    split <;> simp_all
  have hok := fun value =>
    @digitsValue_ok_iff 16 255 (by decide) .posOverflow digits value
  simp only [digitValue_isSome_iff.2] at hok
  rw [hplain]
  cases hread : digitsValue 16 255 .posOverflow 0 digits with
  | error kind =>
    simp only [hread] at hok
    refine ⟨fun h => (by cases h), fun h => absurd ((hok _).mpr ⟨h.1, rfl, h.2.1⟩) (by simp)⟩
  | ok value =>
    obtain ⟨hall, rfl, hle⟩ := (hok value).mp hread
    simp only [Except.map, Except.ok.injEq]
    exact ⟨fun h => ⟨hall, hle, h.symm⟩, fun h => h.2.2.symm⟩

variable {high low : Char}

theorem numeral_pair_le (hhigh : IsHexDigitOrPlus high)
    (hlow : isHexDigit low = true) : numeral 16 [high, low] ≤ 255 := by
  rcases hhigh with hhigh | rfl
  · have hlt := (@numeralFrom_hex_lt [high, low] (by simp [hhigh, hlow]) 0).2
    rw [List.length_cons, List.length_singleton] at hlt
    unfold numeral
    omega
  · have hlt := (@numeralFrom_hex_lt [low] (by simp [hlow]) 0).2
    rw [List.length_singleton] at hlt
    have hplus : numeral 16 ['+', low] = numeralFrom 16 0 [low] := by
      simp [numeral, numeralFrom, digitValue_sign]
    omega

theorem u8FromStrRadix_pair {byte : UInt8} :
    u8FromStrRadix 16 [high, low] = .ok byte ↔
      IsHexDigitOrPlus high ∧ isHexDigit low = true ∧
        byte = UInt8.ofNat (numeral 16 [high, low]) := by
  by_cases hplus : high = '+'
  · subst hplus
    have hvalue : numeral 16 ['+', low] = numeral 16 [low] := by
      simp [numeral, numeralFrom, digitValue_sign]
    by_cases hlow : low = '+' ∨ low = '-'
    · have hdigit : ¬ isHexDigit low = true := by
        rcases hlow with rfl | rfl
        · decide
        · decide
      refine ⟨fun h => ?_, fun h => absurd h.2.1 hdigit⟩
      rcases hlow with rfl | rfl
      · cases h
      · cases h
    · have hstrip : u8FromStrRadix 16 ['+', low] = u8FromStrRadix 16 [low] := by
        simp only [not_or] at hlow
        unfold u8FromStrRadix
        simp [hlow.1, hlow.2]
      have hplain := @u8FromStrRadix_digits [low] (by simp)
        (by simp_all) (by simp_all) byte
      rw [hstrip, hplain, hvalue]
      constructor
      · rintro ⟨hall, -, hbyte⟩
        exact ⟨.inr rfl, hall low (by simp), hbyte⟩
      · rintro ⟨hhigh, hdigit, hbyte⟩
        exact ⟨by simpa using hdigit, hvalue ▸ numeral_pair_le hhigh hdigit, hbyte⟩
  · rw [u8FromStrRadix_digits (by simp) (by simpa using hplus) (by simp)]
    constructor
    · rintro ⟨hall, -, hbyte⟩
      exact ⟨.inl (hall high (by simp)), hall low (by simp), hbyte⟩
    · rintro ⟨hhigh, hdigit, hbyte⟩
      refine ⟨?_, numeral_pair_le hhigh hdigit, hbyte⟩
      simpa using ⟨hhigh.resolve_right hplus, hdigit⟩

theorem u8FromStrRadix_singleton {byte : UInt8}
    (h : u8FromStrRadix 16 [c] = .ok byte) : c.utf8Size = 1 := by
  by_cases hsign : c = '+' ∨ c = '-'
  · rcases hsign with rfl | rfl
    · decide
    · decide
  · simp only [not_or] at hsign
    have hall := ((@u8FromStrRadix_digits [c] (by simp) (by simp [hsign])
      (by simp [hsign]) byte).mp h).1
    exact utf8Size_of_isHexDigit (hall c (by simp))

/-- The loop of `hexToBytes` over what is left of the digits. -/
def readPairs (digits : Text) : Option (List UInt8) :=
  (List.range (byteLength digits / 2)).mapM fun i =>
    (strGet digits (2 * i) (2 * i + 2)).bind fun pair => (u8FromStrRadix 16 pair).toOption

theorem IsHexDigitOrPlus.utf8Size (h : IsHexDigitOrPlus c) : c.utf8Size = 1 := by
  rcases h with h | rfl
  · exact utf8Size_of_isHexDigit h
  · decide

theorem readPairs_cons (hhigh : high.utf8Size = 1) (hlow : low.utf8Size = 1) (rest : Text) :
    readPairs (high :: low :: rest) =
      ((u8FromStrRadix 16 [high, low]).toOption.bind fun byte =>
        (readPairs rest).map (byte :: ·)) := by
  have hlength : byteLength (high :: low :: rest) / 2 = byteLength rest / 2 + 1 := by
    simp only [byteLength, List.map_cons, List.sum_cons, hhigh, hlow]
    omega
  have hfirst : strGet (high :: low :: rest) (2 * 0) (2 * 0 + 2) = some [high, low] := by
    simp [strGet, dropBytes, takeBytes, hhigh, hlow]
  have hlater : ∀ i, strGet (high :: low :: rest) (2 * (i + 1)) (2 * (i + 1) + 2) =
      strGet rest (2 * i) (2 * i + 2) := by
    intro i
    have hcount : 2 * (i + 1) + 2 - 2 * (i + 1) = 2 * i + 2 - 2 * i := by omega
    have hstart : 2 * (i + 1) = 2 * i + 1 + 1 := by omega
    rw [strGet, strGet, hcount, hstart, dropBytes, if_pos (by omega), hhigh, Nat.add_sub_cancel,
      dropBytes, if_pos (by omega), hlow, Nat.add_sub_cancel]
  unfold readPairs
  rw [hlength, List.range_succ_eq_map, List.mapM_cons, hfirst, List.mapM_map]
  simp only [Function.comp_def, hlater, Option.bind_some]
  refine congrArg (Option.bind _) (funext fun byte => ?_)
  cases (List.range (byteLength rest / 2)).mapM fun i =>
      (strGet rest (2 * i) (2 * i + 2)).bind fun pair => (u8FromStrRadix 16 pair).toOption with
  | none => rfl
  | some bytes => rfl

theorem readPairs_first (hlong : 2 ≤ byteLength digits) (h : readPairs digits = some bytes) :
    ∃ high low rest, digits = high :: low :: rest ∧ high.utf8Size = 1 ∧ low.utf8Size = 1 := by
  obtain ⟨pair, byte, hpair, hbyte⟩ : ∃ pair byte, takeBytes 2 digits = some pair ∧
      u8FromStrRadix 16 pair = .ok byte := by
    have hcount : byteLength digits / 2 = byteLength digits / 2 - 1 + 1 := by omega
    have hget : strGet digits (2 * 0) (2 * 0 + 2) = takeBytes 2 digits := by
      simp [strGet, dropBytes]
    unfold readPairs at h
    rw [hcount, List.range_succ_eq_map, List.mapM_cons, hget] at h
    cases hpair : takeBytes 2 digits with
    | none => simp [hpair] at h
    | some pair =>
      cases hbyte : u8FromStrRadix 16 pair with
      | error kind => simp [hpair, hbyte, Except.toOption] at h
      | ok byte => exact ⟨pair, byte, rfl, hbyte⟩
  cases digits with
  | nil => simp [byteLength] at hlong
  | cons high rest =>
    have hpos := high.utf8Size_pos
    have hhigh : high.utf8Size = 1 := by
      by_contra hwide
      by_cases htwo : high.utf8Size = 2
      · simp only [takeBytes, htwo, le_refl, if_true, Nat.sub_self, Option.map_some,
          Option.some.injEq] at hpair
        subst hpair
        exact hwide (u8FromStrRadix_singleton hbyte)
      · rw [takeBytes, if_neg (by omega)] at hpair
        cases hpair
    cases rest with
    | nil => simp [byteLength, hhigh] at hlong
    | cons low more =>
      refine ⟨high, low, more, rfl, hhigh, ?_⟩
      have hlowPos := low.utf8Size_pos
      rw [takeBytes, if_pos (by omega), hhigh] at hpair
      by_contra hwide
      rw [Nat.add_sub_cancel, takeBytes, if_neg (by omega)] at hpair
      cases hpair

theorem readPairs_iff (digits : Text) (bytes : List UInt8) :
    byteLength digits % 2 = 0 ∧ readPairs digits = some bytes ↔
      PairsOf IsHexDigitOrPlus digits bytes := by
  constructor
  · induction hsize : digits.length using Nat.strong_induction_on generalizing digits bytes with
    | _ size ih =>
      rintro ⟨heven, hread⟩
      cases digits with
      | nil =>
        cases hread
        exact .nil
      | cons c more =>
        have hlong : 2 ≤ byteLength (c :: more) := by
          have hpos := c.utf8Size_pos
          simp only [byteLength, List.map_cons, List.sum_cons] at heven ⊢
          omega
        obtain ⟨high, low, rest, hdigits, hhigh, hlow⟩ := readPairs_first hlong hread
        rw [hdigits, readPairs_cons hhigh hlow, Option.bind_eq_some_iff] at hread
        obtain ⟨byte, hbyte, hrest⟩ := hread
        obtain ⟨others, hothers, rfl⟩ := Option.map_eq_some_iff.mp hrest
        rw [toOption_eq_some_iff] at hbyte
        obtain ⟨hfirst, hsecond, rfl⟩ := u8FromStrRadix_pair.mp hbyte
        have hshort : rest.length < size := by
          rw [← hsize, hdigits, List.length_cons, List.length_cons]
          omega
        have hrestEven : byteLength rest % 2 = 0 := by
          rw [hdigits] at heven
          simp only [byteLength, List.map_cons, List.sum_cons, hhigh, hlow] at heven ⊢
          omega
        rw [hdigits]
        exact .cons hfirst hsecond (ih _ hshort rest others rfl ⟨hrestEven, hothers⟩)
  · intro h
    induction h with
    | nil => exact ⟨rfl, rfl⟩
    | @cons high low rest bytes hhigh hlow _ ih =>
      have hhighSize := hhigh.utf8Size
      have hlowSize := utf8Size_of_isHexDigit hlow
      refine ⟨?_, ?_⟩
      · have heven := ih.1
        simp only [byteLength, List.map_cons, List.sum_cons, hhighSize, hlowSize] at heven ⊢
        omega
      · rw [readPairs_cons hhighSize hlowSize, u8FromStrRadix_pair.mpr ⟨hhigh, hlow, rfl⟩, ih.2]
        rfl

theorem hexToBytes_iff (text : Text) (bytes : List UInt8) :
    hexToBytes text = some bytes ↔
      PairsOf IsHexDigitOrPlus (withoutRadix (trim text)) bytes := by
  rw [← readPairs_iff]
  change (if byteLength (withoutRadix (trim text)) % 2 ≠ 0 then none
    else readPairs (withoutRadix (trim text))) = some bytes ↔ _
  split
  · rename_i hodd
    exact ⟨fun h => absurd h (by simp), fun h => absurd h.1 hodd⟩
  · rename_i heven
    exact ⟨fun h => ⟨not_not.mp heven, h⟩, fun h => h.2⟩

/-- The bytes a text denotes, two hexadecimal digits each, are what is read from it. -/
def ParsesBytes (text : Text) : Prop :=
  ∀ bytes, hexToBytes text = some bytes ↔ PairsOf IsHexDigit (withoutRadix (trim text)) bytes

/-- Pairs of a digit or a plus and a digit, with a plus among them. -/
def PlusForDigit (text : Text) : Prop :=
  (∃ bytes, PairsOf IsHexDigitOrPlus text bytes) ∧ '+' ∈ text

theorem parsesBytes_iff (text : Text) :
    ParsesBytes text ↔ ¬ PlusForDigit (withoutRadix (trim text)) := by
  simp only [ParsesBytes, hexToBytes_iff]
  constructor
  · rintro h ⟨⟨bytes, hpairs⟩, hplus⟩
    exact absurd (((h bytes).mp hpairs).isHexDigit '+' hplus) (by decide)
  · intro hplain bytes
    refine ⟨fun h => h.without_plus fun hplus => hplain ⟨⟨bytes, h⟩, hplus⟩, fun h => ?_⟩
    exact h.mono fun c hc => .inl hc

theorem digitChar_spec {n : Nat} (h : n < 16) :
    isHexDigit (Nat.digitChar n) = true ∧ digitValue 16 (Nat.digitChar n) = some n := by
  have hall : ∀ n : Fin 16, isHexDigit (Nat.digitChar n) = true ∧
      digitValue 16 (Nat.digitChar n) = some n.val := by decide
  exact hall ⟨n, h⟩

theorem not_space_of_isHexDigit (h : isHexDigit c = true) : isWhitespace c = false := by
  simp only [isHexDigit, Bool.or_eq_true, Bool.and_eq_true, decide_eq_true_eq, char_le_iff,
    isDigit_iff, Char.reduceToNat] at h
  simp only [isWhitespace, decide_eq_false_iff_not]
  omega

theorem trim_of_no_space (h : ∀ c ∈ text, isWhitespace c = false) : trim text = text :=
  trim_tight ⟨fun c hc => h c (List.mem_of_mem_head? hc),
    fun c hc => h c (List.mem_of_mem_getLast? hc)⟩

theorem pairsOf_hexDigits (bytes : List UInt8) :
    PairsOf IsHexDigit (bytes.flatMap hexDigits) bytes := by
  induction bytes with
  | nil => exact .nil
  | cons byte rest ih =>
    have hlt := byte.toNat_lt
    obtain ⟨hhigh, hhighValue⟩ := digitChar_spec (n := byte.toNat / 16) (by omega)
    obtain ⟨hlow, hlowValue⟩ := digitChar_spec (n := byte.toNat % 16) (by omega)
    have hvalue : UInt8.ofNat (numeral 16
        [Nat.digitChar (byte.toNat / 16), Nat.digitChar (byte.toNat % 16)]) = byte := by
      have hsum : byte.toNat / 16 * 16 + byte.toNat % 16 = byte.toNat := by omega
      simp [numeral, numeralFrom, hhighValue, hlowValue, hsum]
    have hpairs : PairsOf IsHexDigit _ _ := .cons hhigh hlow ih
    rw [hvalue] at hpairs
    exact hpairs

theorem hexToBytes_bytesToHex (bytes : List UInt8) :
    hexToBytes (bytesToHex bytes) = some bytes := by
  have hpairs := pairsOf_hexDigits bytes
  have htrim : trim (bytesToHex bytes) = bytesToHex bytes := by
    apply trim_of_no_space
    intro c hc
    rcases List.mem_cons.mp hc with rfl | hc
    · decide
    rcases List.mem_cons.mp hc with rfl | hc
    · decide
    · exact not_space_of_isHexDigit (hpairs.isHexDigit c hc)
  rw [hexToBytes_iff, htrim]
  exact hpairs.mono fun c hc => .inl hc

theorem numeral_toDigits_hex (n : Nat) :
    (∀ c ∈ Nat.toDigits 16 n, isHexDigit c = true) ∧ numeral 16 (Nat.toDigits 16 n) = n := by
  induction n using Nat.strong_induction_on with
  | _ n ih =>
    by_cases hsmall : n < 16
    · obtain ⟨hdigit, hvalue⟩ := digitChar_spec hsmall
      rw [Nat.toDigits_of_lt_base hsmall]
      exact ⟨by simpa using hdigit, by simp [numeral, numeralFrom, hvalue]⟩
    · obtain ⟨hdigits, hvalue⟩ := ih (n / 16) (by omega)
      obtain ⟨hlast, hlastValue⟩ := digitChar_spec (n := n % 16) (by omega)
      rw [Nat.toDigits_of_base_le (by decide) (by omega)]
      refine ⟨?_, ?_⟩
      · intro c hc
        rcases List.mem_append.mp hc with hc | hc
        · exact hdigits c hc
        · rwa [List.mem_singleton.mp hc]
      · unfold numeral at hvalue ⊢
        rw [numeralFrom_append, hvalue]
        simp only [numeralFrom, hlastValue, Option.getD_some]
        omega

theorem parseInteger_of_denotes {value : Int} (hspace : ∀ c ∈ text, isWhitespace c = false)
    (hplain : ¬ DoublySigned text) (hdenotes : DenotesInteger text value) (hrange : InI64 value) :
    parseInteger text = some (some value) := by
  have htrim := trim_of_no_space hspace
  obtain ⟨result, hparse, hvalue⟩ := (parsesInteger_iff text).mpr (by rwa [htrim])
  rw [htrim] at hvalue
  rw [hparse, (hvalue value).mpr ⟨hdenotes, hrange⟩]

theorem inI64_toInt (value : Int64) : InI64 value.toInt :=
  ⟨value.le_toInt, value.toInt_lt⟩

theorem signed_natAbs (value : Int) :
    signed (if value < 0 then ['-'] else []) value.natAbs = value := by
  by_cases hneg : value < 0
  · rw [if_pos hneg, signed, if_pos rfl]
    omega
  · rw [if_neg hneg, signed, if_neg (by simp)]
    omega

theorem parseInteger_decimalText (value : Int64) :
    parseInteger (decimalText value) = some (some value.toInt) := by
  have htext : decimalText value =
      (if value.toInt < 0 then ['-'] else []) ++ Nat.toDigits 10 value.toInt.natAbs := by
    unfold decimalText
    split
    · rfl
    · rfl
  have hdigits := isDigits_toDigits value.toInt.natAbs
  have hchars : ∀ c ∈ decimalText value, c = '-' ∨ c.isDigit = true := by
    rw [htext]
    intro c hc
    rcases List.mem_append.mp hc with hc | hc
    · split at hc
      · exact .inl (List.mem_singleton.mp hc)
      · cases hc
    · exact .inr (hdigits c hc)
  apply parseInteger_of_denotes
  · intro c hc
    rcases hchars c hc with rfl | hdigit
    · decide
    · exact not_space_of_isHexDigit (by simp [isHexDigit, hdigit])
  · have hnot : ∀ x : Char, (x = 'x' ∨ x = 'X') → x ∉ decimalText value := by
      rintro x hx hmem
      rcases hchars x hmem with rfl | hdigit
      · exact absurd hx (by decide)
      · rcases hx with rfl | rfl
        · exact absurd hdigit (by decide)
        · exact absurd hdigit (by decide)
    rintro (⟨outer, x, sign, digits, -, hx, -, -, -, heq⟩ | ⟨x, digits, hx, -, -, heq⟩)
    · exact hnot x hx (by simp [heq])
    · exact hnot x hx (by simp [heq])
  · have hsign : IsSign (if value.toInt < 0 then ['-'] else []) := by
      split
      · exact .inr (.inr rfl)
      · exact .inl rfl
    have hdenotes := DenotesInteger.decimal hsign Nat.toDigits_ne_nil hdigits
    rwa [numeral_toDigits, signed_natAbs, ← htext] at hdenotes
  · exact inI64_toInt value

theorem parseInteger_hexText (value : Int64) :
    parseInteger (hexText value) = some (some value.toInt) ↔ value ≠ Int64.minValue := by
  constructor
  · rintro h rfl
    have hnone : parseInteger (hexText Int64.minValue) = some none := by decide
    rw [hnone] at h
    cases h
  · intro hne
    obtain ⟨hdigits, hvalue⟩ := numeral_toDigits_hex value.toInt.natAbs
    have hsign : (if value.toInt < 0 then ['-'] else []) = [] ∨
        (if value.toInt < 0 then ['-'] else []) = ['-'] := by
      split
      · exact .inr rfl
      · exact .inl rfl
    have hnumeral : IsNumeral 16 (Nat.toDigits 16 value.toInt.natAbs) :=
      isNumeral_sixteen_iff.mpr ⟨Nat.toDigits_ne_nil, hdigits⟩
    apply parseInteger_of_denotes
    · intro c hc
      rcases List.mem_append.mp hc with hc | hc
      · split at hc
        · rw [List.mem_singleton.mp hc]
          decide
        · cases hc
      rcases List.mem_cons.mp hc with rfl | hc
      · decide
      rcases List.mem_cons.mp hc with rfl | hc
      · decide
      · exact not_space_of_isHexDigit (hdigits c hc)
    · rw [hexText, doublySigned_iff hsign (.inl rfl)]
      rintro (⟨inner, digits, hinner, -, -, heq⟩ | ⟨hminus, -, hleast⟩)
      · exact isNumeral_no_sign hinner (heq ▸ hnumeral)
      · rw [hvalue] at hleast
        have hneg : value.toInt < 0 := by
          by_contra hpos
          rw [if_neg hpos] at hminus
          cases hminus
        apply hne
        apply Int64.toInt_inj.mp
        rw [Int64.toInt_minValue]
        omega
    · have hdenotes := DenotesInteger.hexadecimal hsign (.inl rfl) hnumeral.1 hdigits
      rwa [hvalue, signed_natAbs] at hdenotes
    · exact inI64_toInt value

/-- Bytes come back from their text, and integers from theirs but for the least
one in hexadecimal; a text is read as what it denotes unless a sign stands where
a digit should. -/
theorem text_codecs (bytes : List UInt8) (text : Text) (value : Int64) :
    hexToBytes (bytesToHex bytes) = some bytes ∧
      (ParsesBytes text ↔ ¬ PlusForDigit (withoutRadix (trim text))) ∧
      (ParsesInteger text ↔ ¬ DoublySigned (trim text)) ∧
      parseInteger (decimalText value) = some (some value.toInt) ∧
      (parseInteger (hexText value) = some (some value.toInt) ↔ value ≠ Int64.minValue) :=
  ⟨hexToBytes_bytesToHex bytes, parsesBytes_iff text, parsesInteger_iff text,
    parseInteger_decimalText value, parseInteger_hexText value⟩

/-- A plus passes for a digit of a byte, a second sign for one of an integer, whose
negation can overflow, and the least value is refused. -/
theorem signs_pass_for_digits :
    hexToBytes (lit "0x+f") = some [15] ∧
      parseInteger (lit "0x-5") = some (some (-5)) ∧
      parseInteger (lit "-0x-8000000000000000") = none ∧
      parseInteger (lit "-0x8000000000000000") = some none ∧
      ¬ ((∀ bytes, hexToBytes (bytesToHex bytes) = some bytes) ∧ (∀ text, ParsesBytes text) ∧
        (∀ text, ParsesInteger text) ∧
        (∀ value, parseInteger (decimalText value) = some (some value.toInt)) ∧
        ∀ value, parseInteger (hexText value) = some (some value.toInt)) := by
  refine ⟨by decide, by decide, by decide, by decide, ?_⟩
  rintro ⟨-, -, hparses, -, -⟩
  obtain ⟨result, hresult, -⟩ := hparses (lit "-0x-8000000000000000")
  have hnone : parseInteger (lit "-0x-8000000000000000") = none := by decide
  rw [hnone] at hresult
  cases hresult

end VivaGenicam.Genapi
