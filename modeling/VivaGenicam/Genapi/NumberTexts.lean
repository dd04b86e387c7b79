import VivaGenicam.Genapi.ConfigurationText
import VivaGenicam.Genapi.TextCodecs

/-!
One number, several readers: an address, a value and a literal of a formula. Which texts
each of them reads, and which texts they read alike.
-/

namespace VivaGenicam.Genapi

open GenapiXml

/-- The integer that a text is to the formula lexer: one token, and nothing after it. -/
def readInteger (parseF64 : Text → Option Float) (text : Text) : Option Int64 :=
  match Lexer.nextToken parseF64 ⟨asBytes text, 0⟩ with
  | .ok (.int value, after) =>
    match Lexer.nextToken parseF64 after with
    | .ok (.end, _) => some value
    | _ => none
  | _ => none

/-- The bit pattern that hexadecimal digits spell, as an `i64`. -/
def pattern (digits : Text) : Int64 := .ofBitVec (BitVec.ofNat 64 (numeral 16 digits))

def IsHexNumeral (digits : Text) : Prop :=
  digits ≠ [] ∧ ∀ c ∈ digits, isHexDigit c = true

/-- An optional sign and decimal digits, or `0x` and hexadecimal digits. -/
inductive IsNumber : Text → Prop
  | decimal {sign digits : Text} (hsign : IsSign sign) (hne : digits ≠ [])
      (h : IsDigits digits) : IsNumber (sign ++ digits)
  | hexadecimal {digits : Text} (h : IsHexNumeral digits) : IsNumber ('0' :: 'x' :: digits)

/-- A number of a formula, whose hexadecimal prefix may be `0X` as well. -/
inductive IsLiteral : Text → Prop
  | decimal {digits : Text} (hne : digits ≠ []) (h : IsDigits digits) : IsLiteral digits
  | hexadecimal {x : Char} {digits : Text} (hx : x = 'x' ∨ x = 'X') (h : IsHexNumeral digits) :
      IsLiteral ('0' :: x :: digits)

/-- The readers agree on the text, and take it for a number only if it is one. -/
structure ReadAlike (parseF64 : Text → Option Float) (text : Text) : Prop where
  /-- Up to sixteen digits, grouped or not, are their bit pattern to an element. -/
  hexadecimal : ∀ written, trim text = '0' :: 'x' :: written →
    IsHexNumeral (withoutUnderscores written) → (withoutUnderscores written).length ≤ 16 →
    parseAddress text = .ok (pattern (withoutUnderscores written)).toInt ∧
      parseI64 text = .ok (pattern (withoutUnderscores written)).toInt
  /-- They are the same pattern to a formula, which has no groups. -/
  literal : ∀ digits, text = '0' :: 'x' :: digits → IsHexNumeral digits → digits.length ≤ 16 →
    readInteger parseF64 text = some (pattern digits) ∧
      EvaluatesTo parseF64 text (.int (pattern digits))
  decimal : ∀ value : Int64, text = decimalText value →
    parseAddress text = .ok value.toInt ∧ parseI64 text = .ok value.toInt ∧
      EvaluatesTo parseF64 text (.int value)
  refused : ¬ IsNumber (withoutUnderscores (trim text)) →
    (∀ value, parseAddress text ≠ .ok value) ∧ ∀ value, parseI64 text ≠ .ok value
  unlexed : ¬ IsLiteral (trim text) → readInteger parseF64 text = none

def Wide (text : Text) : Prop :=
  ∃ written, trim text = '0' :: 'x' :: written ∧ IsHexNumeral (withoutUnderscores written) ∧
    (withoutUnderscores written).length ≤ 16 ∧
    2 ^ 63 ≤ numeral 16 (withoutUnderscores written)

/-- A sign stands behind `0x`, and the number behind it fits. -/
def SignedInside (text : Text) : Prop :=
  ∃ written digits, trim text = '0' :: 'x' :: written ∧ IsHexNumeral digits ∧
    (withoutUnderscores written = '+' :: digits ∧ numeral 16 digits < 2 ^ 64 ∨
      withoutUnderscores written = '-' :: digits ∧ numeral 16 digits ≤ 2 ^ 63)

def Misread (text : Text) : Prop :=
  Wide text ∨ text = decimalText Int64.minValue ∨ SignedInside text

variable {text : Text}

theorem numberError_eq_ok {α : Type} {expected : String}
    {result : Except IntErrorKind α} {value : α} :
    numberError text expected result = .ok value ↔ result = .ok value := by
  cases result <;> simp [numberError]

theorem stripHex_eq_some_iff {hex : Text} :
    stripHex text = some hex ↔ text = '0' :: 'x' :: hex := by
  constructor
  · intro h
    unfold stripHex at h
    split at h
    · cases h
      rfl
    · cases h
  · rintro rfl
    rfl

variable {written : Text}

theorem parseI64_hexadecimal (h : trim text = '0' :: 'x' :: written) (value : Int) :
    parseI64 text = .ok value ↔
      i64FromStrRadix 16 (withoutUnderscores written) = .ok value := by
  unfold parseI64
  rw [stripHex_eq_some_iff.mpr h]
  exact numberError_eq_ok

theorem parseAddress_hexadecimal (h : trim text = '0' :: 'x' :: written) (value : Int) :
    parseAddress text = .ok value ↔
      ∃ bits, u64FromStrRadix 16 (withoutUnderscores written) = .ok bits ∧ asI64 bits = value := by
  unfold parseAddress parseU64
  rw [trim_trim, stripHex_eq_some_iff.mpr h, if_pos Option.isSome_some]
  dsimp only
  cases u64FromStrRadix 16 (withoutUnderscores written) <;> simp [numberError, Except.map]

theorem parse_decimal (h : stripHex (trim text) = none) (value : Int) :
    (parseI64 text = .ok value ↔ i64FromStrRadix 10 (withoutUnderscores (trim text)) = .ok value) ∧
      (parseAddress text = .ok value ↔
        i64FromStrRadix 10 (withoutUnderscores (trim text)) = .ok value) := by
  unfold parseI64 parseAddress
  rw [h]
  exact ⟨numberError_eq_ok, numberError_eq_ok⟩

variable {digits : Text}

theorem isHexNumeral_iff : IsHexNumeral digits ↔ IsNumeral 16 digits :=
  isNumeral_sixteen_iff.symm

variable {c : Char}

theorem IsHexNumeral.first {rest : Text} (h : IsHexNumeral (c :: rest)) :
    c ≠ '+' ∧ c ≠ '-' := by
  have hc := h.2 c List.mem_cons_self
  refine ⟨?_, ?_⟩
  · rintro rfl
    exact absurd hc (by decide)
  · rintro rfl
    exact absurd hc (by decide)

theorem u64FromStrRadix_ok_iff {value : Nat} :
    u64FromStrRadix 16 text = .ok value ↔
      ∃ sign digits, text = sign ++ digits ∧ (sign = [] ∨ sign = ['+']) ∧
        IsHexNumeral digits ∧ numeral 16 digits = value ∧ value < 2 ^ 64 := by
  have hsome : ∀ digits, digits ≠ [] →
      (digitsValue 16 (2 ^ 64 - 1) .posOverflow 0 digits = .ok value ↔
        IsHexNumeral digits ∧ numeral 16 digits = value ∧ value < 2 ^ 64) := by
    intro digits hne
    rw [digitsValue_ok_iff (by decide), isHexNumeral_iff, IsNumeral]
    constructor
    · rintro ⟨hall, hvalue, hle⟩
      exact ⟨⟨hne, hall⟩, hvalue, by omega⟩
    · rintro ⟨⟨-, hall⟩, hvalue, hlt⟩
      exact ⟨hall, hvalue, by omega⟩
  constructor
  · intro h
    obtain ⟨sign, digits, rfl, hsign, hplain⟩ := exists_sign text
    have hne : digits ≠ [] := by
      rintro rfl
      rcases hsign with rfl | rfl | rfl <;> cases h
    obtain ⟨c, rest, rfl⟩ := List.exists_cons_of_ne_nil hne
    rcases hsign with rfl | rfl | rfl
    · obtain ⟨hplus, hminus⟩ := hplain rfl c rfl
      have hreduce : u64FromStrRadix 16 (c :: rest) =
          digitsValue 16 (2 ^ 64 - 1) .posOverflow 0 (c :: rest) := by
        unfold u64FromStrRadix
        split <;> simp_all
      rw [List.nil_append, hreduce, hsome _ hne] at h
      exact ⟨[], c :: rest, rfl, .inl rfl, h⟩
    · have hreduce : u64FromStrRadix 16 (['+'] ++ c :: rest) =
          digitsValue 16 (2 ^ 64 - 1) .posOverflow 0 (c :: rest) := rfl
      rw [hreduce, hsome _ hne] at h
      exact ⟨['+'], c :: rest, rfl, .inr rfl, h⟩
    · have hreduce : u64FromStrRadix 16 (['-'] ++ c :: rest) =
          digitsValue 16 (2 ^ 64 - 1) .posOverflow 0 ('-' :: c :: rest) := rfl
      rw [hreduce, digitsValue, digitValue_sign (.inr rfl)] at h
      cases h
  · rintro ⟨sign, digits, rfl, hsign, hdigits⟩
    obtain ⟨c, rest, rfl⟩ := List.exists_cons_of_ne_nil hdigits.1.1
    have hreduce : u64FromStrRadix 16 (sign ++ c :: rest) =
        digitsValue 16 (2 ^ 64 - 1) .posOverflow 0 (c :: rest) := by
      rcases hsign with rfl | rfl
      · obtain ⟨hplus, hminus⟩ := hdigits.1.first
        unfold u64FromStrRadix
        split <;> simp_all
      · rfl
    rw [hreduce, hsome _ (List.cons_ne_nil c rest)]
    exact hdigits

theorem withoutUnderscores_hexadecimal (written : Text) :
    withoutUnderscores ('0' :: 'x' :: written) = '0' :: 'x' :: withoutUnderscores written := by
  simp [withoutUnderscores]

theorem withoutUnderscores_of_not_mem (h : ∀ c ∈ text, c ≠ '_') : withoutUnderscores text = text :=
  List.filter_eq_self.mpr fun c hc => by simpa using h c hc

theorem numeral_hex_lt (h : IsHexNumeral digits) (hshort : digits.length ≤ 16) :
    numeral 16 digits < 2 ^ 64 := by
  have hlt := (numeralFrom_hex_lt h.2 0).2
  have hpow : 16 ^ digits.length ≤ 16 ^ 16 := Nat.pow_le_pow_right (by decide) hshort
  rw [Nat.zero_add, Nat.one_mul] at hlt
  rw [numeral]
  omega

theorem parseAddress_of_isHexNumeral
    (h : trim text = '0' :: 'x' :: written) (hdigits : IsHexNumeral (withoutUnderscores written))
    (hshort : (withoutUnderscores written).length ≤ 16) :
    parseAddress text = .ok (pattern (withoutUnderscores written)).toInt := by
  rw [parseAddress_hexadecimal h]
  refine ⟨_, u64FromStrRadix_ok_iff.mpr ⟨[], _, rfl, .inl rfl, hdigits, rfl, ?_⟩, rfl⟩
  exact numeral_hex_lt hdigits hshort

theorem parseI64_of_isHexNumeral
    (h : trim text = '0' :: 'x' :: written) (hdigits : IsHexNumeral (withoutUnderscores written))
    (value : Int) :
    parseI64 text = .ok value ↔ (numeral 16 (withoutUnderscores written) : Int) = value ∧
      numeral 16 (withoutUnderscores written) < 2 ^ 63 := by
  rw [parseI64_hexadecimal h, i64FromStrRadix_ok_iff (by decide)]
  constructor
  · rintro ⟨sign, digits, hsplit, hsign, hnumeral, rfl, hrange⟩
    have hnone : sign = [] := by
      rcases hsign with rfl | rfl | rfl
      · rfl
      · rw [hsplit] at hdigits
        exact absurd rfl hdigits.first.1
      · rw [hsplit] at hdigits
        exact absurd rfl hdigits.first.2
    subst hnone
    rw [List.nil_append] at hsplit
    rw [hsplit]
    have hsigned : signed [] (numeral 16 digits) = (numeral 16 digits : Int) := rfl
    rw [hsigned] at hrange ⊢
    refine ⟨rfl, ?_⟩
    unfold InI64 at hrange
    omega
  · rintro ⟨rfl, hlt⟩
    refine ⟨[], _, rfl, .inl rfl, isHexNumeral_iff.mp hdigits, rfl, ?_⟩
    unfold InI64
    omega

theorem pattern_of_lt (h : numeral 16 digits < 2 ^ 63) :
    (pattern digits).toInt = numeral 16 digits := by
  have hbits : (pattern digits).toInt = (BitVec.ofNat 64 (numeral 16 digits)).toInt := rfl
  rw [hbits, BitVec.toInt_ofNat']
  exact Int.bmod_eq_of_le (by omega) (by omega)

variable {value : Int}

theorem isNumber_of_decimal
    (h : i64FromStrRadix 10 text = .ok value) : IsNumber text := by
  obtain ⟨sign, digits, rfl, hsign, hnumeral, -, -⟩ := (i64FromStrRadix_ok_iff (by decide)).mp h
  obtain ⟨hne, hdigits⟩ := isNumeral_ten_iff.mp hnumeral
  exact .decimal hsign hne hdigits

theorem isNumber_of_parseI64 (h : parseI64 text = .ok value) :
    IsNumber (withoutUnderscores (trim text)) ∨ SignedInside text := by
  cases hstrip : stripHex (trim text) with
  | none => exact .inl (isNumber_of_decimal ((parse_decimal hstrip value).1.mp h))
  | some written =>
    rw [stripHex_eq_some_iff] at hstrip
    obtain ⟨sign, digits, hsplit, hsign, hnumeral, rfl, hrange⟩ :=
      (i64FromStrRadix_ok_iff (by decide)).mp ((parseI64_hexadecimal hstrip value).mp h)
    rw [← isHexNumeral_iff] at hnumeral
    unfold InI64 signed at hrange
    rcases hsign with rfl | rfl | rfl
    · left
      rw [hstrip, withoutUnderscores_hexadecimal, hsplit]
      exact .hexadecimal hnumeral
    · right
      rw [if_neg (by decide)] at hrange
      exact ⟨written, digits, hstrip, hnumeral, .inl ⟨hsplit, by omega⟩⟩
    · right
      rw [if_pos rfl] at hrange
      exact ⟨written, digits, hstrip, hnumeral, .inr ⟨hsplit, by omega⟩⟩

theorem isNumber_of_parseAddress (h : parseAddress text = .ok value) :
    IsNumber (withoutUnderscores (trim text)) ∨ SignedInside text := by
  cases hstrip : stripHex (trim text) with
  | none => exact .inl (isNumber_of_decimal ((parse_decimal hstrip value).2.mp h))
  | some written =>
    rw [stripHex_eq_some_iff] at hstrip
    obtain ⟨bits, hbits, -⟩ := (parseAddress_hexadecimal hstrip value).mp h
    obtain ⟨sign, digits, hsplit, hsign, hnumeral, rfl, hlt⟩ := u64FromStrRadix_ok_iff.mp hbits
    rcases hsign with rfl | rfl
    · left
      rw [hstrip, withoutUnderscores_hexadecimal, hsplit]
      exact .hexadecimal hnumeral
    · exact .inr ⟨written, digits, hstrip, hnumeral, .inl ⟨hsplit, hlt⟩⟩

theorem SignedInside.taken (h : SignedInside text) :
    ¬ IsNumber (withoutUnderscores (trim text)) ∧
      ((∃ value, parseAddress text = .ok value) ∨ ∃ value, parseI64 text = .ok value) := by
  obtain ⟨written, digits, htrim, hdigits, hsign⟩ := h
  refine ⟨?_, ?_⟩
  · rw [htrim, withoutUnderscores_hexadecimal]
    generalize withoutUnderscores written = inner at hsign
    intro hnumber
    generalize htext : '0' :: 'x' :: inner = number at hnumber
    cases hnumber with
    | @decimal sign decimals hsign' hne hdecimals =>
      have hx : 'x' ∈ decimals := by
        rcases hsign' with rfl | rfl | rfl
        · rw [List.nil_append] at htext
          rw [← htext]
          simp
        · simp at htext
        · simp at htext
      exact absurd (hdecimals 'x' hx) (by decide)
    | @hexadecimal hex hhex =>
      simp only [List.cons.injEq, true_and] at htext
      subst htext
      rcases hsign with ⟨rfl, -⟩ | ⟨rfl, -⟩
      · exact hhex.first.1 rfl
      · exact hhex.first.2 rfl
  · rcases hsign with ⟨hsplit, hlt⟩ | ⟨hsplit, hle⟩
    · left
      refine ⟨_, (parseAddress_hexadecimal htrim _).mpr ⟨numeral 16 digits, ?_, rfl⟩⟩
      exact u64FromStrRadix_ok_iff.mpr ⟨['+'], digits, hsplit, .inr rfl, hdigits, rfl, hlt⟩
    · right
      refine ⟨_, (parseI64_hexadecimal htrim _).mpr ((i64FromStrRadix_ok_iff (by decide)).mpr
        ⟨['-'], digits, hsplit, .inr (.inr rfl), isHexNumeral_iff.mp hdigits, rfl, ?_⟩)⟩
      unfold InI64 signed
      rw [if_pos rfl]
      omega

theorem isWhitespace_of_isAsciiWhitespace (h : isAsciiWhitespace c = true) :
    isWhitespace c = true := by
  simp only [isAsciiWhitespace, Bool.or_eq_true, decide_eq_true_eq] at h
  rcases h with (((rfl | rfl) | rfl) | rfl) | rfl
  all_goals decide

theorem IsGap.isWhitespace {gap : Text} (h : IsGap gap) :
    ∀ c ∈ gap, GenapiXml.isWhitespace c = true :=
  fun c hc => isWhitespace_of_isAsciiWhitespace (h c hc)

variable {parseF64 : Text → Option Float}

theorem Spells.isLiteral {value : Int64}
    (h : Spells parseF64 (.int value) text) : IsLiteral text := by
  cases h with
  | printed h =>
    cases h with
    | symbol h => simp [symbols] at h
    | decimal hne hdigits hfits => exact .decimal hne hdigits
  | hexadecimal hx hne hdigits hfits => exact .hexadecimal hx ⟨hne, hdigits⟩

theorem IsLiteral.isIdentByte (h : IsLiteral text) :
    ∀ c ∈ text, Genapi.isIdentByte c = true := by
  have hdigit : ∀ c : Char, c.isDigit = true → Genapi.isIdentByte c = true := by
    intro c hc
    simp [Genapi.isIdentByte, Char.isAlphanum, hc]
  cases h with
  | decimal hne hdigits => exact fun c hc => hdigit c (hdigits c hc)
  | hexadecimal hx hdigits =>
    intro c hc
    rcases List.mem_cons.mp hc with rfl | hc
    · decide
    · rcases List.mem_cons.mp hc with rfl | hc
      · rcases hx with rfl | rfl <;> decide
      · exact isIdentByte_of_isHexDigit (hdigits.2 c hc)

theorem not_space_of_isIdentByte (h : isIdentByte c = true) :
    isWhitespace c = false := by
  simp only [isIdentByte, Char.isAlphanum, Bool.or_eq_true, isAlpha_iff, isDigit_iff,
    decide_eq_true_eq] at h
  rw [Bool.eq_false_iff]
  simp only [isWhitespace, ne_eq, decide_eq_true_eq]
  rcases h with ((h | h) | rfl) | rfl
  · omega
  · omega
  · decide
  · decide

theorem IsLiteral.tight (h : IsLiteral text) : Tight text :=
  ⟨fun c hc => not_space_of_isIdentByte (h.isIdentByte c (List.mem_of_mem_head? hc)),
    fun c hc => not_space_of_isIdentByte (h.isIdentByte c (List.mem_of_mem_getLast? hc))⟩

theorem isLiteral_of_readInteger {value : Int64}
    (h : readInteger parseF64 text = some value) : IsLiteral (trim text) := by
  unfold readInteger at h
  split at h
  · rename_i found after hfirst
    split at h
    · rename_i last hend
      obtain ⟨before, hbefore, hone⟩ := nextToken_sound hfirst
      obtain ⟨behind, hbehind, hnone⟩ := nextToken_sound hend
      rcases hone with ⟨hfalse, -⟩ | ⟨spelled, hne, hrest, hspells⟩
      · cases hfalse
      rcases hnone with ⟨-, hafter, -⟩ | ⟨other, -, -, hother⟩
      · rw [hafter] at hrest
        have hliteral := hspells.isLiteral
        have hascii : IsAscii (asBytes text) := by
          rw [show asBytes text = before ++ spelled ++ behind from hrest]
          exact isAscii_append (isAscii_append (isAscii_gap hbefore) hspells.isAscii)
            (isAscii_gap hbehind)
        rw [asBytes_ascii (isAscii_of_asBytes hascii)] at hrest
        rw [show text = before ++ spelled ++ behind from hrest,
          trim_around hbefore.isWhitespace hbehind.isWhitespace hliteral.tight]
        exact hliteral
      · obtain ⟨c, more, -, hkind⟩ := hother.first
        exfalso
        rcases hkind with ⟨-, ⟨v, hv⟩ | ⟨v, hv⟩⟩ | ⟨-, -, hv⟩ | hv
        · cases hv
        · cases hv
        · cases hv
        · simp [symbols] at hv
    · cases h
  · cases h

theorem readInteger_of_spells {value : Int64}
    (h : Spells parseF64 (.int value) text) : readInteger parseF64 text = some value := by
  have hfirst := @nextToken_complete parseF64 [] text [] (.int value) (by simp [IsGap]) h
    (by simp [Token.EndsBefore]) 0
  rw [List.nil_append, List.append_nil] at hfirst
  have hend := @nextToken_end parseF64 [] (by simp [IsGap]) (0 + ([] : Text).length + text.length)
  unfold readInteger
  rw [asBytes_ascii h.isAscii, hfirst]
  simp only [hend]

theorem decimalText_plain (value : Int64) :
    ∀ c ∈ decimalText value, c = '-' ∨ c.isDigit = true := by
  have hdigits := isDigits_toDigits value.toInt.natAbs
  intro c hc
  unfold decimalText at hc
  split at hc
  · rcases List.mem_cons.mp hc with rfl | hc
    · exact .inl rfl
    · exact .inr (hdigits c hc)
  · exact .inr (hdigits c hc)

theorem parse_decimalText (value : Int64) :
    parseAddress (decimalText value) = .ok value.toInt ∧
      parseI64 (decimalText value) = .ok value.toInt := by
  have hplain := decimalText_plain value
  have htrim : trim (decimalText value) = decimalText value := by
    apply trim_of_no_space
    intro c hc
    rcases hplain c hc with rfl | hdigit
    · decide
    · exact not_space_of_isHexDigit (by simp [isHexDigit, hdigit])
  have hgroups : withoutUnderscores (decimalText value) = decimalText value := by
    apply withoutUnderscores_of_not_mem
    rintro c hc rfl
    rcases hplain '_' hc with hdash | hdigit
    · exact absurd hdash (by decide)
    · exact absurd hdigit (by decide)
  have hstrip : stripHex (decimalText value) = none := by
    rw [Option.eq_none_iff_forall_ne_some]
    intro hex hhex
    rw [stripHex_eq_some_iff] at hhex
    rcases hplain 'x' (by simp [hhex]) with hdash | hdigit
    · exact absurd hdash (by decide)
    · exact absurd hdigit (by decide)
  have hread : i64FromStrRadix 10 (decimalText value) = .ok value.toInt := by
    have htext : decimalText value =
        (if value.toInt < 0 then ['-'] else []) ++ Nat.toDigits 10 value.toInt.natAbs := by
      unfold decimalText
      split <;> rfl
    refine (i64FromStrRadix_ok_iff (by decide)).mpr ⟨_, _, htext, ?_,
      isNumeral_ten_iff.mpr ⟨Nat.toDigits_ne_nil, isDigits_toDigits _⟩, ?_, inI64_toInt value⟩
    · split
      · exact .inr (.inr rfl)
      · exact .inl rfl
    · rw [numeral_toDigits, signed_natAbs]
  rw [← htrim] at hstrip
  have hboth := parse_decimal hstrip value.toInt
  rw [htrim, hgroups] at hboth
  exact ⟨hboth.2.mpr hread, hboth.1.mpr hread⟩

/-- All readers agree on a text exactly when it is no pattern with its highest bit set,
not the least integer, and has no sign behind `0x`. -/
theorem read_alike_iff (parseF64 : Text → Option Float)
    (hparse : parseF64 (Nat.toDigits 10 (2 ^ 63)) = some i64Bound) (text : Text) :
    ReadAlike parseF64 text ↔ ¬ Misread text := by
  constructor
  · rintro halike (⟨written, htrim, hdigits, hshort, hwide⟩ | rfl | hsigned)
    · have hvalue := (halike.hexadecimal written htrim hdigits hshort).2
      have hlt := ((parseI64_of_isHexNumeral htrim hdigits _).mp hvalue).2
      omega
    · have hvalue := (halike.decimal Int64.minValue rfl).2.2
      exact (evaluatesTo_decimalText hparse Int64.minValue).mp hvalue rfl
    · obtain ⟨hnot, htaken⟩ := hsigned.taken
      obtain ⟨haddress, hvalue⟩ := halike.refused hnot
      rcases htaken with ⟨value, htaken⟩ | ⟨value, htaken⟩
      · exact haddress value htaken
      · exact hvalue value htaken
  · intro hread
    simp only [Misread, not_or] at hread
    obtain ⟨hnarrow, hleast, hunsigned⟩ := hread
    refine ⟨?_, ?_, ?_, ?_, ?_⟩
    · intro written htrim hdigits hshort
      have hlt : numeral 16 (withoutUnderscores written) < 2 ^ 63 := by
        by_contra hwide
        exact hnarrow ⟨written, htrim, hdigits, hshort, by omega⟩
      refine ⟨parseAddress_of_isHexNumeral htrim hdigits hshort, ?_⟩
      rw [parseI64_of_isHexNumeral htrim hdigits, pattern_of_lt hlt]
      exact ⟨rfl, hlt⟩
    · rintro digits rfl hdigits hshort
      have hfits := numeral_hex_lt hdigits hshort
      exact ⟨readInteger_of_spells (.hexadecimal (.inl rfl) hdigits.1 hdigits.2 hfits),
        evaluatesTo_hexadecimal (.inl rfl) hdigits.1 hdigits.2 hfits⟩
    · rintro value rfl
      obtain ⟨haddress, hvalue⟩ := parse_decimalText value
      refine ⟨haddress, hvalue, (evaluatesTo_decimalText hparse value).mpr ?_⟩
      rintro rfl
      exact hleast rfl
    · intro hnot
      refine ⟨?_, ?_⟩
      · intro value hvalue
        exact (isNumber_of_parseAddress hvalue).elim hnot hunsigned
      · intro value hvalue
        exact (isNumber_of_parseI64 hvalue).elim hnot hunsigned
    · intro hnot
      rw [Option.eq_none_iff_forall_ne_some]
      intro value hvalue
      exact hnot (isLiteral_of_readInteger hvalue)

theorem read_alike_byte : ReadAlike digitsF64 ['0', 'x', 'F', '_', 'F'] :=
  (read_alike_iff digitsF64 digitsF64_bound ['0', 'x', 'F', '_', 'F']).mpr (by
    have htrim : trim ['0', 'x', 'F', '_', 'F'] = ['0', 'x', 'F', '_', 'F'] := by decide
    rintro (⟨written, hwritten, -, -, hwide⟩ | hleast | ⟨written, digits, hwritten, -, hsign⟩)
    · rw [htrim] at hwritten
      simp only [List.cons.injEq, true_and] at hwritten
      subst hwritten
      exact absurd hwide (by decide)
    · exact absurd hleast (by decide)
    · rw [htrim] at hwritten
      simp only [List.cons.injEq, true_and] at hwritten
      subst hwritten
      rcases hsign with ⟨hplus, -⟩ | ⟨hminus, -⟩
      · simp [withoutUnderscores] at hplus
      · simp [withoutUnderscores] at hminus)

/-- A mask of all bits is -1 to an address and to a formula, and refused as a value. -/
theorem parseI64_refuses_mask : ¬ ∀ text, ReadAlike digitsF64 text := by
  intro h
  have hmask := (h ('0' :: 'x' :: List.replicate 16 'F')).hexadecimal
    (List.replicate 16 'F') (by decide) (by
      refine ⟨by decide, ?_⟩
      intro c hc
      rw [show withoutUnderscores (List.replicate 16 'F') = List.replicate 16 'F' by decide,
        List.mem_replicate] at hc
      rw [hc.2]
      decide) (by decide)
  have hrefused : parseI64 ('0' :: 'x' :: List.replicate 16 'F') =
      .error (.number ('0' :: 'x' :: List.replicate 16 'F') "a hexadecimal integer"
        (.int .posOverflow)) := by
    decide
  rw [hrefused] at hmask
  cases hmask.2

end VivaGenicam.Genapi
