import VivaGenicam.Genapi.FloatRegisters

/-!
A float written is the float read back: what a register holds of a number, and what is
kept of it beside the register.
-/

namespace VivaGenicam.Genapi.FloatRegisters

open GenapiXml Library.Bytes Library.BinaryFloat Narrowing

theorem FloatNode.den_ne_zero (node : FloatNode) {num den : Int}
    (h : node.decl.scale = some (num, den)) : den ≠ 0 := by
  obtain ⟨floats, nodeName, attributes, children, hparsed⟩ := node.parsed
  simp only [parseFloat, Library.FoldM.bind_eq_ok] at hparsed
  obtain ⟨name, -, addressing, -, s, -, hdeclare⟩ := hparsed
  simp only [FloatState.declare, Library.FoldM.bind_eq_ok] at hdeclare
  obtain ⟨finished, -, hdecl⟩ := hdeclare
  have hscale : s.scale = some (num, den) := by
    rw [← h, ← Except.ok.inj hdecl]
  unfold FloatState.scale at hscale
  split at hscale
  · split at hscale
    · cases hscale
    · cases hscale
      assumption
  · cases hscale
    exact one_ne_zero
  · cases hscale

def factor (decl : FloatDecl Number) : ℚ :=
  match decl.scale with
  | some (num, den) => num / den
  | none => 1

def shift (decl : FloatDecl Number) : ℚ :=
  match decl.offset with
  | some offset => offset.rat
  | none => 0

/-- The offset, if there is one, is a number. -/
def OffsetFinite (decl : FloatDecl Number) : Prop :=
  ∀ offset, decl.offset = some offset → offset.toRat? = some offset.rat

theorem rat_eq {number : Number} {value : ℚ} (h : number.toRat? = some value) :
    number.rat = value := by
  rw [Number.rat, h]
  rfl

theorem ratio_finite {num den : Int} (h : den ≠ 0) :
    Number.ratio num den = .finite (num / den) := if_pos h

theorem scaled_eq (node : FloatNode) (raw : Int) :
    (scaled node.decl (.finite raw)).toRat? = some (raw * factor node.decl) := by
  unfold scaled factor
  cases hscale : node.decl.scale with
  | none => simp [Number.toRat?]
  | some scale =>
    dsimp only
    rw [ratio_finite (node.den_ne_zero hscale)]
    rfl

theorem applyScale_eq (node : FloatNode) (hoffset : OffsetFinite node.decl) (raw : Int) :
    (applyScale node.decl (.finite raw)).toRat? =
      some (raw * factor node.decl + shift node.decl) := by
  have hscaled := scaled_eq node raw
  unfold applyScale shift
  cases hdeclared : node.decl.offset with
  | none => rw [add_zero, hscaled]
  | some offset => exact Number.toRat?_add.mpr ⟨_, _, hscaled, hoffset offset hdeclared, rfl⟩

variable {value : Number} {x : ℚ}

theorem shifted_finite {decl : FloatDecl Number} (h : (shifted decl value).toRat? = some x) :
    OffsetFinite decl ∧ value.toRat? = some (x + shift decl) := by
  unfold shifted at h
  unfold shift
  cases hdeclared : decl.offset with
  | none =>
    rw [hdeclared] at h
    exact ⟨fun offset hoffset => (by rw [hdeclared] at hoffset; cases hoffset),
      by rw [add_zero]; exact h⟩
  | some offset =>
    rw [hdeclared] at h
    obtain ⟨q, o, hvalue, hoffset, rfl⟩ := Number.toRat?_sub.mp h
    have hrat := rat_eq hoffset
    refine ⟨fun other hother => ?_, ?_⟩
    · rw [hdeclared] at hother
      cases hother
      rw [hrat, hoffset]
    · dsimp only
      rw [hvalue, hrat, sub_add_cancel]

variable {raw : Number}

theorem rawValue_finite (node : FloatNode)
    (h : rawValue node.decl value = .ok raw) (hraw : raw.toRat? = some x) :
    OffsetFinite node.decl ∧ value.toRat? = some (x * factor node.decl + shift node.decl) := by
  unfold rawValue at h
  unfold factor
  cases hscale : node.decl.scale with
  | none =>
    rw [hscale] at h
    cases h
    rw [mul_one]
    exact shifted_finite hraw
  | some scale =>
    obtain ⟨num, den⟩ := scale
    have hden : (den : ℚ) ≠ 0 := Int.cast_ne_zero.mpr (node.den_ne_zero hscale)
    rw [hscale] at h
    dsimp only at h ⊢
    split at h
    · cases h
    · rename_i hnum
      have hnum' : (num : ℚ) ≠ 0 := Int.cast_ne_zero.mpr hnum
      cases h
      rw [ratio_finite hnum] at hraw
      obtain ⟨y, ratio, hshifted, hratio, rfl⟩ := Number.toRat?_mul.mp hraw
      cases hratio
      obtain ⟨hoffset, hvalue⟩ := shifted_finite hshifted
      refine ⟨hoffset, ?_⟩
      rw [hvalue]
      congr 2
      field_simp

theorem rawValue_applyScale (node : FloatNode) (hoffset : OffsetFinite node.decl) (value : Int)
    (h : rawValue node.decl (applyScale node.decl (.finite value)) = .ok raw) :
    raw.toRat? = some (value : ℚ) := by
  have hread := applyScale_eq node hoffset value
  have hshifted : (shifted node.decl (applyScale node.decl (.finite value))).toRat? =
      some (value * factor node.decl) := by
    unfold shift at hread
    unfold shifted
    cases hdeclared : node.decl.offset with
    | none =>
      rw [hdeclared, add_zero] at hread
      exact hread
    | some offset =>
      rw [hdeclared] at hread
      exact Number.toRat?_sub.mpr ⟨_, _, hread, hoffset offset hdeclared, by ring⟩
  unfold rawValue at h
  unfold factor at hshifted
  cases hscale : node.decl.scale with
  | none =>
    rw [hscale] at h hshifted
    cases h
    rw [hshifted, mul_one]
  | some scale =>
    obtain ⟨num, den⟩ := scale
    have hden : (den : ℚ) ≠ 0 := Int.cast_ne_zero.mpr (node.den_ne_zero hscale)
    rw [hscale] at h hshifted
    dsimp only at h hshifted
    split at h
    · cases h
    · rename_i hnum
      have hnum' : (num : ℚ) ≠ 0 := Int.cast_ne_zero.mpr hnum
      cases h
      rw [ratio_finite hnum]
      refine Number.toRat?_mul.mpr ⟨_, _, hshifted, rfl, ?_⟩
      field_simp

variable {name : Text} {order : ByteOrder} {bytes : List UInt8}

theorem i64ToBytes_ok {value : Int64} {width : Nat}
    (h : i64ToBytes name value width .signed order = .ok bytes) :
    1 ≤ width ∧ width ≤ 8 ∧ bytes.length = width ∧ bytesToI64 name bytes .signed order = .ok value ∧
      -2 ^ (8 * width - 1) ≤ value.toInt ∧ value.toInt < 2 ^ (8 * width - 1) := by
  have hwidth : 1 ≤ width ∧ width ≤ 8 := by
    by_contra hbad
    rw [i64ToBytes, if_pos (by omega)] at h
    cases h
  rw [i64ToBytes_eq name value hwidth.1 hwidth.2] at h
  split at h
  · rename_i hround
    cases h
    have hlength := length_registerBytes order width value.toBitVec.toNat
    have hread := @bytesToI64_eq name (registerBytes order width value.toBitVec.toNat)
      (by omega) (by omega) .signed order
    rw [registerValue_truncated, hlength, hround] at hread
    refine ⟨hwidth.1, hwidth.2, hlength, hread, ?_⟩
    have hpow : 2 ^ (8 * width) = 2 * 2 ^ (8 * width - 1) := by
      rw [← pow_succ', Nat.sub_add_cancel (by omega)]
    have hsmall : 2 ^ (8 * width - 1) ≤ 2 ^ 63 := Nat.pow_le_pow_right (by norm_num) (by omega)
    have hpos : 0 < 2 ^ (8 * width - 1) := Nat.two_pow_pos _
    have hlow := @Int.le_bmod (value.toBitVec.toNat % 2 ^ (8 * width) : Nat) (2 ^ (8 * width))
      (Nat.two_pow_pos _)
    have hhigh := @Int.bmod_lt (value.toBitVec.toNat % 2 ^ (8 * width) : Nat) (2 ^ (8 * width))
      (Nat.two_pow_pos _)
    have hvalue := congrArg Int64.toInt hround
    unfold denotes at hvalue
    dsimp only at hvalue
    revert hlow hhigh hvalue
    generalize Int.bmod (value.toBitVec.toNat % 2 ^ (8 * width) : Nat) (2 ^ (8 * width)) = denoted
    intro hlow hhigh hvalue
    rw [hpow] at hlow hhigh
    have hcast : ((2 ^ (8 * width - 1) : Nat) : Int) = 2 ^ (8 * width - 1) := by push_cast; rfl
    rw [Int64.toInt_ofInt_of_le (by omega) (by omega)] at hvalue
    rw [← hvalue, ← hcast]
    omega
  · cases h

/-- A number within the range of 64-bit floats, if it is one. -/
def Within (value : Number) : Prop :=
  ∀ x, value.toRat? = some x → |x| ≤ Format.double.magnitude (Format.double.top - 1)

def formatOf (len : Nat) : Format := if len = 4 then .single else .double

/-- A scaled register has a raw value for the number, and one of eight bytes has it within
64 bits. -/
def Encodable (decl : FloatDecl Number) (len : Nat) (value : Number) : Prop :=
  decl.encoding = .scaledInteger → ∀ raw, rawValue decl value = .ok raw → raw ≠ .nan ∧
    (len = 8 → ∃ x, raw.toRat? = some x ∧
      -2 ^ 63 ≤ Number.roundAway x ∧ Number.roundAway x < 2 ^ 63)

/-- What a register holds of a number written to it: the number rounded to the register's
words, or within a millionth of one raw step. -/
structure Holds (decl : FloatDecl Number) (len : Nat) (given held : Number) : Prop where
  given_finite : given.toRat? = some given.rat
  held_finite : held.toRat? = some held.rat
  ieee754 : decl.encoding = .ieee754 → held = (formatOf len).rounded given ∧
    ∀ bits other, ((formatOf len).decode bits).toRat? = some other →
      |held.rat - given.rat| ≤ |other - given.rat|
  scaled : decl.encoding = .scaledInteger →
    |held.rat - given.rat| ≤ |factor decl| / 10 ^ 6

theorem f32Max_eq : Format.single.magnitude (Format.single.top - 1) = f32Max := by
  norm_num [Format.magnitude, Format.units, Format.unit, Format.top, Format.single, f32Max]

theorem signBit_single : 2 * Format.single.signBit = 2 ^ (4 * 8) := rfl

theorem signBit_double : 2 * Format.double.signBit = 2 ^ (8 * 8) := rfl

theorem encodeIeee754_ok {len : Nat} (h : encodeIeee754 name value len order = .ok bytes) :
    (len = 4 ∨ len = 8) ∧ bytes = registerBytes order len ((formatOf len).encode value) ∧
      value.toRat? = some value.rat ∧ (len = 4 → |value.rat| ≤ f32Max) := by
  unfold encodeIeee754 at h
  dsimp only at h
  split at h
  · rename_i hfour
    subst hfour
    split at h
    · cases h
    · rename_i hrange
      push Not at hrange
      have hfinite := Number.isFinite_iff.mp (by simpa using hrange.1)
      have hlow := (Number.lt_iff hfinite rfl).not.mp (by simpa using hrange.2.1)
      have hhigh := (Number.lt_iff rfl hfinite).not.mp (by simpa using hrange.2.2)
      exact ⟨.inl rfl, (Except.ok.inj h).symm, hfinite,
        fun _ => abs_le.mpr ⟨not_lt.mp hlow, not_lt.mp hhigh⟩⟩
  · rename_i hother
    split at h
    · rename_i height
      subst height
      split at h
      · cases h
      · rename_i hrange
        have hfinite := Number.isFinite_iff.mp (by simpa using hrange)
        exact ⟨.inr rfl, (Except.ok.inj h).symm, hfinite, fun hfour => absurd hfour hother⟩
    · cases h

theorem decodeIeee754_eq
    (h : bytes.length = 4 ∨ bytes.length = 8) : decodeIeee754 name bytes order =
      .ok ((formatOf bytes.length).decode (registerValue order bytes)) := by
  unfold decodeIeee754 formatOf
  rcases h with h | h
  · rw [if_pos h, if_pos h]
  · rw [if_neg (by omega), if_pos h, if_neg (by omega)]

theorem formatOf_bits {len : Nat} (h : len = 4 ∨ len = 8) :
    2 * (formatOf len).signBit = 2 ^ (len * 8) ∧ 0 < (formatOf len).top := by
  rcases h with rfl | rfl
  · exact ⟨signBit_single, by decide⟩
  · exact ⟨signBit_double, by decide⟩

theorem ieee754_holds {node : FloatNode} {len : Nat}
    (hencoding : node.decl.encoding = .ieee754) (hwithin : Within value)
    (h : node.encodeRegister value len = .ok bytes) :
    bytes.length = len ∧ ∃ held, node.decodeRegister bytes = .ok held ∧
      Holds node.decl len value held := by
  unfold FloatNode.encodeRegister at h
  rw [hencoding] at h
  obtain ⟨hlen, rfl, hfinite, hsingle⟩ := encodeIeee754_ok h
  obtain ⟨hbits, htop⟩ := formatOf_bits hlen
  have hmax : |value.rat| ≤ (formatOf len).magnitude ((formatOf len).top - 1) := by
    unfold formatOf
    split
    · rename_i hfour
      rw [f32Max_eq]
      exact hsingle hfour
    · exact hwithin _ hfinite
  have hlength := length_registerBytes node.decl.byteOrder len ((formatOf len).encode value)
  have hencoded := Format.encode_lt hfinite hmax
  rw [hbits] at hencoded
  obtain ⟨held, hheld, hnearest⟩ := Format.rounded_spec hfinite hmax htop
  have hrat := rat_eq hheld
  refine ⟨hlength, (formatOf len).rounded value, ?_, hfinite, by rw [hheld, hrat], ?_, ?_⟩
  · unfold FloatNode.decodeRegister
    rw [hencoding]
    dsimp only
    rw [decodeIeee754_eq (by rw [hlength]; exact hlen), hlength,
      registerValue_registerBytes _ hencoded]
    rfl
  · intro _
    refine ⟨rfl, fun bits other hother => ?_⟩
    rw [hrat]
    exact hnearest bits other hother
  · intro hscaled
    rw [hencoding] at hscaled
    cases hscaled

theorem toI64_round (h : raw.toRat? = some x) :
    toI64 raw.round = saturate (Number.roundAway x) := by
  cases raw with
  | nan => cases h
  | infinite negative => cases h
  | negativeZero =>
    cases h
    have hzero := Number.roundAway_intCast 0
    rw [Int.cast_zero] at hzero
    rw [hzero]
    rfl
  | finite value =>
    cases h
    rw [Number.round, toI64, truncate_intCast]

theorem encodeFloat_ok {decl : FloatDecl Number} {encoded : Int64}
    (h : encodeFloat decl value = .ok encoded) :
    ∃ raw, rawValue decl value = .ok raw ∧ encoded = toI64 raw.round ∧
      ∀ x, raw.toRat? = some x → |x - Number.roundAway x| ≤ tolerance := by
  obtain ⟨raw, hraw, h⟩ := Library.FoldM.bind_eq_ok.mp h
  dsimp only at h
  split at h
  · cases h
  · rename_i hclose
    refine ⟨raw, hraw, (Except.ok.inj h).symm, fun x hx => ?_⟩
    have hdistance : ((raw.sub raw.round).abs).toRat? = some |x - Number.roundAway x| :=
      Number.toRat?_abs.mpr ⟨_, Number.toRat?_sub.mpr
        ⟨x, _, hx, Number.toRat?_round.mpr ⟨x, hx, rfl⟩, rfl⟩, rfl⟩
    exact not_lt.mp ((Number.lt_iff rfl hdistance).not.mp hclose)

theorem fromNode_ok {α : Type} {result : Except GenApiError α} {value : α} :
    fromNode result = .ok value ↔ result = .ok value := by
  cases result <;> simp [fromNode]

theorem raw_in_range {len : Nat} (hnan : raw ≠ .nan)
    (height : len = 8 → ∃ x, raw.toRat? = some x ∧
      -2 ^ 63 ≤ Number.roundAway x ∧ Number.roundAway x < 2 ^ 63) (hwidth : len ≤ 8)
    (hlow : -2 ^ (8 * len - 1) ≤ (toI64 raw.round).toInt)
    (hhigh : (toI64 raw.round).toInt < 2 ^ (8 * len - 1)) :
    ∃ x, raw.toRat? = some x ∧ -2 ^ 63 ≤ Number.roundAway x ∧ Number.roundAway x < 2 ^ 63 := by
  rcases Nat.eq_or_lt_of_le hwidth with heq | hshort
  · exact height heq
  · have hsmall : (2 : Int) ^ (8 * len - 1) ≤ 2 ^ 55 :=
      pow_le_pow_right₀ (by norm_num) (by omega)
    have hfinite : ∀ x, raw.toRat? = some x →
        -2 ^ 63 ≤ Number.roundAway x ∧ Number.roundAway x < 2 ^ 63 := by
      intro x hx
      rw [toI64_round hx, saturate_toInt] at hlow hhigh
      omega
    cases raw with
    | nan => exact absurd rfl hnan
    | infinite negative =>
      cases negative with
      | true =>
        change -2 ^ (8 * len - 1) ≤ Int64.minValue.toInt at hlow
        rw [Int64.toInt_minValue] at hlow
        omega
      | false =>
        change Int64.maxValue.toInt < 2 ^ (8 * len - 1) at hhigh
        rw [Int64.toInt_maxValue] at hhigh
        omega
    | negativeZero => exact ⟨0, rfl, hfinite 0 rfl⟩
    | finite x => exact ⟨x, rfl, hfinite x rfl⟩

theorem scaled_holds {node : FloatNode} {len : Nat}
    (hencoding : node.decl.encoding = .scaledInteger) (hencodable : Encodable node.decl len value)
    (h : node.encodeRegister value len = .ok bytes) :
    bytes.length = len ∧ ∃ held, node.decodeRegister bytes = .ok held ∧
      Holds node.decl len value held := by
  unfold FloatNode.encodeRegister at h
  rw [hencoding] at h
  obtain ⟨encoded, hencoded, hbytes⟩ := Library.FoldM.bind_eq_ok.mp h
  obtain ⟨raw, hraw, rfl, hclose⟩ := encodeFloat_ok hencoded
  obtain ⟨hnan, height⟩ := hencodable hencoding raw hraw
  obtain ⟨-, hwidth, hlength, hread, hlow, hhigh⟩ := i64ToBytes_ok (fromNode_ok.mp hbytes)
  obtain ⟨x, hx, hxLow, hxHigh⟩ := raw_in_range hnan height hwidth hlow hhigh
  obtain ⟨hoffset, hvalue⟩ := rawValue_finite node hraw hx
  have hencoded : (toI64 raw.round).toInt = Number.roundAway x := by
    rw [toI64_round hx, saturate_toInt]
    omega
  have hheld := applyScale_eq node hoffset (Number.roundAway x)
  refine ⟨hlength, applyScale node.decl (.finite (Number.roundAway x)), ?_, ?_, ?_, ?_, ?_⟩
  · unfold FloatNode.decodeRegister
    rw [hencoding]
    dsimp only
    rw [hread]
    change Except.ok (applyScale node.decl (.finite (toI64 raw.round).toInt)) = _
    rw [hencoded]
  · rw [rat_eq hvalue, hvalue]
  · rw [rat_eq hheld, hheld]
  · intro hieee
    rw [hencoding] at hieee
    cases hieee
  · intro _
    rw [rat_eq hvalue, rat_eq hheld]
    calc
      |Number.roundAway x * factor node.decl + shift node.decl -
          (x * factor node.decl + shift node.decl)|
          = |x - Number.roundAway x| * |factor node.decl| := by
        rw [← abs_mul, ← abs_neg]
        ring_nf
      _ ≤ tolerance * |factor node.decl| :=
        mul_le_mul_of_nonneg_right (hclose x hx) (abs_nonneg _)
      _ = |factor node.decl| / 10 ^ 6 := by
        rw [tolerance]
        ring

theorem encodeRegister_holds {node : FloatNode} {len : Nat}
    (hwithin : Within value) (hencodable : Encodable node.decl len value)
    (h : node.encodeRegister value len = .ok bytes) :
    bytes.length = len ∧ ∃ held, node.decodeRegister bytes = .ok held ∧
      Holds node.decl len value held := by
  cases hencoding : node.decl.encoding with
  | ieee754 => exact ieee754_holds hencoding hwithin h
  | scaledInteger => exact scaled_holds hencoding hencodable h

theorem encodeRegister_decodeRegister {node : FloatNode} {written : List UInt8}
    (hoffset : OffsetFinite node.decl) (hread : node.decodeRegister bytes = .ok value)
    (hwrite : node.encodeRegister value bytes.length = .ok written) : written = bytes := by
  unfold FloatNode.decodeRegister at hread
  unfold FloatNode.encodeRegister at hwrite
  cases hencoding : node.decl.encoding with
  | ieee754 =>
    rw [hencoding] at hread hwrite
    dsimp only at hread hwrite
    have hlen : bytes.length = 4 ∨ bytes.length = 8 := by
      by_contra hother
      push Not at hother
      rw [decodeIeee754, if_neg hother.1, if_neg hother.2] at hread
      cases hread
    obtain ⟨hbits, htop⟩ := formatOf_bits hlen
    rw [decodeIeee754_eq hlen] at hread
    cases hread
    obtain ⟨-, rfl, hfinite, -⟩ := encodeIeee754_ok hwrite
    have hlt := registerValue_lt node.decl.byteOrder bytes
    rw [← hbits] at hlt
    rw [Format.encode_decode hlt (fun hnan => (by rw [hnan] at hfinite; cases hfinite)),
      registerBytes_registerValue]
  | scaledInteger =>
    rw [hencoding] at hread hwrite
    obtain ⟨raw, hraw, hvalue⟩ := Library.FoldM.bind_eq_ok.mp hread
    cases hvalue
    obtain ⟨encoded, hencoded, hbytes⟩ := Library.FoldM.bind_eq_ok.mp hwrite
    obtain ⟨again, hagain, rfl, -⟩ := encodeFloat_ok hencoded
    have hsame := toI64_round (rawValue_applyScale node hoffset raw.toInt hagain)
    rw [Number.roundAway_intCast, saturate_of_toInt] at hsame
    rw [hsame, fromNode_ok] at hbytes
    rw [fromNode_ok] at hraw
    obtain ⟨hpos, hwidth, -⟩ := i64ToBytes_ok hbytes
    obtain ⟨same, hread, hwritten⟩ := i64ToBytes_of_bytesToI64 node.decl.name hpos hwidth .signed
      node.decl.byteOrder
    cases hread.symm.trans hraw
    exact Except.ok.inj (hbytes.symm.trans hwritten)

@[simp] theorem RegisterState.length_read (state : RegisterState) (address len : Nat) :
    (state.read address len).length = len := by
  rw [read, List.length_map, List.length_range]

theorem RegisterState.read_write (state : RegisterState) (address : Nat) (bytes : List UInt8) :
    (state.write address bytes).read address bytes.length = bytes := by
  apply List.ext_getElem?
  intro i
  rcases Nat.lt_or_ge i bytes.length with hi | hi
  · rw [read, List.getElem?_map, List.getElem?_range hi, Option.map_some, write]
    simp [hi]
  · rw [List.getElem?_eq_none hi, List.getElem?_eq_none (by rw [length_read]; exact hi)]

theorem RegisterState.write_read (state : RegisterState) (address len : Nat) :
    (state.write address (state.read address len)).memory = state.memory := by
  funext place
  rw [write]
  dsimp only
  split
  · rename_i hplace
    rcases Nat.lt_or_ge (place - address) len with hi | hi
    · rw [read, List.getElem?_map, List.getElem?_range hi, Option.map_some, Option.getD_some,
        Nat.add_sub_cancel' hplace]
    · rw [List.getElem?_eq_none (by rw [length_read]; exact hi), Option.getD_none]
  · rfl

variable {state : RegisterState}

namespace FloatNode

variable {node : FloatNode} {around : Surroundings} {address len : Nat}

@[simp] theorem noteRead_memory (state : RegisterState) (now : Nat) :
    (node.noteRead state now).memory = state.memory := by
  unfold noteRead
  split <;> rfl

@[simp] theorem noteRead_cache (state : RegisterState) (now : Nat) :
    (node.noteRead state now).cache = state.cache := by
  unfold noteRead
  split <;> rfl

theorem getFloat_spec (hreadable : around.readable = .ok ())
    (hlocation : around.location = .ok (address, len)) (now : Nat) (state : RegisterState) :
    (∃ value, node.mayServe state now = true ∧ state.cache = some value ∧
      node.getFloat around now state = (.ok value, state)) ∨
    ((node.mayServe state now = true → state.cache = none) ∧
      (node.getFloat around now state).1 = node.decodeRegister (state.read address len) ∧
      (node.getFloat around now state).2.memory = state.memory ∧
      ∀ value, (node.getFloat around now state).2.cache = some value →
        state.cache = some value ∨ node.decodeRegister (state.read address len) = .ok value) := by
  have hread : (node.mayServe state now = true → state.cache = none) →
      (if node.mayServe state now then state.cache else none) = none := by
    intro h
    split
    · rename_i hserve
      exact h hserve
    · rfl
  unfold getFloat
  rw [hreadable, hlocation]
  dsimp only
  cases hserved : (if node.mayServe state now then state.cache else none) with
  | some value =>
    refine .inl ⟨value, ?_⟩
    split at hserved
    · rename_i hserve
      exact ⟨hserve, hserved, rfl⟩
    · cases hserved
  | none =>
    refine .inr ⟨fun hserve => (by rwa [if_pos hserve] at hserved), ?_⟩
    dsimp only
    cases hdecode : node.decodeRegister (state.read address len) with
    | error error => exact ⟨rfl, rfl, fun value h => .inl h⟩
    | ok value =>
      refine ⟨rfl, noteRead_memory state now, fun other h => .inr ?_⟩
      dsimp only at h
      split at h
      · cases h
      · cases h
        rfl

theorem read_of_memory {other : RegisterState} (h : other.memory = state.memory)
    (address len : Nat) : other.read address len = state.read address len := by
  rw [RegisterState.read, RegisterState.read, h]

theorem read_written {after : RegisterState} {address len : Nat}
    (hencode : node.encodeRegister value len = .ok bytes)
    (hlength : bytes.length = len) (hmemory : after.memory = (state.write address bytes).memory) :
    after.read address len = bytes := by
  subst hlength
  rw [read_of_memory hmemory, state.read_write]

theorem prepareWrite_ok (h : node.prepareWrite around value = .ok (address, bytes)) :
    ∃ len, around.location = .ok (address, len) ∧ node.encodeRegister value len = .ok bytes := by
  obtain ⟨_, -, h⟩ := Library.FoldM.bind_eq_ok.mp h
  obtain ⟨_, -, h⟩ := Library.FoldM.bind_eq_ok.mp h
  obtain ⟨⟨place, len⟩, hlocation, h⟩ := Library.FoldM.bind_eq_ok.mp h
  obtain ⟨written, hwritten, h⟩ := Library.FoldM.bind_eq_ok.mp h
  cases h
  exact ⟨len, fromNode_ok.mp hlocation, hwritten⟩

/-- A write is refused and changes nothing, or puts the bytes of the value into the
register and keeps the value or nothing. -/
theorem setFloat_spec (now : Nat) (value : Number) (state : RegisterState) :
    (∃ error, node.setFloat around now value state = (.error error, state)) ∨
    ∃ address len bytes after, node.setFloat around now value state = (.ok (), after) ∧
      around.location = .ok (address, len) ∧ node.encodeRegister value len = .ok bytes ∧
      after.memory = (state.write address bytes).memory ∧
      after.cache = if node.keepsWritten then some value else none := by
  unfold setFloat
  cases hprepare : node.prepareWrite around value with
  | error error => exact .inl ⟨error, rfl⟩
  | ok prepared =>
    obtain ⟨address, bytes⟩ := prepared
    obtain ⟨len, hlocation, hencode⟩ := prepareWrite_ok hprepare
    refine .inr ⟨address, len, bytes, _, rfl, hlocation, hencode, ?_, ?_⟩
    · split
      · exact noteRead_memory _ now
      · rfl
    · split
      · exact noteRead_cache _ now
      · rfl

end FloatNode

/-- What is read after a write: what the register holds of the value, and the value itself
where the caching mode keeps it and the cache may still answer. -/
structure ReadBack (node : FloatNode) (around : Surroundings) (value : Number)
    (after : RegisterState) (address len : Nat) (held : Number) : Prop where
  register : node.decodeRegister (after.read address len) = .ok held
  holds : Holds node.decl len value held
  dropped : ∀ later, (node.getFloat around later after.dropped).1 = .ok held
  kept : ∀ later, (node.getFloat around later after).1 =
    .ok (if node.keepsWritten ∧ node.mayServe after later then value else held)

theorem FloatNode.setFloat_readBack {node : FloatNode} {around : Surroundings}
    (hreadable : around.readable = .ok ()) (hwithin : Within value)
    (hencodable : ∀ address len, around.location = .ok (address, len) →
      Encodable node.decl len value) (now : Nat) (state : RegisterState) :
    (∃ error, node.setFloat around now value state = (.error error, state)) ∨
    ∃ after address len held, node.setFloat around now value state = (.ok (), after) ∧
      around.location = .ok (address, len) ∧ ReadBack node around value after address len held := by
  rcases @setFloat_spec node around now value state with hrefused |
    ⟨address, len, bytes, after, hset, hlocation, hencode, hmemory, hcache⟩
  · exact .inl hrefused
  · obtain ⟨hlength, held, hdecode, hholds⟩ :=
      encodeRegister_holds hwithin (hencodable address len hlocation) hencode
    have hread := read_written hencode hlength hmemory
    refine .inr ⟨after, address, len, held, hset, hlocation, by rw [hread]; exact hdecode, hholds,
      fun later => ?_, fun later => ?_⟩
    · rcases @getFloat_spec node around address len hreadable hlocation later after.dropped with
        ⟨_, -, hkept, -⟩ | ⟨-, hget, -⟩
      · cases hkept
      · rw [hget]
        change node.decodeRegister (after.read address len) = _
        rw [hread, hdecode]
    · rcases @getFloat_spec node around address len hreadable hlocation later after with
        ⟨cached, hserve, hkept, hget⟩ | ⟨hnone, hget, -⟩
      · rw [hcache] at hkept
        split at hkept
        · rename_i hkeeps
          cases hkept
          rw [hget, if_pos ⟨hkeeps, hserve⟩]
        · cases hkept
      · rw [hget, hread, hdecode, if_neg]
        rintro ⟨hkeeps, hserve⟩
        have hempty := hnone hserve
        rw [hcache, if_pos hkeeps] at hempty
        cases hempty

inductive Call where
  | get (now : Nat)
  | set (now : Nat) (value : Number)

namespace FloatNode

variable (node : FloatNode) (around : Surroundings)

def call (state : RegisterState) : Call → RegisterState
  | .get now => (node.getFloat around now state).2
  | .set now value => (node.setFloat around now value state).2

/-- What is kept would be written as what the register holds. -/
def Consistent (state : RegisterState) : Prop :=
  ∀ value, state.cache = some value → ∀ address len bytes,
    around.location = .ok (address, len) → node.encodeRegister value len = .ok bytes →
    bytes = state.read address len

variable {node around}

theorem length_encodeRegister {len : Nat}
    (h : node.encodeRegister value len = .ok bytes) : bytes.length = len := by
  unfold encodeRegister at h
  cases hencoding : node.decl.encoding with
  | ieee754 =>
    rw [hencoding] at h
    obtain ⟨-, rfl, -⟩ := encodeIeee754_ok h
    exact length_registerBytes ..
  | scaledInteger =>
    rw [hencoding] at h
    obtain ⟨raw, -, hbytes⟩ := Library.FoldM.bind_eq_ok.mp h
    exact (i64ToBytes_ok (fromNode_ok.mp hbytes)).2.2.1

theorem getFloat_unreadable {error : GenApiError} (h : around.readable = .error error) (now : Nat)
    (state : RegisterState) : node.getFloat around now state = (.error (.node error), state) := by
  unfold getFloat
  rw [h]

theorem consistent_get (hoffset : OffsetFinite node.decl)
    (h : node.Consistent around state) (now : Nat) :
    node.Consistent around (node.getFloat around now state).2 := by
  intro value hvalue address len bytes hlocation hencode
  cases hreadable : around.readable with
  | error error =>
    rw [getFloat_unreadable hreadable] at hvalue ⊢
    exact h value hvalue address len bytes hlocation hencode
  | ok _ =>
    rcases @getFloat_spec node around address len hreadable hlocation now state with
      ⟨_, -, -, hget⟩ | ⟨-, -, hmemory, hcache⟩
    · rw [hget] at hvalue ⊢
      exact h value hvalue address len bytes hlocation hencode
    · rw [read_of_memory hmemory]
      rcases hcache value hvalue with hkept | hread
      · exact h value hkept address len bytes hlocation hencode
      · exact encodeRegister_decodeRegister hoffset hread
          (by rw [RegisterState.length_read]; exact hencode)

theorem consistent_set (h : node.Consistent around state) (now : Nat)
    (written : Number) : node.Consistent around (node.setFloat around now written state).2 := by
  intro value hvalue address len bytes hlocation hencode
  rcases @setFloat_spec node around now written state with ⟨error, hrefused⟩ |
    ⟨place, size, data, after, hset, hplace, hdata, hmemory, hcache⟩
  · rw [hrefused] at hvalue ⊢
    exact h value hvalue address len bytes hlocation hencode
  · rw [hset] at hvalue ⊢
    cases hplace.symm.trans hlocation
    dsimp only at hvalue
    rw [hcache] at hvalue
    split at hvalue
    · cases hvalue
      cases hdata.symm.trans hencode
      exact (read_written hdata (length_encodeRegister hdata) hmemory).symm
    · cases hvalue

variable (node around) in
def after (calls : List Call) (state : RegisterState) : RegisterState :=
  calls.foldl (node.call around) state

theorem consistent_after (hoffset : OffsetFinite node.decl) (calls : List Call)
    (h : node.Consistent around state) :
    node.Consistent around (node.after around calls state) := by
  unfold after
  induction calls generalizing state with
  | nil => exact h
  | cons call rest ih =>
    rw [List.foldl_cons]
    cases call with
    | get now => exact ih (consistent_get hoffset h now)
    | set now value => exact ih (consistent_set h now value)

theorem write_back (hoffset : OffsetFinite node.decl) {next : RegisterState}
    (h : node.Consistent around state) {now : Nat}
    (hget : node.getFloat around now state = (.ok value, next)) (later : Nat) :
    (node.setFloat around later value next).2.memory = state.memory := by
  cases hreadable : around.readable with
  | error error =>
    rw [getFloat_unreadable hreadable] at hget
    cases hget
  | ok _ =>
    cases hlocation : around.location with
    | error error =>
      unfold getFloat at hget
      rw [hreadable, hlocation] at hget
      cases hget
    | ok place =>
      obtain ⟨address, len⟩ := place
      have hspec := @getFloat_spec node around address len hreadable hlocation now state
      rw [hget] at hspec
      have hmemory : next.memory = state.memory := by
        rcases hspec with ⟨_, -, -, hsame⟩ | ⟨-, -, hmemory, -⟩
        · cases hsame
          rfl
        · exact hmemory
      have hback : ∀ bytes, node.encodeRegister value len = .ok bytes →
          bytes = state.read address len := by
        intro bytes hencode
        rcases hspec with ⟨_, -, hcache, hsame⟩ | ⟨-, hread, -, -⟩
        · cases hsame
          exact h value hcache address len bytes hlocation hencode
        · exact encodeRegister_decodeRegister hoffset hread.symm
            (by rw [RegisterState.length_read]; exact hencode)
      rcases @setFloat_spec node around later value next with ⟨error, hrefused⟩ |
        ⟨place, size, bytes, final, hset, hplace, hencode, hfinal, -⟩
      · rw [hrefused]
        exact hmemory
      · cases hplace.symm.trans hlocation
        have hbytes := hback bytes hencode
        rw [← read_of_memory hmemory] at hbytes
        rw [hset, hfinal, hbytes, next.write_read, hmemory]

end FloatNode

/-- A float written to its register is read back from it, rounded to the register's words
or within a millionth of a raw step, once the caches are dropped, and what is read is
written back as it was. -/
theorem written_float_read_back (node : FloatNode) (around : Surroundings)
    (hreadable : around.readable = .ok ()) :
    (∀ (value : Number) (now : Nat) (state : RegisterState), Within value →
      (∀ address len, around.location = .ok (address, len) → Encodable node.decl len value) →
      (∃ error, node.setFloat around now value state = (.error error, state)) ∨
      ∃ after address len held, node.setFloat around now value state = (.ok (), after) ∧
        around.location = .ok (address, len) ∧
        ReadBack node around value after address len held) ∧
    (OffsetFinite node.decl → ∀ (memory : Nat → UInt8) (calls : List Call) (now : Nat) value next,
      node.getFloat around now (node.after around calls ⟨memory, none, none⟩) = (.ok value, next) →
      ∀ later, (node.setFloat around later value next).2.memory =
        (node.after around calls ⟨memory, none, none⟩).memory) := by
  refine ⟨fun value now state hwithin hencodable => ?_, fun hoffset memory calls now value next
    hget later => ?_⟩
  · exact node.setFloat_readBack hreadable hwithin hencodable now state
  · exact FloatNode.write_back hoffset
      (FloatNode.consistent_after hoffset calls fun _ h => (by cases h)) hget later

/-- Numbers as a document spells them; the gain's has none. -/
def plainFloats : Floats Number := ⟨fun _ => none, fun _ => false, fun _ => 0⟩

def gainElements : List Element :=
  [⟨.address, [], some (lit "0x10")⟩, ⟨.length, [], some (lit "2")⟩,
    ⟨.cachable, [], some (lit "WriteThrough")⟩]

def gainDecl : Option (FloatDecl Number) :=
  (parseFloat plainFloats (lit "Float") [("Name", lit "Gain")] gainElements).toOption

theorem gainDecl_isSome : gainDecl.isSome = true := by decide +kernel

theorem ok_of_toOption {ε α : Type} {result : Except ε α} {value : α}
    (h : result.toOption = some value) : result = .ok value := by
  cases result with
  | error error => cases h
  | ok other =>
    cases h
    rfl

def gain : FloatNode where
  decl := gainDecl.get gainDecl_isSome
  parsed := ⟨plainFloats, lit "Float", [("Name", lit "Gain")], gainElements,
    ok_of_toOption (Option.some_get gainDecl_isSome).symm⟩
  register := by decide +kernel
  unshadowed := by decide +kernel

/-- Nothing stands in the way of reading or writing the gain. -/
def unlimited : Surroundings := ⟨.ok (), .ok (), .ok none, .ok none, .ok (16, 2)⟩

def blank : RegisterState := ⟨fun _ => 0, none, none⟩

def nearlyFive : Number := .finite (5 + 1 / 2000000)

theorem set_gain : (gain.setFloat unlimited 0 nearlyFive blank).1 = .ok () :=
  ok_of_toOption (by decide +kernel)

theorem within_nearlyFive : Within nearlyFive := by
  intro x hx
  cases hx
  decide +kernel

theorem written_float_read_back_gain :
    ∃ after held, gain.setFloat unlimited 0 nearlyFive blank = (.ok (), after) ∧
      ReadBack gain unlimited nearlyFive after 16 2 held := by
  have hencodable : ∀ address len, unlimited.location = .ok (address, len) →
      Encodable gain.decl len nearlyFive := by
    intro address len hlocation
    cases hlocation
    intro _ raw hraw
    refine ⟨?_, fun height => absurd height (by norm_num)⟩
    rintro rfl
    exact absurd (congrArg Except.toOption hraw) (by decide +kernel)
  rcases (written_float_read_back gain unlimited rfl).1 nearlyFive 0 blank within_nearlyFive
    hencodable with ⟨error, hrefused⟩ | ⟨after, address, len, held, hset, hlocation, hread⟩
  · have hdone := set_gain
    rw [hrefused] at hdone
    cases hdone
  · cases hlocation
    exact ⟨after, held, hset, hread⟩

/-- What is kept of the gain is the value given, and the register holds another. -/
theorem gain_kept_is_not_read_back :
    (gain.setFloat unlimited 0 nearlyFive blank).1 = .ok () ∧
    (gain.getFloat unlimited 1 (gain.setFloat unlimited 0 nearlyFive blank).2).1 =
      .ok nearlyFive ∧
    (gain.getFloat unlimited 1 (gain.setFloat unlimited 0 nearlyFive blank).2.dropped).1 =
      .ok (.finite 5) ∧ nearlyFive ≠ .finite 5 :=
  ⟨ok_of_toOption (by decide +kernel), ok_of_toOption (by decide +kernel),
    ok_of_toOption (by decide +kernel), by decide +kernel⟩

end VivaGenicam.Genapi.FloatRegisters
