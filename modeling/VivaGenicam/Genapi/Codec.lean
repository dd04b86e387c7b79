import VivaGenicam.Genapi.Conversions

/-!
What the register codec denotes: two's complement of the register's width, of
64 bits for an unsigned register, and a bit field's value the same way.
-/

namespace VivaGenicam.Genapi

open GenapiXml Library.Bytes Library.Bits

/-! ## Plain registers -/

/-- The integer that `bits` bits of value `n` stand for. -/
def denotes (sign : Sign) (bits n : Nat) : Int :=
  match sign with
  | .signed => (n : Int).bmod (2 ^ bits)
  | .unsigned => n

theorem decodeBE_append (first second : List UInt8) :
    decodeBE (first ++ second) = decodeBE first * 256 ^ second.length + decodeBE second := by
  induction second using List.reverseRecOn with
  | nil => simp [decodeBE]
  | append_singleton rest byte ih =>
    rw [← List.append_assoc, decodeBE_append_singleton, decodeBE_append_singleton, ih,
      List.length_append, List.length_singleton, pow_succ]
    ring

theorem decodeBE_replicate_zero (count : Nat) : decodeBE (List.replicate count 0) = 0 := by
  induction count with
  | zero => rfl
  | succ count ih => rw [List.replicate_succ', decodeBE_append_singleton, ih]; rfl

theorem decodeBE_replicate_full (count : Nat) :
    decodeBE (List.replicate count 0xFF) + 1 = 256 ^ count := by
  induction count with
  | zero => rfl
  | succ count ih =>
    have hbyte : (0xFF : UInt8).toNat = 255 := rfl
    rw [List.replicate_succ', decodeBE_append_singleton, pow_succ, ← ih, hbyte]
    omega

variable {bytes : List UInt8}

theorem topBit_iff (hbytes : bytes ≠ []) :
    bytes.headD 0 &&& 0x80 ≠ 0 ↔ 2 ^ (8 * bytes.length - 1) ≤ decodeBE bytes := by
  obtain ⟨byte, rest, rfl⟩ := List.exists_cons_of_ne_nil hbytes
  have hrest := decodeBE_lt rest
  have hbyte : byte.toNat < 256 := byte.toNat_lt
  have hvalue : decodeBE (byte :: rest) = byte.toNat * 256 ^ rest.length + decodeBE rest := by
    have happend := decodeBE_append [byte] rest
    simpa [decodeBE] using happend
  have htop : byte &&& 0x80 ≠ 0 ↔ 128 ≤ byte.toNat := by
    rw [ne_eq, ← UInt8.toNat_inj, UInt8.toNat_and]
    have hmask : ∀ n < 256, n &&& 128 ≠ 0 ↔ 128 ≤ n := by decide +kernel
    exact hmask _ hbyte
  have hpow : 2 ^ (8 * (byte :: rest).length - 1) = 128 * 256 ^ rest.length := by
    have hexp : 8 * (byte :: rest).length - 1 = 7 + 8 * rest.length := by
      rw [List.length_cons]
      omega
    rw [hexp, pow_add, pow_mul]
    norm_num
  rw [List.headD_cons, htop, hpow, hvalue]
  constructor
  · intro h
    calc
      128 * 256 ^ rest.length ≤ byte.toNat * 256 ^ rest.length := Nat.mul_le_mul_right _ h
      _ ≤ byte.toNat * 256 ^ rest.length + decodeBE rest := Nat.le_add_right _ _
  · intro h
    by_contra hlow
    have hle : byte.toNat + 1 ≤ 128 := by omega
    have hmul := Nat.mul_le_mul_right (256 ^ rest.length) hle
    rw [Nat.add_mul, one_mul] at hmul
    omega

variable {bits n : Nat}

theorem bmod_of_top (hbits : 1 ≤ bits) (hn : n < 2 ^ bits) :
    (n : Int).bmod (2 ^ bits) = if 2 ^ (bits - 1) ≤ n then (n : Int) - 2 ^ bits else n := by
  have hhalf : 2 ^ bits = 2 * 2 ^ (bits - 1) := by
    rw [← pow_succ', Nat.sub_add_cancel hbits]
  have hemod : (n : Int) % ((2 ^ bits : Nat) : Int) = n :=
    Int.emod_eq_of_lt (by omega) (by exact_mod_cast hn)
  rw [Int.bmod, hemod]
  push_cast
  have hhalfInt : (2 : Int) ^ bits = 2 * 2 ^ (bits - 1) := by exact_mod_cast hhalf
  have hcast : ((2 : Int) ^ (bits - 1) ≤ n) ↔ 2 ^ (bits - 1) ≤ n := by exact_mod_cast Iff.rfl
  by_cases htop : 2 ^ (bits - 1) ≤ n
  · have := hcast.mpr htop
    rw [if_neg (by omega), if_pos htop]
  · have : ¬(2 : Int) ^ (bits - 1) ≤ n := fun h => htop (hcast.mp h)
    rw [if_pos (by omega), if_neg htop]

theorem bytesToI64_eq (name : Text) {bytes : List UInt8} (hpos : 1 ≤ bytes.length)
    (hwidth : bytes.length ≤ 8) (sign : Sign) (order : ByteOrder) :
    bytesToI64 name bytes sign order =
      .ok (Int64.ofInt (denotes sign (8 * bytes.length) (registerValue order bytes))) := by
  generalize hbe : bigEndian order bytes = be
  have hlen : be.length = bytes.length := by
    subst hbe
    cases order <;> simp [bigEndian]
  have hvalue : registerValue order bytes = decodeBE be := by
    subst hbe
    cases order with
    | little => rw [registerValue, bigEndian, decodeBE_eq, List.reverse_reverse]
    | big => rfl
  have hlt : decodeBE be < 2 ^ (8 * bytes.length) := by
    have hlt := decodeBE_lt be
    rw [hlen] at hlt
    rwa [pow_mul]
  have hne : be ≠ [] := by
    rintro rfl
    simp only [List.length_nil] at hlen
    omega
  have htop := topBit_iff hne
  rw [hlen] at htop
  unfold bytesToI64
  rw [if_neg (by omega), if_neg (by omega)]
  simp only [hbe, hvalue]
  by_cases hneg : sign = .signed ∧ be.headD 0 &&& 0x80 ≠ 0
  · obtain ⟨rfl, hbit⟩ := hneg
    have hfull := decodeBE_replicate_full (8 - bytes.length)
    have hsplit : 256 ^ (8 - bytes.length) * 256 ^ bytes.length = 2 ^ 64 := by
      rw [← pow_add, Nat.sub_add_cancel hwidth]
      norm_num
    have hpow : (256 : Nat) ^ bytes.length = 2 ^ (8 * bytes.length) := by
      rw [pow_mul]
      norm_num
    have hsum : decodeBE (List.replicate (8 - bytes.length) 0xFF ++ be) +
        2 ^ (8 * bytes.length) = 2 ^ 64 + decodeBE be := by
      rw [decodeBE_append, hlen, ← hpow, ← hsplit, ← hfull]
      ring
    rw [if_pos ⟨rfl, hbit⟩, denotes, bmod_of_top (by omega) hlt, if_pos (htop.mp hbit)]
    congr 1
    rw [← Int64.toInt_inj, Int64.toInt_ofNat', Int64.toInt_ofInt]
    have hsumInt : (decodeBE (List.replicate (8 - bytes.length) 0xFF ++ be) : Int) =
        (decodeBE be : Int) - 2 ^ (8 * bytes.length) + (Int64.size : Nat) := by
      have hcast : (decodeBE (List.replicate (8 - bytes.length) 0xFF ++ be) : Int) +
          2 ^ (8 * bytes.length) = 2 ^ 64 + decodeBE be := by exact_mod_cast hsum
      have hsize : ((Int64.size : Nat) : Int) = 2 ^ 64 := by norm_num [Int64.size]
      rw [hsize]
      omega
    rw [hsumInt, Int.add_bmod_right]
  · rw [if_neg hneg, decodeBE_append, decodeBE_replicate_zero, zero_mul, zero_add,
      ← Int64.ofInt_eq_ofNat]
    cases sign with
    | unsigned => rfl
    | signed =>
      have hlow : ¬2 ^ (8 * bytes.length - 1) ≤ decodeBE be := fun h =>
        hneg ⟨rfl, htop.mpr h⟩
      rw [denotes, bmod_of_top (by omega) hlt, if_neg hlow]

/-- The integers a register of `bits` bits can hold; one of 64 holds them all. -/
def Representable (sign : Sign) (bits : Nat) (x : Int64) : Prop :=
  match sign with
  | .signed => -(2 ^ (bits - 1)) ≤ x.toInt ∧ x.toInt < 2 ^ (bits - 1)
  | .unsigned => bits = 64 ∨ 0 ≤ x.toInt ∧ x.toInt < 2 ^ bits

theorem toInt_ofBits (x : Int64) : x.toInt = (x.toBitVec.toNat : Int).bmod (2 ^ 64) :=
  BitVec.toInt_eq_toNat_bmod _

variable {width : Nat}

theorem drop_encodeBE (hwidth : width ≤ 8) (value : Nat) :
    (encodeBE 8 value).drop (8 - width) = encodeBE width value := by
  have htake : ∀ (total keep value : Nat), keep ≤ total →
      (encodeLE total value).take keep = encodeLE keep value := by
    intro total keep
    induction total generalizing keep with
    | zero =>
      intro value hle
      obtain rfl := Nat.le_zero.mp hle
      rfl
    | succ total ih =>
      intro value hle
      cases keep with
      | zero => rfl
      | succ keep => rw [encodeLE, encodeLE, List.take_succ_cons, ih keep _ (by omega)]
  rw [encodeBE_eq, encodeBE_eq, ← htake 8 width value hwidth, List.drop_reverse]
  congr 2
  rw [length_encodeLE]
  omega

theorem bigEndian_encodeBE (order : ByteOrder) (width value : Nat) :
    bigEndian order (encodeBE width value) = registerBytes order width value := by
  cases order with
  | big => rfl
  | little => rw [bigEndian, registerBytes, encodeBE_eq, List.reverse_reverse]

theorem registerValue_truncated (order : ByteOrder) (len value : Nat) :
    registerValue order (registerBytes order len value) = value % 2 ^ (8 * len) := by
  have hpow : (256 : Nat) ^ len = 2 ^ (8 * len) := by
    rw [pow_mul]
    norm_num
  cases order with
  | little => rw [registerValue, registerBytes, decodeLE_encodeLE, hpow]
  | big => rw [registerValue, registerBytes, decodeBE_encodeBE, hpow]

theorem roundtrip_iff (sign : Sign) (hpos : 1 ≤ bits) (hbits : bits ≤ 64)
    (x : Int64) : Int64.ofInt (denotes sign bits (x.toBitVec.toNat % 2 ^ bits)) = x ↔
      Representable sign bits x := by
  have hx := toInt_ofBits x
  have hlow := Int64.le_toInt x
  have hhigh := Int64.toInt_lt x
  have hdvd : (2 : Nat) ^ bits ∣ 2 ^ 64 := pow_dvd_pow 2 hbits
  have hhalf : (2 : Nat) ^ bits = 2 * 2 ^ (bits - 1) := by
    rw [← pow_succ', Nat.sub_add_cancel hpos]
  have htop : (2 : Nat) ^ (bits - 1) ≤ 2 ^ 63 := Nat.pow_le_pow_right (by decide) (by omega)
  have hhalfInt : (2 : Int) ^ (bits - 1) ≤ 2 ^ 63 := by exact_mod_cast htop
  cases sign with
  | signed =>
    have hdenotes : denotes .signed bits (x.toBitVec.toNat % 2 ^ bits) =
        x.toInt.bmod (2 ^ bits) := by
      rw [hx, Int.bmod_bmod_of_dvd hdvd, denotes, Int.natCast_mod, Int.emod_bmod]
    have hrange := @Int.le_bmod x.toInt (2 ^ bits) (by positivity)
    have hrange' := @Int.bmod_lt x.toInt (2 ^ bits) (by positivity)
    have hbound : -(2 ^ (bits - 1) : Int) ≤ x.toInt.bmod (2 ^ bits) ∧
        x.toInt.bmod (2 ^ bits) < 2 ^ (bits - 1) := by
      rw [hhalf] at hrange hrange' ⊢
      push_cast at hrange hrange' ⊢
      omega
    rw [hdenotes, ← Int64.toInt_inj, Int64.toInt_ofInt_of_le (by omega) (by omega)]
    constructor
    · intro heq
      rw [heq] at hbound
      exact hbound
    · rintro ⟨hge, hlt⟩
      apply Int.bmod_eq_of_le
      · rw [hhalf]
        push_cast
        omega
      · rw [hhalf]
        push_cast
        omega
  | unsigned =>
    by_cases hfull : bits = 64
    · subst hfull
      have hall : Int64.ofInt (denotes .unsigned 64 (x.toBitVec.toNat % 2 ^ 64)) = x := by
        rw [← Int64.toInt_inj, Int64.toInt_ofInt, hx, denotes,
          Nat.mod_eq_of_lt (BitVec.isLt x.toBitVec)]
        rfl
      exact iff_of_true hall (.inl rfl)
    · have hnarrow : (2 : Nat) ^ bits ≤ 2 ^ 63 := Nat.pow_le_pow_right (by decide) (by omega)
      have hmod : x.toBitVec.toNat % 2 ^ bits < 2 ^ bits := Nat.mod_lt _ (by positivity)
      have hmodInt : ((x.toBitVec.toNat % 2 ^ bits : Nat) : Int) = x.toInt % 2 ^ bits := by
        have hcong : x.toInt % ((2 ^ bits : Nat) : Int) =
            (x.toBitVec.toNat : Int) % ((2 ^ bits : Nat) : Int) := by
          rw [hx]
          have hemod := @Int.bmod_emod (x.toBitVec.toNat : Int) (2 ^ 64)
          have hdvdInt : ((2 ^ bits : Nat) : Int) ∣ ((2 ^ 64 : Nat) : Int) := by
            exact_mod_cast hdvd
          rw [← Int.emod_emod_of_dvd _ hdvdInt, hemod, Int.emod_emod_of_dvd _ hdvdInt]
        rw [Int.natCast_mod, ← hcong]
        push_cast
        rfl
      rw [denotes, ← Int64.toInt_inj, Int64.toInt_ofInt_of_le (by omega) (by omega), hmodInt]
      simp only [Representable, hfull, false_or]
      have hposInt : (0 : Int) < 2 ^ bits := by positivity
      constructor
      · intro heq
        rw [← heq]
        exact ⟨Int.emod_nonneg _ (by omega), Int.emod_lt_of_pos _ hposInt⟩
      · rintro ⟨hge, hlt⟩
        exact Int.emod_eq_of_lt hge hlt

variable (name : Text)

theorem i64ToBytes_eq (x : Int64) (hpos : 1 ≤ width)
    (hwidth : width ≤ 8) (sign : Sign) (order : ByteOrder) :
    i64ToBytes name x width sign order =
      if Int64.ofInt (denotes sign (8 * width) (x.toBitVec.toNat % 2 ^ (8 * width))) = x then
        .ok (registerBytes order width x.toBitVec.toNat)
      else .error (.range name (.int x) .unrepresentable) := by
  have hread := @bytesToI64_eq name (registerBytes order width x.toBitVec.toNat)
    (by rw [length_registerBytes]; exact hpos) (by rw [length_registerBytes]; exact hwidth)
    sign order
  rw [length_registerBytes, registerValue_truncated] at hread
  unfold i64ToBytes
  rw [if_neg (by omega)]
  simp only [drop_encodeBE hwidth, bigEndian_encodeBE, hread]
  split
  · rename_i heq
    simp only [bind, Except.bind, heq, ne_eq, not_true, if_false]
  · rename_i hne
    simp only [bind, Except.bind, ne_eq, hne, not_false_eq_true, if_true]

theorem toNat_ofInt_denotes (sign : Sign) (hbits : bits ≤ 64) (hn : n < 2 ^ bits) :
    (Int64.ofInt (denotes sign bits n)).toBitVec.toNat % 2 ^ bits = n := by
  have hdvd : (2 : Nat) ^ bits ∣ 2 ^ 64 := pow_dvd_pow 2 hbits
  have hdvdInt : ((2 ^ bits : Nat) : Int) ∣ ((2 ^ 64 : Nat) : Int) := by exact_mod_cast hdvd
  have hemod : denotes sign bits n % ((2 ^ bits : Nat) : Int) = n := by
    have hself : (n : Int) % ((2 ^ bits : Nat) : Int) = n :=
      Int.emod_eq_of_lt (by omega) (by exact_mod_cast hn)
    cases sign with
    | signed => rw [denotes, Int.bmod_emod, hself]
    | unsigned => rw [denotes, hself]
  have hnat : ((Int64.ofInt (denotes sign bits n)).toBitVec.toNat : Int) =
      denotes sign bits n % ((2 ^ 64 : Nat) : Int) := by
    rw [Int64.toBitVec_ofInt, BitVec.toNat_ofInt]
    exact Int.toNat_of_nonneg (Int.emod_nonneg _ (by decide))
  have hcast : (((Int64.ofInt (denotes sign bits n)).toBitVec.toNat % 2 ^ bits : Nat) : Int) =
      (n : Int) := by
    rw [Int.natCast_mod, hnat, Int.emod_emod_of_dvd _ hdvdInt, hemod]
  exact_mod_cast hcast

theorem i64ToBytes_of_bytesToI64 (hpos : 1 ≤ bytes.length)
    (hwidth : bytes.length ≤ 8) (sign : Sign) (order : ByteOrder) :
    ∃ x, bytesToI64 name bytes sign order = .ok x ∧
      i64ToBytes name x bytes.length sign order = .ok bytes := by
  refine ⟨_, bytesToI64_eq name hpos hwidth sign order, ?_⟩
  have hlt : registerValue order bytes < 2 ^ (8 * bytes.length) := by
    rw [mul_comm]
    exact registerValue_lt order bytes
  have hbits := toNat_ofInt_denotes sign (show 8 * bytes.length ≤ 64 by omega) hlt
  rw [i64ToBytes_eq name _ hpos hwidth, hbits, if_pos rfl]
  congr 1
  have hvalue := registerValue_truncated order bytes.length
    (Int64.ofInt (denotes sign (8 * bytes.length) (registerValue order bytes))).toBitVec.toNat
  have hback := registerBytes_registerValue order (registerBytes order bytes.length
    (Int64.ofInt (denotes sign (8 * bytes.length) (registerValue order bytes))).toBitVec.toNat)
  rw [length_registerBytes, hvalue, hbits, registerBytes_registerValue] at hback
  exact hback.symm

/-! ## Bit fields -/

theorem toInt_signExtend (hpos : 1 ≤ bits) (hbits : bits ≤ 64)
    (hn : n < 2 ^ bits) : (signExtend n bits).toInt = (n : Int).bmod (2 ^ bits) := by
  have hn64 : n < 2 ^ 64 := lt_of_lt_of_le hn (Nat.pow_le_pow_right (by decide) hbits)
  have hsplit : (2 : Nat) ^ bits * 2 ^ (64 - bits) = 2 ^ 64 := by
    rw [← pow_add, Nat.add_sub_cancel' hbits]
  have hhalf : (2 : Nat) ^ bits = 2 * 2 ^ (bits - 1) := by
    rw [← pow_succ', Nat.sub_add_cancel hpos]
  have hint : (signExtend n bits).toInt =
      ((BitVec.ofNat 64 n <<< (64 - bits)).sshiftRight (64 - bits)).toInt := rfl
  have hshifted : (BitVec.ofNat 64 n <<< (64 - bits)).toInt =
      (n : Int).bmod (2 ^ bits) * 2 ^ (64 - bits) := by
    rw [BitVec.toInt_shiftLeft, BitVec.toNat_ofNat, Nat.mod_eq_of_lt hn64, Nat.shiftLeft_eq,
      Int.bmod_eq_iff (by decide)]
    have hlow := @Int.le_bmod (n : Int) (2 ^ bits) (by positivity)
    have hhigh := @Int.bmod_lt (n : Int) (2 ^ bits) (by positivity)
    have hbound : -(2 ^ (bits - 1) : Int) ≤ (n : Int).bmod (2 ^ bits) ∧
        (n : Int).bmod (2 ^ bits) < 2 ^ (bits - 1) := by
      rw [hhalf] at hlow hhigh ⊢
      push_cast at hlow hhigh ⊢
      omega
    have hunit : (0 : Int) < 2 ^ (64 - bits) := by positivity
    have htop : (2 : Int) ^ (bits - 1) * 2 ^ (64 - bits) = 2 ^ 63 := by
      rw [← pow_add]
      congr 1
      omega
    refine ⟨?_, ?_, ?_⟩
    · have hmul := mul_le_mul_of_nonneg_right hbound.1 (le_of_lt hunit)
      rw [neg_mul, htop] at hmul
      norm_num
      omega
    · have hmul := mul_lt_mul_of_pos_right hbound.2 hunit
      rw [htop] at hmul
      norm_num
      omega
    · have hdvd : ((2 ^ bits : Nat) : Int) ∣ (n : Int).bmod (2 ^ bits) - n := by
        have heq := Int.bmod_add_bdiv (n : Int) (2 ^ bits)
        exact ⟨-Int.bdiv n (2 ^ bits), by rw [mul_neg]; omega⟩
      have hsplitInt : ((2 ^ 64 : Nat) : Int) = ((2 ^ bits : Nat) : Int) * 2 ^ (64 - bits) := by
        exact_mod_cast hsplit.symm
      rw [hsplitInt]
      push_cast
      rw [← sub_mul]
      exact mul_dvd_mul_right (by exact_mod_cast hdvd) _
  rw [hint, BitVec.toInt_sshiftRight, hshifted, Int.shiftRight_eq_div_pow]
  push_cast
  exact Int.mul_ediv_cancel _ (by positivity)

theorem interpretBitfieldValue_eq {sign : Sign} (hpos : 1 ≤ bits)
    (hbits : bits ≤ 64) (hn : n < 2 ^ bits) (haccepted : sign = .signed ∨ n < 2 ^ 63) :
    interpretBitfieldValue name n bits (sign == .signed) =
      .ok (Int64.ofInt (denotes sign bits n)) := by
  cases sign with
  | signed =>
    have hextend : signExtend n bits = Int64.ofInt (denotes .signed bits n) := by
      rw [denotes, ← toInt_signExtend hpos hbits hn, Int64.ofInt_toInt]
    rw [← hextend]
    rfl
  | unsigned =>
    have hsmall : n < 2 ^ 63 := haccepted.resolve_left (by decide)
    rw [denotes, Int64.ofInt_eq_ofNat]
    exact (if_neg (by decide)).trans (if_pos hsmall)

theorem interpretBitfieldValue_refused (bits : Nat) (hn : 2 ^ 63 ≤ n) :
    interpretBitfieldValue name n bits (Sign.unsigned == .signed) =
      .error (.registerEncoding name bits "an unsigned bit field this wide exceeds i64") :=
  (if_neg (by decide)).trans (if_neg (by omega))

/-- An unsigned field takes no negative value, also where its 64 bits could hold it. -/
theorem encodeBitfieldValue_accepts (x : Int64) (hpos : 1 ≤ bits)
    (hbits : bits ≤ 64) (sign : Sign) :
    (∃ n, encodeBitfieldValue name x bits (sign == .signed) = .ok n) ↔
      Representable sign bits x ∧ (sign = .signed ∨ 0 ≤ x.toInt) := by
  have hhigh := Int64.toInt_lt x
  unfold encodeBitfieldValue
  rw [if_neg (by omega)]
  cases sign with
  | signed =>
    rw [if_pos (by decide)]
    simp only [Representable, true_or, and_true]
    split
    · rename_i hout
      refine iff_of_false nofun ?_
      omega
    · rename_i hin
      refine iff_of_true ⟨_, rfl⟩ ?_
      omega
  | unsigned =>
    rw [if_neg (by decide)]
    simp only [Representable, reduceCtorEq, false_or]
    split
    · refine iff_of_false nofun ?_
      omega
    · split
      · rename_i hwide
        refine iff_of_false nofun ?_
        rintro ⟨rfl | hrange, -⟩ <;> omega
      · refine iff_of_true ⟨_, rfl⟩ ?_
        omega

theorem interpret_encode {x : Int64} (hpos : 1 ≤ bits) (hbits : bits ≤ 64) {sign : Sign}
    (h : encodeBitfieldValue name x bits (sign == .signed) = .ok n) :
    n < 2 ^ bits ∧ interpretBitfieldValue name n bits (sign == .signed) = .ok x := by
  have hrange := (encodeBitfieldValue_accepts name x hpos hbits sign).mp ⟨n, h⟩
  have hhigh := Int64.toInt_lt x
  unfold encodeBitfieldValue at h
  rw [if_neg (by omega)] at h
  cases sign with
  | signed =>
    rw [if_pos (by decide)] at h
    simp only [Representable, true_or, and_true] at hrange
    rw [if_neg (by omega)] at h
    have hn := Except.ok.inj h
    have hunit : (0 : Int) < 2 ^ bits := by positivity
    have hnonneg := Int.emod_nonneg x.toInt (ne_of_gt hunit)
    have hlt := Int.emod_lt_of_pos x.toInt hunit
    have hcast : (n : Int) = x.toInt % 2 ^ bits := by omega
    have hbound : n < 2 ^ bits := by
      have hboundInt : (n : Int) < 2 ^ bits := hcast ▸ hlt
      exact_mod_cast hboundInt
    refine ⟨hbound, ?_⟩
    rw [interpretBitfieldValue_eq name hpos hbits hbound (.inl rfl), denotes, hcast]
    have hemod : (x.toInt % 2 ^ bits).bmod (2 ^ bits) = x.toInt.bmod (2 ^ bits) := by
      have hnat := Int.emod_bmod x.toInt (2 ^ bits)
      push_cast at hnat
      exact hnat
    have hhalf : (2 : Nat) ^ bits = 2 * 2 ^ (bits - 1) := by
      rw [← pow_succ', Nat.sub_add_cancel hpos]
    have hself : x.toInt.bmod (2 ^ bits) = x.toInt := by
      apply Int.bmod_eq_of_le
      · rw [hhalf]
        push_cast
        omega
      · rw [hhalf]
        push_cast
        omega
    rw [hemod, hself, Int64.ofInt_toInt]
  | unsigned =>
    rw [if_neg (by decide)] at h
    have hnonneg : 0 ≤ x.toInt := hrange.2.resolve_left (by decide)
    have hlt : x.toInt < 2 ^ bits := by
      rcases hrange.1 with rfl | hrange
      · omega
      · exact hrange.2
    rw [if_neg (by omega), if_neg (by omega)] at h
    have hn := Except.ok.inj h
    have hcast : (n : Int) = x.toInt := by omega
    have hbound : n < 2 ^ bits := by
      have hboundInt : (n : Int) < 2 ^ bits := hcast ▸ hlt
      exact_mod_cast hboundInt
    refine ⟨hbound, ?_⟩
    rw [interpretBitfieldValue_eq name hpos hbits hbound (.inr (by omega)), denotes, hcast,
      Int64.ofInt_toInt]

/-! ## The codec's laws -/

/-- A register of `width` bytes takes exactly what it can hold, and gives it back. -/
structure PlainLaws (name : Text) (width : Nat) (sign : Sign) (order : ByteOrder) : Prop where
  accepts : ∀ x, (∃ written, i64ToBytes name x width sign order = .ok written) ↔
    Representable sign (8 * width) x
  reads_written : ∀ x written, i64ToBytes name x width sign order = .ok written →
    written.length = width ∧ bytesToI64 name written sign order = .ok x
  writes_read : ∀ bytes : List UInt8, bytes.length = width →
    ∃ x, bytesToI64 name bytes sign order = .ok x ∧ i64ToBytes name x width sign order = .ok bytes

/-- Writing a field of this payload sets the field and nothing beside it. -/
structure FieldLaws (bytes : List UInt8) (bf : BitField) : Prop where
  accepts : ∀ value, (∃ written, insert bytes bf value = .ok written) ↔ value < 2 ^ bf.bitLength
  reads_written : ∀ value written, insert bytes bf value = .ok written →
    extract written bf = .ok value
  keeps_others : ∀ value written other, insert bytes bf value = .ok written →
    Fits bytes.length other →
    (∀ byte bit, byte < bytes.length → bit < 8 → Covers bytes bf byte bit →
      ¬Covers bytes other byte bit) →
    extract written other = extract bytes other
  writes_read : ∃ value, extract bytes bf = .ok value ∧ insert bytes bf value = .ok bytes

/-- A field of `bits` bits encodes exactly what so many bits can hold, decodes it again, and
reads every raw value. -/
structure EncodingLaws (name : Text) (bits : Nat) (sign : Sign) : Prop where
  accepts : ∀ x, (∃ raw, encodeBitfieldValue name x bits (sign == .signed) = .ok raw) ↔
    Representable sign bits x
  decodes : ∀ x raw, encodeBitfieldValue name x bits (sign == .signed) = .ok raw →
    interpretBitfieldValue name raw bits (sign == .signed) = .ok x
  reads : ∀ raw < 2 ^ bits, ∃ x, interpretBitfieldValue name raw bits (sign == .signed) = .ok x

/-- The field that covers the whole payload denotes what the plain register does. -/
def WholeAgrees (name : Text) (bytes : List UInt8) (sign : Sign) (order : ByteOrder) : Prop :=
  ∃ raw, extract bytes ⟨0, 8 * bytes.length, order⟩ = .ok raw ∧
    interpretBitfieldValue name raw (8 * bytes.length) (sign == .signed) =
      bytesToI64 name bytes sign order

theorem plainLaws (hpos : 1 ≤ width) (hwidth : width ≤ 8)
    (sign : Sign) (order : ByteOrder) : PlainLaws name width sign order where
  accepts x := by
    rw [← roundtrip_iff sign (show 1 ≤ 8 * width by omega) (by omega) x,
      i64ToBytes_eq name x hpos hwidth]
    split
    · rename_i heq
      exact iff_of_true ⟨_, rfl⟩ heq
    · rename_i hne
      exact iff_of_false nofun hne
  reads_written x written hwritten := by
    rw [i64ToBytes_eq name x hpos hwidth] at hwritten
    split at hwritten
    · rename_i heq
      obtain rfl := Except.ok.inj hwritten
      have hread := @bytesToI64_eq name (registerBytes order width x.toBitVec.toNat)
        (by rw [length_registerBytes]; exact hpos) (by rw [length_registerBytes]; exact hwidth)
        sign order
      rw [length_registerBytes, registerValue_truncated, heq] at hread
      exact ⟨length_registerBytes _ _ _, hread⟩
    · cases hwritten
  writes_read bytes hbytes := by
    subst hbytes
    exact i64ToBytes_of_bytesToI64 name hpos hwidth sign order

theorem fieldLaws {bf : BitField} (hfits : Fits bytes.length bf) : FieldLaws bytes bf where
  accepts := insert_accepts hfits
  reads_written _ _ hwritten := (insert_bits hfits hwritten).2.1
  keeps_others value written other hwritten hother hdisjoint := by
    obtain ⟨hlen, -, hkept⟩ := insert_bits hfits hwritten
    apply extract_congr hother hlen
    intro byte bit hbyte hbit hcovers
    apply hkept byte bit hbyte hbit
    exact fun hfield => hdisjoint byte bit hbyte hbit hfield hcovers
  writes_read := ⟨_, extract_eq hfits, insert_extract hfits (extract_eq hfits)⟩

/-- Every raw value of a field is read, but for the upper half of an unsigned one of 64 bits. -/
theorem interpretBitfieldValue_accepts {raw : Nat} (hpos : 1 ≤ bits)
    (hbits : bits ≤ 64) (hraw : raw < 2 ^ bits) (sign : Sign) :
    (∃ x, interpretBitfieldValue name raw bits (sign == .signed) = .ok x) ↔
      sign = .signed ∨ raw < 2 ^ 63 := by
  by_cases haccepted : sign = .signed ∨ raw < 2 ^ 63
  · exact iff_of_true ⟨_, interpretBitfieldValue_eq name hpos hbits hraw haccepted⟩ haccepted
  · apply iff_of_false _ haccepted
    cases sign with
    | signed => exact absurd (.inl rfl) haccepted
    | unsigned =>
      rw [interpretBitfieldValue_refused name bits (by omega)]
      nofun

theorem extract_whole (hpos : 1 ≤ bytes.length) (hwidth : bytes.length ≤ 8) (order : ByteOrder) :
    extract bytes ⟨0, 8 * bytes.length, order⟩ = .ok (registerValue order bytes) := by
  have hfits : Fits bytes.length ⟨0, 8 * bytes.length, order⟩ :=
    ⟨hpos, hwidth, by simp only; omega, by simp only; omega, by simp only; omega⟩
  have hshift : fieldShift bytes ⟨0, 8 * bytes.length, order⟩ = 0 := by
    have hle := fieldShift_le hfits
    simp only at hle
    omega
  have hlt := registerValue_lt order bytes
  rw [mul_comm] at hlt
  rw [extract_eq hfits, hshift, Nat.shiftRight_zero, Nat.mod_eq_of_lt hlt]

theorem wholeAgrees_iff (hpos : 1 ≤ bytes.length)
    (hwidth : bytes.length ≤ 8) (sign : Sign) (order : ByteOrder) :
    WholeAgrees name bytes sign order ↔ sign = .signed ∨ registerValue order bytes < 2 ^ 63 := by
  have hlt := registerValue_lt order bytes
  rw [mul_comm] at hlt
  have hread := bytesToI64_eq name hpos hwidth sign order
  have haccepts := interpretBitfieldValue_accepts name (show 1 ≤ 8 * bytes.length by omega)
    (by omega) hlt sign
  constructor
  · rintro ⟨raw, hextract, hsame⟩
    rw [extract_whole hpos hwidth] at hextract
    obtain rfl := Except.ok.inj hextract
    exact haccepts.mp ⟨_, hsame.trans hread⟩
  · intro haccepted
    refine ⟨_, extract_whole hpos hwidth order, ?_⟩
    rw [hread]
    exact interpretBitfieldValue_eq name (by omega) (by omega) hlt haccepted

theorem encodingLaws_iff (hpos : 1 ≤ bits) (hbits : bits ≤ 64)
    (sign : Sign) : EncodingLaws name bits sign ↔ sign = .signed ∨ bits ≠ 64 := by
  constructor
  · intro hlaws
    by_contra hwide
    rw [not_or, not_not] at hwide
    have hunsigned : sign = .unsigned := by
      cases sign with
      | signed => exact absurd rfl hwide.1
      | unsigned => rfl
    obtain ⟨rfl, rfl⟩ := And.intro hunsigned hwide.2
    have hall := (hlaws.accepts (-1)).mpr (.inl rfl)
    exact absurd ((encodeBitfieldValue_accepts name (-1) hpos hbits .unsigned).mp hall).2 (by decide)
  · intro hnarrow
    have hhalf : sign = .signed ∨ (2 : Nat) ^ bits ≤ 2 ^ 63 :=
      hnarrow.imp id fun hne => Nat.pow_le_pow_right (by decide) (by omega)
    refine ⟨fun x => ?_, fun _ _ hencode => (interpret_encode name hpos hbits hencode).2,
      fun raw hraw => ?_⟩
    · rw [encodeBitfieldValue_accepts name x hpos hbits]
      refine ⟨And.left, fun hx => ⟨hx, ?_⟩⟩
      cases sign with
      | signed => exact .inl rfl
      | unsigned => exact .inr (hx.resolve_left (hnarrow.resolve_left (by decide))).1
    · rw [interpretBitfieldValue_accepts name hpos hbits hraw]
      exact hhalf.imp id hraw.trans_le

/-- For a register and a field in it, the codec's laws hold of all contents and all values together
exactly when no value of 64 unsigned bits is asked of the field: a plain register reinterprets such
a value from 2^63 on, the field refuses it both ways. -/
theorem codec_laws_iff (name : Text) (sign : Sign) (order : ByteOrder) {width : Nat}
    {bf : BitField} (hfits : Fits width bf) :
    (PlainLaws name width sign order ∧
      (∀ bytes : List UInt8, bytes.length = width → FieldLaws bytes bf) ∧
      EncodingLaws name bf.bitLength sign ∧
      (bf = ⟨0, 8 * width, order⟩ →
        ∀ bytes : List UInt8, bytes.length = width → WholeAgrees name bytes sign order)) ↔
    sign = .signed ∨ bf.bitLength ≠ 64 := by
  obtain ⟨hpos, hwidth, hbitsPos, hbits, -⟩ := id hfits
  rw [encodingLaws_iff name hbitsPos hbits]
  refine ⟨fun hlaws => hlaws.2.2.1, fun hnarrow => ⟨plainLaws name hpos hwidth sign order,
    fun bytes hbytes => fieldLaws (hbytes ▸ hfits), hnarrow, ?_⟩⟩
  rintro rfl bytes rfl
  have hlt := registerValue_lt order bytes
  rw [mul_comm] at hlt
  rw [wholeAgrees_iff name hpos hwidth]
  refine hnarrow.imp id fun hne => hlt.trans_le (Nat.pow_le_pow_right (by decide) ?_)
  simp only at hne
  omega

/-- A timestamp register of eight bytes, its upper half read through a field. -/
theorem codec_laws_iff_timestamp :
    (PlainLaws [] 8 .unsigned .big ∧
      (∀ bytes : List UInt8, bytes.length = 8 → FieldLaws bytes ⟨0, 32, .big⟩) ∧
      EncodingLaws [] 32 .unsigned ∧
      ((⟨0, 32, .big⟩ : BitField) = ⟨0, 8 * 8, .big⟩ →
        ∀ bytes : List UInt8, bytes.length = 8 → WholeAgrees [] bytes .unsigned .big)) ↔
    Sign.unsigned = .signed ∨ 32 ≠ 64 :=
  @codec_laws_iff [] .unsigned .big 8 ⟨0, 32, .big⟩ (by unfold Fits; decide)

/-- The register that reads as -2^63 whole is refused as a field of 64 bits, and so is -1, which
the register takes. -/
theorem field_refuses_top_half :
    bytesToI64 [] [0x80, 0, 0, 0, 0, 0, 0, 0] .unsigned .big = .ok (-9223372036854775808) ∧
    extract [0x80, 0, 0, 0, 0, 0, 0, 0] ⟨0, 64, .big⟩ = .ok (2 ^ 63) ∧
    interpretBitfieldValue [] (2 ^ 63) 64 (Sign.unsigned == .signed) =
      .error (.registerEncoding [] 64 "an unsigned bit field this wide exceeds i64") ∧
    ¬WholeAgrees [] [0x80, 0, 0, 0, 0, 0, 0, 0] .unsigned .big ∧
    i64ToBytes [] (-1) 8 .unsigned .big = .ok (List.replicate 8 0xFF) ∧
    encodeBitfieldValue [] (-1) 64 (Sign.unsigned == .signed) =
      .error (.valueTooWide [] (-1) 64) := by
  refine ⟨rfl, rfl, rfl, ?_, rfl, rfl⟩
  rw [wholeAgrees_iff [] (by decide) (by decide)]
  decide

end VivaGenicam.Genapi
