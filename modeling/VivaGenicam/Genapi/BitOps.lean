import VivaGenicam.GenapiXml.Decl
import VivaGenicam.Library.Bits
import VivaGenicam.Library.Bytes

/-!
Reading a bit field out of a register's payload and writing it there, and the
bits it selects.
-/

namespace VivaGenicam.Genapi

open GenapiXml Library.Bits Library.Bytes

inductive BitOpsError where
  | unsupportedWidth (len : Nat)
  | unsupportedLength (bitLength : Nat)
  | outOfRange (len bitOffset bitLength : Nat)
  | valueTooWide (bitLength value : Nat)
deriving DecidableEq, Repr

def validateRange (bits : List UInt8) (bf : BitField) : Except BitOpsError Unit :=
  if bits.length = 0 ∨ 8 < bits.length then .error (.unsupportedWidth bits.length)
  else if bf.bitLength = 0 ∨ 64 < bf.bitLength then .error (.unsupportedLength bf.bitLength)
  else if bits.length * 8 < bf.bitOffset + bf.bitLength then
    .error (.outOfRange bits.length bf.bitOffset bf.bitLength)
  else .ok ()

/-- The register's value: its payload as one number. -/
def registerValue (order : ByteOrder) (bits : List UInt8) : Nat :=
  match order with
  | .little => decodeLE bits
  | .big => decodeBE bits

/-- How far the field's lowest bit lies above the register's. -/
def fieldShift (bits : List UInt8) (bf : BitField) : Nat :=
  match bf.byteOrder with
  | .little => bf.bitOffset
  | .big => bits.length * 8 - bf.bitOffset - bf.bitLength

def extract (bits : List UInt8) (bf : BitField) : Except BitOpsError Nat := do
  validateRange bits bf
  pure (registerValue bf.byteOrder bits >>> fieldShift bits bf % 2 ^ bf.bitLength)

variable {bits : List UInt8} {bf : BitField}

theorem extract_eq_pick (hbits : bits.length ≤ 8)
    (hpos : 1 ≤ bf.bitLength) (hwidth : bf.bitLength ≤ 64)
    (hinside : bf.bitOffset + bf.bitLength ≤ bits.length * 8) :
    extract bits bf = .ok (Library.Bits.pick (registerValue bf.byteOrder bits)
      (List.range' (fieldShift bits bf) bf.bitLength)) := by
  have hvalid : validateRange bits bf = .ok () := by
    unfold validateRange
    rw [if_neg (by omega), if_neg (by omega), if_neg (by omega)]
  simp only [extract, hvalid, pick_range']
  rfl

theorem extract_wide (bf : BitField) (hbits : 8 < bits.length) :
    extract bits bf = .error (.unsupportedWidth bits.length) := by
  simp only [extract, validateRange, hbits, or_true, if_true]
  rfl

def registerBytes (order : ByteOrder) (len value : Nat) : List UInt8 :=
  match order with
  | .little => encodeLE len value
  | .big => encodeBE len value

def insert (dst : List UInt8) (bf : BitField) (value : Nat) : Except BitOpsError (List UInt8) := do
  validateRange dst bf
  if 2 ^ bf.bitLength - 1 < value then throw (.valueTooWide bf.bitLength value)
  pure (registerBytes bf.byteOrder dst.length
    (overlay (registerValue bf.byteOrder dst) (fieldShift dst bf) bf.bitLength value))

/-- The field lies in a register of `len` bytes. -/
def Fits (len : Nat) (bf : BitField) : Prop :=
  1 ≤ len ∧ len ≤ 8 ∧ 1 ≤ bf.bitLength ∧ bf.bitLength ≤ 64 ∧
    bf.bitOffset + bf.bitLength ≤ len * 8

/-- Which bit of the register's value a bit of its payload is. -/
def bitPosition (order : ByteOrder) (len byte bit : Nat) : Nat :=
  match order with
  | .little => 8 * byte + bit
  | .big => 8 * (len - 1 - byte) + bit

def Covers (bits : List UInt8) (bf : BitField) (byte bit : Nat) : Prop :=
  fieldShift bits bf ≤ bitPosition bf.byteOrder bits.length byte bit ∧
    bitPosition bf.byteOrder bits.length byte bit < fieldShift bits bf + bf.bitLength

def payloadBit (bits : List UInt8) (byte bit : Nat) : Bool :=
  (bits.getD byte 0).toNat.testBit bit

theorem validateRange_of_fits (h : Fits bits.length bf) :
    validateRange bits bf = .ok () := by
  unfold Fits at h
  unfold validateRange
  rw [if_neg (by omega), if_neg (by omega), if_neg (by omega)]

theorem fieldShift_le (h : Fits bits.length bf) :
    fieldShift bits bf + bf.bitLength ≤ bits.length * 8 := by
  unfold Fits at h
  unfold fieldShift
  split <;> omega

theorem fieldShift_congr {bits' : List UInt8} (h : bits'.length = bits.length)
    (bf : BitField) : fieldShift bits' bf = fieldShift bits bf := by
  unfold fieldShift
  rw [h]

variable (order : ByteOrder)

theorem registerValue_lt (bits : List UInt8) :
    registerValue order bits < 2 ^ (bits.length * 8) := by
  have hpow : (256 : Nat) ^ bits.length = 2 ^ (bits.length * 8) := by
    rw [mul_comm, pow_mul]
    rfl
  cases order with
  | little => exact hpow ▸ decodeLE_lt bits
  | big => exact hpow ▸ decodeBE_lt bits

theorem testBit_registerValue (order : ByteOrder) {bits : List UInt8} {byte bit : Nat}
    (hbyte : byte < bits.length) (hbit : bit < 8) :
    (registerValue order bits).testBit (bitPosition order bits.length byte bit) =
      payloadBit bits byte bit := by
  cases order with
  | little =>
    have hdiv : (8 * byte + bit) / 8 = byte := by omega
    have hmod : (8 * byte + bit) % 8 = bit := by omega
    simp only [registerValue, bitPosition, payloadBit, testBit_decodeLE, hdiv, hmod]
  | big =>
    have hdiv : (8 * (bits.length - 1 - byte) + bit) / 8 = bits.length - 1 - byte := by omega
    have hmod : (8 * (bits.length - 1 - byte) + bit) % 8 = bit := by omega
    have hget : bits.reverse.getD (bits.length - 1 - byte) 0 = bits.getD byte 0 := by
      have hindex : bits.length - 1 - (bits.length - 1 - byte) = byte := by omega
      rw [List.getD_eq_getElem?_getD, List.getD_eq_getElem?_getD,
        List.getElem?_reverse (by omega), hindex]
    simp only [registerValue, bitPosition, payloadBit, decodeBE_eq, testBit_decodeLE, hdiv, hmod,
      hget]

theorem exists_bitPosition (order : ByteOrder) {len k : Nat} (hk : k < len * 8) :
    ∃ byte bit, byte < len ∧ bit < 8 ∧ bitPosition order len byte bit = k := by
  cases order with
  | little => exact ⟨k / 8, k % 8, by omega, by omega, by simp only [bitPosition]; omega⟩
  | big => exact ⟨len - 1 - k / 8, k % 8, by omega, by omega, by simp only [bitPosition]; omega⟩

theorem extract_eq (h : Fits bits.length bf) :
    extract bits bf =
      .ok (registerValue bf.byteOrder bits >>> fieldShift bits bf % 2 ^ bf.bitLength) := by
  simp only [extract, validateRange_of_fits h]
  rfl

theorem extract_congr {bits' : List UInt8} (h : Fits bits.length bf)
    (hlen : bits'.length = bits.length)
    (hagree : ∀ byte bit, byte < bits.length → bit < 8 → Covers bits bf byte bit →
      payloadBit bits' byte bit = payloadBit bits byte bit) :
    extract bits' bf = extract bits bf := by
  have hshift := fieldShift_le h
  rw [extract_eq h, extract_eq (hlen ▸ h), fieldShift_congr hlen]
  congr 1
  apply Nat.eq_of_testBit_eq
  intro j
  rw [Nat.testBit_mod_two_pow, Nat.testBit_mod_two_pow, Nat.testBit_shiftRight,
    Nat.testBit_shiftRight]
  by_cases hj : j < bf.bitLength
  · obtain ⟨byte, bit, hbyte, hbit, hposition⟩ :=
      @exists_bitPosition bf.byteOrder bits.length (fieldShift bits bf + j) (by omega)
    have hcovers : Covers bits bf byte bit := by
      unfold Covers
      omega
    have hleft := testBit_registerValue bf.byteOrder (hlen ▸ hbyte) hbit
    rw [hlen, hposition] at hleft
    rw [hleft, hagree byte bit hbyte hbit hcovers, ← testBit_registerValue bf.byteOrder hbyte hbit,
      hposition]
  · simp [hj]

variable {value : Nat}

theorem registerValue_registerBytes {len : Nat}
    (hvalue : value < 2 ^ (len * 8)) : registerValue order (registerBytes order len value) = value := by
  have hpow : (256 : Nat) ^ len = 2 ^ (len * 8) := by
    rw [mul_comm, pow_mul]
    rfl
  cases order with
  | little =>
    simp only [registerValue, registerBytes, decodeLE_encodeLE, hpow, Nat.mod_eq_of_lt hvalue]
  | big =>
    simp only [registerValue, registerBytes, decodeBE_encodeBE, hpow, Nat.mod_eq_of_lt hvalue]

theorem registerBytes_registerValue (bits : List UInt8) :
    registerBytes order bits.length (registerValue order bits) = bits := by
  cases order with
  | little => exact encodeLE_decodeLE bits
  | big =>
    have h := encodeLE_decodeLE bits.reverse
    rw [List.length_reverse] at h
    rw [registerBytes, registerValue, encodeBE_eq, decodeBE_eq, h, List.reverse_reverse]

@[simp] theorem length_registerBytes (len value : Nat) :
    (registerBytes order len value).length = len := by
  cases order <;> simp [registerBytes]

variable {dst : List UInt8}

theorem insert_eq (h : Fits dst.length bf) (hvalue : value < 2 ^ bf.bitLength) :
    insert dst bf value = .ok (registerBytes bf.byteOrder dst.length
      (overlay (registerValue bf.byteOrder dst) (fieldShift dst bf) bf.bitLength value)) := by
  have hnarrow : ¬2 ^ bf.bitLength - 1 < value := by omega
  simp only [insert, validateRange_of_fits h, hnarrow]
  rfl

theorem insert_accepts (h : Fits dst.length bf) (value : Nat) :
    (∃ written, insert dst bf value = .ok written) ↔ value < 2 ^ bf.bitLength := by
  constructor
  · rintro ⟨written, hwritten⟩
    by_contra hwide
    have htoo : 2 ^ bf.bitLength - 1 < value := by
      have hpos := Nat.two_pow_pos bf.bitLength
      omega
    simp only [insert, validateRange_of_fits h, htoo] at hwritten
    cases hwritten
  · exact fun hvalue => ⟨_, insert_eq h hvalue⟩

theorem insert_bits {written : List UInt8} (h : Fits dst.length bf)
    (hinsert : insert dst bf value = .ok written) :
    written.length = dst.length ∧ extract written bf = .ok value ∧
      ∀ byte bit, byte < dst.length → bit < 8 → ¬Covers dst bf byte bit →
        payloadBit written byte bit = payloadBit dst byte bit := by
  have hvalue := (insert_accepts h value).mp ⟨written, hinsert⟩
  have hshift := fieldShift_le h
  have hwide : dst.length * 8 ≤ 64 := by
    unfold Fits at h
    omega
  have hregister := registerValue_lt bf.byteOrder dst
  have hregister128 := lt_of_lt_of_le hregister (Nat.pow_le_pow_right (by decide)
    (show dst.length * 8 ≤ 128 by omega))
  rw [insert_eq h hvalue] at hinsert
  cases hinsert
  have hnew := overlay_lt hregister (show dst.length * 8 ≤ 128 by omega) hshift hvalue
  refine ⟨length_registerBytes _ _ _, ?_, ?_⟩
  · rw [extract_eq (by rw [length_registerBytes]; exact h),
      fieldShift_congr (length_registerBytes _ _ _), registerValue_registerBytes _ hnew]
    congr 1
    apply Nat.eq_of_testBit_eq
    intro j
    rw [Nat.testBit_mod_two_pow, Nat.testBit_shiftRight,
      testBit_overlay hregister128 (by omega) hvalue]
    by_cases hj : j < bf.bitLength
    · rw [if_pos (by omega), Nat.add_sub_cancel_left]
      simp [hj]
    · have hnone := Nat.testBit_lt_two_pow (lt_of_lt_of_le hvalue
        (Nat.pow_le_pow_right (by decide) (Nat.le_of_not_lt hj)))
      simp [hj, hnone]
  · intro byte bit hbyte hbit hout
    rw [← testBit_registerValue bf.byteOrder hbyte hbit]
    have hread := @testBit_registerValue bf.byteOrder (registerBytes bf.byteOrder dst.length
      (overlay (registerValue bf.byteOrder dst) (fieldShift dst bf) bf.bitLength value))
      byte bit (by rw [length_registerBytes]; exact hbyte) hbit
    rw [length_registerBytes, registerValue_registerBytes _ hnew] at hread
    rw [← hread, testBit_overlay hregister128 (by omega) hvalue]
    exact if_neg hout

theorem insert_extract (h : Fits dst.length bf)
    (hextract : extract dst bf = .ok value) : insert dst bf value = .ok dst := by
  rw [extract_eq h] at hextract
  have heq := (Except.ok.inj hextract).symm
  have hvalue : value < 2 ^ bf.bitLength := heq ▸ Nat.mod_lt _ (Nat.two_pow_pos _)
  have hshift := fieldShift_le h
  have hwide : dst.length * 8 ≤ 128 := by
    unfold Fits at h
    omega
  have hregister128 := lt_of_lt_of_le (registerValue_lt bf.byteOrder dst)
    (Nat.pow_le_pow_right (by decide) hwide)
  have hsame : overlay (registerValue bf.byteOrder dst) (fieldShift dst bf) bf.bitLength value =
      registerValue bf.byteOrder dst := by
    apply Nat.eq_of_testBit_eq
    intro k
    rw [testBit_overlay hregister128 (by omega) hvalue]
    split
    · rename_i hinside
      have hindex : fieldShift dst bf + (k - fieldShift dst bf) = k := by omega
      have hcount : k - fieldShift dst bf < bf.bitLength := by omega
      rw [heq, Nat.testBit_mod_two_pow, Nat.testBit_shiftRight, hindex]
      simp [hcount]
    · rfl
  rw [insert_eq h hvalue, hsame, registerBytes_registerValue]

end VivaGenicam.Genapi
