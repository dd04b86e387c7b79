import Mathlib.Tactic

/-!
Numbers read from byte strings, most or least significant byte first, and the
bounds their widths give.
-/

namespace Library.Bytes

/-- The number whose digits to base 256 are `bytes`, most significant first. -/
def decodeBE (bytes : List UInt8) : Nat :=
  bytes.foldl (fun value byte => 256 * value + byte.toNat) 0

/-- The number whose digits to base 256 are `bytes`, least significant first. -/
def decodeLE : List UInt8 → Nat
  | [] => 0
  | byte :: rest => byte.toNat + 256 * decodeLE rest

/-- The big-endian number of `width` bytes at `offset`. -/
def fieldBE (bytes : List UInt8) (offset width : Nat) : Nat :=
  decodeBE ((bytes.drop offset).take width)

/-- The little-endian number of `width` bytes at `offset`. -/
def fieldLE (bytes : List UInt8) (offset width : Nat) : Nat :=
  decodeLE ((bytes.drop offset).take width)

variable (bytes : List UInt8)

theorem foldl_lt (start : Nat) :
    bytes.foldl (fun value byte => 256 * value + byte.toNat) start <
      (start + 1) * 256 ^ bytes.length := by
  induction bytes generalizing start with
  | nil => simp
  | cons byte rest ih =>
    have hbyte : byte.toNat < 256 := byte.toNat_lt
    calc
      (byte :: rest).foldl (fun value byte => 256 * value + byte.toNat) start
          < (256 * start + byte.toNat + 1) * 256 ^ rest.length := ih _
      _ ≤ (256 * (start + 1)) * 256 ^ rest.length :=
          Nat.mul_le_mul_right _ (by omega)
      _ = (start + 1) * 256 ^ (byte :: rest).length := by
          rw [List.length_cons, pow_succ]
          ring

theorem decodeBE_lt : decodeBE bytes < 256 ^ bytes.length := by
  simpa [decodeBE] using foldl_lt bytes 0

theorem fieldBE_lt (offset width : Nat) :
    fieldBE bytes offset width < 256 ^ width := by
  apply lt_of_lt_of_le (decodeBE_lt _)
  apply Nat.pow_le_pow_right (by decide)
  rw [List.length_take]
  omega

theorem decodeLE_lt : decodeLE bytes < 256 ^ bytes.length := by
  induction bytes with
  | nil => simp [decodeLE]
  | cons byte rest ih =>
    have hbyte : byte.toNat < 256 := byte.toNat_lt
    simp only [decodeLE, List.length_cons, pow_succ]
    omega

theorem fieldLE_lt (offset width : Nat) :
    fieldLE bytes offset width < 256 ^ width := by
  apply lt_of_lt_of_le (decodeLE_lt _)
  apply Nat.pow_le_pow_right (by decide)
  rw [List.length_take]
  omega

/-- The last `width` digits of a number, most significant byte first. -/
def encodeBE : Nat → Nat → List UInt8
  | 0, _ => []
  | width + 1, value => encodeBE width (value / 256) ++ [UInt8.ofNat value]

@[simp] theorem length_encodeBE (width value : Nat) : (encodeBE width value).length = width := by
  induction width generalizing value with
  | zero => rfl
  | succ width ih => simp [encodeBE, ih]

theorem decodeBE_append_singleton (byte : UInt8) :
    decodeBE (bytes ++ [byte]) = 256 * decodeBE bytes + byte.toNat := by
  simp [decodeBE, List.foldl_append]

theorem decodeBE_encodeBE (width value : Nat) :
    decodeBE (encodeBE width value) = value % 256 ^ width := by
  induction width generalizing value with
  | zero => simp [encodeBE, decodeBE, Nat.mod_one]
  | succ width ih =>
    have hbyte : (UInt8.ofNat value).toNat = value % 256 := UInt8.toNat_ofNat
    rw [encodeBE, decodeBE_append_singleton, ih, hbyte, pow_succ', Nat.mod_mul]
    omega

/-- A number written at an offset is read back from there. -/
theorem fieldBE_encodeBE (before after : List UInt8) (offset width value : Nat)
    (hoffset : before.length = offset) (hvalue : value < 256 ^ width) :
    fieldBE (before ++ (encodeBE width value ++ after)) offset width = value := by
  unfold fieldBE
  rw [List.drop_left' hoffset, List.take_left' (length_encodeBE width value),
    decodeBE_encodeBE, Nat.mod_eq_of_lt hvalue]

/-- The last `width` digits of a number, least significant byte first. -/
def encodeLE : Nat → Nat → List UInt8
  | 0, _ => []
  | width + 1, value => UInt8.ofNat value :: encodeLE width (value / 256)

@[simp] theorem length_encodeLE (width value : Nat) : (encodeLE width value).length = width := by
  induction width generalizing value with
  | zero => rfl
  | succ width ih => simp [encodeLE, ih]

theorem decodeLE_encodeLE (width value : Nat) :
    decodeLE (encodeLE width value) = value % 256 ^ width := by
  induction width generalizing value with
  | zero => simp [encodeLE, decodeLE, Nat.mod_one]
  | succ width ih =>
    have hbyte : (UInt8.ofNat value).toNat = value % 256 := UInt8.toNat_ofNat
    rw [encodeLE, decodeLE, ih, hbyte, pow_succ', Nat.mod_mul]

theorem decodeLE_headD :
    decodeLE bytes = (bytes.headD 0).toNat + 256 * decodeLE bytes.tail := by
  cases bytes with
  | nil => rfl
  | cons byte rest => rfl

theorem decodeLE_append (left right : List UInt8) :
    decodeLE (left ++ right) = decodeLE left + 256 ^ left.length * decodeLE right := by
  induction left with
  | nil => simp [decodeLE]
  | cons byte left ih =>
    rw [List.cons_append, decodeLE, decodeLE, ih, List.length_cons, pow_succ']
    ring

/-- A number written at an offset, least significant byte first, is read back from there. -/
theorem fieldLE_encodeLE (before after : List UInt8) (offset width value : Nat)
    (hoffset : before.length = offset) (hvalue : value < 256 ^ width) :
    fieldLE (before ++ (encodeLE width value ++ after)) offset width = value := by
  unfold fieldLE
  rw [List.drop_left' hoffset, List.take_left' (length_encodeLE width value),
    decodeLE_encodeLE, Nat.mod_eq_of_lt hvalue]

theorem encodeLE_decodeLE : encodeLE bytes.length (decodeLE bytes) = bytes := by
  induction bytes with
  | nil => rfl
  | cons byte rest ih =>
    have hbyte : byte.toNat < 256 := byte.toNat_lt
    have hlow : UInt8.ofNat (byte.toNat + 256 * decodeLE rest) = byte := by
      apply UInt8.toNat_inj.mp
      rw [UInt8.toNat_ofNat']
      omega
    have hhigh : (byte.toNat + 256 * decodeLE rest) / 256 = decodeLE rest := by omega
    rw [List.length_cons, decodeLE, encodeLE, hlow, hhigh, ih]

theorem decodeBE_eq : decodeBE bytes = decodeLE bytes.reverse := by
  induction bytes using List.reverseRecOn with
  | nil => rfl
  | append_singleton rest byte ih =>
    rw [decodeBE_append_singleton, List.reverse_append, List.reverse_singleton,
      List.singleton_append, decodeLE, ih]
    omega

theorem encodeBE_eq (width value : Nat) : encodeBE width value = (encodeLE width value).reverse := by
  induction width generalizing value with
  | zero => rfl
  | succ width ih => rw [encodeBE, encodeLE, List.reverse_cons, ih]

theorem encodeBE_decodeBE : encodeBE bytes.length (decodeBE bytes) = bytes := by
  have hreverse := encodeLE_decodeLE bytes.reverse
  rw [List.length_reverse] at hreverse
  rw [encodeBE_eq, decodeBE_eq, hreverse, List.reverse_reverse]

theorem testBit_decodeLE (k : Nat) :
    (decodeLE bytes).testBit k = (bytes.getD (k / 8) 0).toNat.testBit (k % 8) := by
  induction bytes generalizing k with
  | nil => simp [decodeLE]
  | cons byte rest ih =>
    have hbyte : byte.toNat < 2 ^ 8 := byte.toNat_lt
    have hsum : decodeLE (byte :: rest) = 2 ^ 8 * decodeLE rest + byte.toNat := by
      rw [decodeLE]
      omega
    rw [hsum, Nat.testBit_two_pow_mul_add _ hbyte]
    split
    · rename_i hlow
      rw [Nat.div_eq_of_lt hlow, Nat.mod_eq_of_lt hlow]
      rfl
    · rename_i hhigh
      have hdiv : k / 8 = (k - 8) / 8 + 1 := by omega
      have hmod : k % 8 = (k - 8) % 8 := by omega
      rw [ih, hdiv, hmod, List.getD_cons_succ]

variable {offset : Nat}

theorem fieldBE_append {before : List UInt8} (after : List UInt8) (width : Nat)
    (h : before.length ≤ offset) :
    fieldBE (before ++ after) offset width = fieldBE after (offset - before.length) width := by
  rw [fieldBE, fieldBE, List.drop_append, List.drop_eq_nil_of_le h, List.nil_append]

theorem fieldLE_append {before : List UInt8} (after : List UInt8) {offset : Nat} (width : Nat)
    (h : before.length ≤ offset) :
    fieldLE (before ++ after) offset width = fieldLE after (offset - before.length) width := by
  rw [fieldLE, fieldLE, List.drop_append, List.drop_eq_nil_of_le h, List.nil_append]

theorem fieldBE_skip {skipped : Nat} (value : Nat) (after : List UInt8) (width : Nat)
    (h : skipped ≤ offset) :
    fieldBE (encodeBE skipped value ++ after) offset width =
      fieldBE after (offset - skipped) width := by
  have hlength := length_encodeBE skipped value
  rw [fieldBE_append after width (by omega), hlength]

theorem fieldLE_skip {skipped : Nat} (value : Nat) (after : List UInt8) (width : Nat)
    (h : skipped ≤ offset) :
    fieldLE (encodeLE skipped value ++ after) offset width =
      fieldLE after (offset - skipped) width := by
  have hlength := length_encodeLE skipped value
  rw [fieldLE_append after width (by omega), hlength]

variable {width : Nat}

theorem fieldBE_first {value : Nat} (after : List UInt8) (h : value < 256 ^ width) :
    fieldBE (encodeBE width value ++ after) 0 width = value :=
  fieldBE_encodeBE [] after 0 width value rfl h

theorem fieldLE_first {value : Nat} (after : List UInt8) (h : value < 256 ^ width) :
    fieldLE (encodeLE width value ++ after) 0 width = value :=
  fieldLE_encodeLE [] after 0 width value rfl h

/-- A field is the bytes it was read from, written again. -/
theorem encodeLE_fieldLE {bytes : List UInt8} (h : offset + width ≤ bytes.length) :
    encodeLE width (fieldLE bytes offset width) = (bytes.drop offset).take width := by
  have hlength : ((bytes.drop offset).take width).length = width := by
    rw [List.length_take, List.length_drop]
    omega
  have hwhole := encodeLE_decodeLE ((bytes.drop offset).take width)
  rwa [hlength] at hwhole

end Library.Bytes
