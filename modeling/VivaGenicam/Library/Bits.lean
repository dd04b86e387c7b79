import Mathlib.Tactic

/-!
The number some bits of another number spell, and the case where they are
consecutive: a shift and a mask.
-/

namespace Library.Bits

/-- The number whose bits are those of `value` at `positions`, lowest first. -/
def pick (value : Nat) (positions : List Nat) : Nat :=
  positions.foldr (fun k rest => (if value.testBit k then 1 else 0) + 2 * rest) 0

@[simp] theorem pick_nil (value : Nat) : pick value [] = 0 := rfl

@[simp] theorem pick_cons (value k : Nat) (rest : List Nat) :
    pick value (k :: rest) = (if value.testBit k then 1 else 0) + 2 * pick value rest := rfl

theorem shiftRight_mod_succ (value low count : Nat) :
    value >>> low % 2 ^ (count + 1) =
      (if value.testBit low then 1 else 0) + 2 * (value >>> (low + 1) % 2 ^ count) := by
  have hbit : (if value.testBit low then 1 else 0) = value >>> low % 2 := by
    rcases Nat.mod_two_eq_zero_or_one (value >>> low) with h | h <;>
      simp [Nat.testBit, Nat.one_and_eq_mod_two, h]
  rw [hbit, Nat.shiftRight_succ, pow_succ, mul_comm (2 ^ count) 2, Nat.mod_mul]

theorem pick_range' (value low count : Nat) :
    pick value (List.range' low count) = value >>> low % 2 ^ count := by
  induction count generalizing low with
  | zero => simp [Nat.mod_one]
  | succ count ih => rw [List.range'_succ, pick_cons, ih, shiftRight_mod_succ]

/-- Counting from the other end turns consecutive positions into consecutive
positions. -/
theorem reverse_map_range' {total low count : Nat} (h : low + count ≤ total) :
    ((List.range' low count).map (total - 1 - ·)).reverse =
      List.range' (total - low - count) count := by
  apply List.ext_getElem
  · simp
  · intro i hleft hright
    simp only [List.length_reverse, List.length_map, List.length_range'] at hleft
    simp only [List.getElem_reverse, List.getElem_map, List.getElem_range', List.length_map,
      List.length_range']
    omega

/-- `full` with `count` bits from `low` on replaced, as masks of 128 bits do it. -/
def overlay (full low count value : Nat) : Nat :=
  full &&& (2 ^ 128 - 1 - (2 ^ count - 1) <<< low) ||| value <<< low

theorem testBit_overlay {full low count value : Nat} (hfull : full < 2 ^ 128)
    (hinside : low + count ≤ 128) (hvalue : value < 2 ^ count) (k : Nat) :
    (overlay full low count value).testBit k =
      if low ≤ k ∧ k < low + count then value.testBit (k - low) else full.testBit k := by
  have hmask : (2 ^ count - 1) <<< low < 2 ^ 128 := by
    rw [Nat.shiftLeft_eq]
    calc
      (2 ^ count - 1) * 2 ^ low < 2 ^ count * 2 ^ low :=
        Nat.mul_lt_mul_of_pos_right (Nat.sub_lt (Nat.two_pow_pos _) one_pos) (Nat.two_pow_pos _)
      _ = 2 ^ (low + count) := by rw [← pow_add, Nat.add_comm]
      _ ≤ 2 ^ 128 := Nat.pow_le_pow_right (by decide) hinside
  have hclear : 2 ^ 128 - 1 - (2 ^ count - 1) <<< low =
      2 ^ 128 - ((2 ^ count - 1) <<< low + 1) := by omega
  rw [overlay, Nat.testBit_or, Nat.testBit_and, hclear, Nat.testBit_two_pow_sub_succ hmask,
    Nat.testBit_shiftLeft, Nat.testBit_shiftLeft, Nat.testBit_two_pow_sub_one]
  have hhigh : ∀ j, count ≤ j → value.testBit j = false := fun j hj =>
    Nat.testBit_lt_two_pow (lt_of_lt_of_le hvalue (Nat.pow_le_pow_right (by decide) hj))
  have htop : ∀ j, 128 ≤ j → full.testBit j = false := fun j hj =>
    Nat.testBit_lt_two_pow (lt_of_lt_of_le hfull (Nat.pow_le_pow_right (by decide) hj))
  by_cases hlow : low ≤ k
  · by_cases hcount : k < low + count
    · have hsub : k - low < count := by omega
      simp [hlow, hcount, hsub]
    · have hsub : ¬k - low < count := by omega
      have hnone := hhigh (k - low) (by omega)
      by_cases hwide : k < 128
      · simp [hlow, hcount, hsub, hnone, hwide]
      · simp [hlow, hcount, hsub, hnone, hwide, htop k (by omega)]
  · by_cases hwide : k < 128
    · simp [hlow, hwide]
    · simp [hlow, hwide, htop k (by omega)]

theorem overlay_lt {full low count value width : Nat} (hfull : full < 2 ^ width)
    (hwidth : width ≤ 128) (hinside : low + count ≤ width) (hvalue : value < 2 ^ count) :
    overlay full low count value < 2 ^ width := by
  apply Nat.lt_pow_two_of_testBit
  intro k hk
  have hfull128 := lt_of_lt_of_le hfull (Nat.pow_le_pow_right (by decide) hwidth)
  rw [testBit_overlay hfull128 (by omega) hvalue, if_neg (by omega)]
  exact Nat.testBit_lt_two_pow (lt_of_lt_of_le hfull (Nat.pow_le_pow_right (by decide) hk))

end Library.Bits
