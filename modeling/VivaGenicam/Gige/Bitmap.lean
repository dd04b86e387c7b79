import VivaGenicam.Library.WordSet
import Mathlib.Algebra.Order.Floor.Div

/-!
The packet bitmap of one block: which data packets have been received. It
carries its own consistency: enough words for the packets it tracks, no bit on
beyond them, and a count that agrees with the bits. Every theorem about a
bitmap is therefore unconditional.
-/

namespace VivaGenicam.Gvsp

open Library

structure PacketBitmap where
  words : WordSet.Words
  received : Nat
  total : Nat
  words_length : words.length = total ⌈/⌉ 64
  beyond_clear : ∀ index, total ≤ index → WordSet.member words index = false
  received_eq : received = WordSet.card words total

theorem div_lt_ceilDiv {index total : Nat} (h : index < total) :
    index / 64 < total ⌈/⌉ 64 := by
  rw [Nat.ceilDiv_eq_add_pred_div]
  omega

variable (total : Nat)

theorem le_mul_ceilDiv : total ≤ 64 * (total ⌈/⌉ 64) := by
  rw [Nat.ceilDiv_eq_add_pred_div]
  omega

theorem ceilDiv_mono {small large : Nat} (h : small ≤ large) :
    small ⌈/⌉ 64 ≤ large ⌈/⌉ 64 := by
  simp only [Nat.ceilDiv_eq_add_pred_div]
  omega

namespace PacketBitmap

def new (total : Nat) : PacketBitmap where
  words := List.replicate (total ⌈/⌉ 64) 0#64
  received := 0
  total
  words_length := by simp
  beyond_clear := by simp
  received_eq := by simp

/-- `PacketBitmap::default()`. -/
def empty : PacketBitmap := new 0

/-- Clear every bit and track `total` packets. Only the allocation of the old
words is reused. -/
def reset (_bitmap : PacketBitmap) (total : Nat) : PacketBitmap := new total

/-- Grow to track at least `total` packets, keeping the bits already set. -/
def grow (bitmap : PacketBitmap) (total : Nat) : PacketBitmap :=
  if h : total > bitmap.total then
    have hle : bitmap.words.length ≤ total ⌈/⌉ 64 := by
      rw [bitmap.words_length]
      exact ceilDiv_mono (by omega)
    { words := WordSet.resize bitmap.words (total ⌈/⌉ 64)
      received := bitmap.received
      total
      words_length := by simp
      beyond_clear := fun index hindex => by
        rw [WordSet.member_resize_of_le _ _ _ hle]
        exact bitmap.beyond_clear index (by omega)
      received_eq := by
        rw [WordSet.card_congr total fun index =>
            WordSet.member_resize_of_le bitmap.words (total ⌈/⌉ 64) index hle,
          WordSet.card_eq_of_le _ bitmap.total _ (by omega) bitmap.beyond_clear]
        exact bitmap.received_eq }
  else
    bitmap

def len (bitmap : PacketBitmap) : Nat := bitmap.total

/-- Whether a packet index is marked received. -/
def contains (bitmap : PacketBitmap) (packetId : Nat) : Bool :=
  if packetId ≥ bitmap.total then
    false
  else
    bitmap.words.getD (packetId / 64) 0#64 &&& WordSet.mask packetId != 0#64

variable (bitmap : PacketBitmap)

theorem contains_eq_member (packetId : Nat) :
    bitmap.contains packetId = WordSet.member bitmap.words packetId := by
  unfold contains
  split
  · rename_i h
    rw [bitmap.beyond_clear packetId h]
  · rw [WordSet.and_mask_ne_zero]
    rfl

theorem lt_total_of_contains {bitmap : PacketBitmap} {packetId : Nat}
    (h : bitmap.contains packetId = true) : packetId < bitmap.total := by
  by_contra hge
  have := bitmap.beyond_clear packetId (by omega)
  rw [← contains_eq_member, h] at this
  cases this

/-- Mark a packet index as received. The flag is `false` for an index already
marked or beyond the bitmap. -/
def set (bitmap : PacketBitmap) (packetId : Nat) : Bool × PacketBitmap :=
  if h : packetId < bitmap.total ∧ bitmap.contains packetId = false then
    have hword : packetId / 64 < bitmap.words.length := by
      rw [bitmap.words_length]
      exact div_lt_ceilDiv h.1
    (true,
      { words := WordSet.insert bitmap.words packetId
        received := bitmap.received + 1
        total := bitmap.total
        words_length := by simpa using bitmap.words_length
        beyond_clear := fun index hindex => by
          rw [WordSet.member_insert _ _ _ hword, bitmap.beyond_clear index hindex]
          simp
          omega
        received_eq := by
          rw [WordSet.card_insert _ _ _ h.1 hword (by rw [← contains_eq_member]; exact h.2),
            bitmap.received_eq] })
  else
    (false, bitmap)

/-- Unmark a packet index. The flag is `false` for an index not marked. -/
def clear (bitmap : PacketBitmap) (packetId : Nat) : Bool × PacketBitmap :=
  if h : bitmap.contains packetId = true then
    have hlt : packetId < bitmap.total := lt_total_of_contains h
    have hword : packetId / 64 < bitmap.words.length := by
      rw [bitmap.words_length]
      exact div_lt_ceilDiv hlt
    (true,
      { words := WordSet.erase bitmap.words packetId
        received := bitmap.received - 1
        total := bitmap.total
        words_length := by simpa using bitmap.words_length
        beyond_clear := fun index hindex => by
          rw [WordSet.member_erase _ _ _ hword, bitmap.beyond_clear index hindex]
          simp
        received_eq := by
          have := WordSet.card_erase _ _ _ hlt hword (by rw [← contains_eq_member]; exact h)
          rw [bitmap.received_eq]
          omega })
  else
    (false, bitmap)

/-- Whether the first `count` indices are all marked received. -/
def firstNComplete (bitmap : PacketBitmap) (count : Nat) : Bool :=
  if count > bitmap.total then
    false
  else
    WordSet.prefixFull bitmap.words count

@[simp] theorem contains_new (total packetId : Nat) :
    (new total).contains packetId = false := by
  rw [contains_eq_member]
  simp [new]

@[simp] theorem total_new : (new total).total = total := rfl

@[simp] theorem received_new : (new total).received = 0 := rfl

@[simp] theorem reset_eq (total : Nat) :
    bitmap.reset total = new total := rfl

@[simp] theorem total_grow (total : Nat) :
    (bitmap.grow total).total = max bitmap.total total := by
  unfold grow
  split
  · dsimp only
    omega
  · omega

@[simp] theorem received_grow (total : Nat) :
    (bitmap.grow total).received = bitmap.received := by
  unfold grow
  split <;> rfl

@[simp] theorem contains_grow (total packetId : Nat) :
    (bitmap.grow total).contains packetId = bitmap.contains packetId := by
  rw [contains_eq_member, contains_eq_member]
  unfold grow
  split
  · rename_i h
    have hle : bitmap.words.length ≤ total ⌈/⌉ 64 := by
      rw [bitmap.words_length]
      exact ceilDiv_mono (by omega)
    exact WordSet.member_resize_of_le _ _ _ hle
  · rfl

@[simp] theorem total_set (packetId : Nat) :
    (bitmap.set packetId).2.total = bitmap.total := by
  unfold set
  split <;> rfl

theorem contains_set (packetId other : Nat) (hlt : packetId < bitmap.total) :
    (bitmap.set packetId).2.contains other =
      (decide (other = packetId) || bitmap.contains other) := by
  have hword : packetId / 64 < bitmap.words.length := by
    rw [bitmap.words_length]
    exact div_lt_ceilDiv hlt
  by_cases hset : bitmap.contains packetId = false
  · rw [contains_eq_member, contains_eq_member bitmap other, set, dif_pos ⟨hlt, hset⟩]
    exact WordSet.member_insert _ _ _ hword
  · rw [set, dif_neg (fun h => hset h.2)]
    by_cases h : other = packetId
    · subst h
      simpa using hset
    · simp [h]

theorem received_set (packetId : Nat) (hlt : packetId < bitmap.total)
    (hclear : bitmap.contains packetId = false) :
    (bitmap.set packetId).2.received = bitmap.received + 1 := by
  rw [set, dif_pos ⟨hlt, hclear⟩]

theorem clear_fst (packetId : Nat) :
    (bitmap.clear packetId).1 = bitmap.contains packetId := by
  unfold clear
  split
  · rename_i h
    exact h.symm
  · rename_i h
    simpa using h

@[simp] theorem total_clear (packetId : Nat) :
    (bitmap.clear packetId).2.total = bitmap.total := by
  unfold clear
  split <;> rfl

@[simp] theorem contains_clear (packetId other : Nat) :
    (bitmap.clear packetId).2.contains other =
      (!decide (other = packetId) && bitmap.contains other) := by
  by_cases hset : bitmap.contains packetId = true
  · have hword : packetId / 64 < bitmap.words.length := by
      rw [bitmap.words_length]
      exact div_lt_ceilDiv (lt_total_of_contains hset)
    rw [contains_eq_member, contains_eq_member bitmap other, clear, dif_pos hset]
    exact WordSet.member_erase _ _ _ hword
  · rw [clear, dif_neg hset]
    by_cases h : other = packetId
    · subst h
      simpa using hset
    · simp [h]

theorem received_clear (packetId : Nat) (hset : bitmap.contains packetId = true) :
    (bitmap.clear packetId).2.received + 1 = bitmap.received := by
  have hlt := lt_total_of_contains hset
  have hword : packetId / 64 < bitmap.words.length := by
    rw [bitmap.words_length]
    exact div_lt_ceilDiv hlt
  have hcard := WordSet.card_erase _ _ _ hlt hword (by rw [← contains_eq_member]; exact hset)
  rw [clear, dif_pos hset]
  dsimp only
  rw [bitmap.received_eq]
  omega

theorem firstNComplete_iff (count : Nat) :
    bitmap.firstNComplete count = true ↔
      count ≤ bitmap.total ∧ ∀ index < count, bitmap.contains index = true := by
  unfold firstNComplete
  split
  · rename_i h
    simp only [Bool.false_eq_true, false_iff, not_and]
    omega
  · rename_i h
    have hcount : count ≤ 64 * bitmap.words.length := by
      rw [bitmap.words_length]
      have := le_mul_ceilDiv bitmap.total
      omega
    rw [WordSet.prefixFull_iff _ _ hcount]
    simp only [contains_eq_member]
    constructor
    · exact fun hall => ⟨by omega, hall⟩
    · exact fun hall => hall.2

end PacketBitmap

end VivaGenicam.Gvsp
