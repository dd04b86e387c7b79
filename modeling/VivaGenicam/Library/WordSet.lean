import Mathlib.Tactic

/-!
Finite sets of naturals stored as the bits of 64-bit words. A list of words
denotes the set of indices whose bit is on; the operations below are the word
operations a program performs, and the theorems say what each does to that
set. Nothing here fixes how many words there are.
-/

namespace Library.WordSet

abbrev Words := List (BitVec 64)

/-- The one-bit mask of `index` within its word. -/
def mask (index : Nat) : BitVec 64 := 1#64 <<< (index % 64)

/-- Membership: the bit of `index` in the word that holds it. -/
def member (words : Words) (index : Nat) : Bool :=
  (words.getD (index / 64) 0#64).getLsbD (index % 64)

def insert (words : Words) (index : Nat) : Words :=
  words.modify (index / 64) (· ||| mask index)

def erase (words : Words) (index : Nat) : Words :=
  words.modify (index / 64) (· &&& ~~~mask index)

/-- Cut or zero-fill to exactly `count` words. -/
def resize (words : Words) (count : Nat) : Words :=
  words.take count ++ List.replicate (count - words.length) 0#64

theorem mask_getLsbD (index bit : Nat) (hbit : bit < 64) :
    (mask index).getLsbD bit = decide (bit = index % 64) := by
  have hindex : index % 64 < 64 := Nat.mod_lt _ (by decide)
  simp only [mask, BitVec.getLsbD_shiftLeft, BitVec.getLsbD_one, hbit, decide_true,
    Bool.true_and]
  by_cases h : bit = index % 64
  · simp [h]
  · simp only [h, decide_false]
    by_cases hlt : bit < index % 64
    · simp [hlt]
    · have : bit - index % 64 ≠ 0 := by omega
      simp [this]

variable (word : BitVec 64)

/-- Testing a word against a one-bit mask reads that bit. -/
theorem and_mask_ne_zero (index : Nat) :
    (word &&& mask index != 0#64) = word.getLsbD (index % 64) := by
  have hindex : index % 64 < 64 := Nat.mod_lt _ (by decide)
  cases hbit : word.getLsbD (index % 64) with
  | true =>
    have hne : word &&& mask index ≠ 0#64 := by
      intro h
      have := congrArg (·.getLsbD (index % 64)) h
      simp [BitVec.getLsbD_and, hbit, mask_getLsbD _ _ hindex] at this
    simpa using hne
  | false =>
    have heq : word &&& mask index = 0#64 := by
      apply BitVec.eq_of_getLsbD_eq
      intro bit hlt
      rw [BitVec.getLsbD_and, mask_getLsbD _ _ hlt, BitVec.getLsbD_zero]
      by_cases h : bit = index % 64
      · simp [h, hbit]
      · simp [h]
    simp [heq]

variable (words : Words)

@[simp] theorem length_insert (index : Nat) :
    (insert words index).length = words.length := by
  simp [insert]

@[simp] theorem length_erase (index : Nat) :
    (erase words index).length = words.length := by
  simp [erase]

@[simp] theorem length_resize (count : Nat) :
    (resize words count).length = count := by
  simp [resize]
  omega

theorem getD_modify (f : BitVec 64 → BitVec 64) (at_ word : Nat) (hat : at_ < words.length) :
    (words.modify at_ f).getD word 0#64 =
      if word = at_ then f (words.getD word 0#64) else words.getD word 0#64 := by
  simp only [List.getD_eq_getElem?_getD, List.getElem?_modify]
  by_cases h : word = at_
  · subst h
    simp [List.getElem?_eq_getElem hat]
  · have h' : ¬ at_ = word := fun heq => h heq.symm
    simp [h, h']

/-- Two indices share both word and bit exactly when they are equal. -/
theorem index_eq_iff (i j : Nat) : i = j ↔ i / 64 = j / 64 ∧ i % 64 = j % 64 := by
  constructor
  · rintro rfl
    exact ⟨rfl, rfl⟩
  · rintro ⟨hdiv, hmod⟩
    omega

theorem member_insert (index other : Nat) (hindex : index / 64 < words.length) :
    member (insert words index) other = (decide (other = index) || member words other) := by
  have hbit : other % 64 < 64 := Nat.mod_lt _ (by decide)
  unfold member insert
  rw [getD_modify _ _ _ _ hindex]
  by_cases hword : other / 64 = index / 64
  · rw [if_pos hword, BitVec.getLsbD_or, mask_getLsbD _ _ hbit, Bool.or_comm]
    have : other % 64 = index % 64 ↔ other = index := by
      rw [index_eq_iff other index]
      simp [hword]
    simp [this]
  · have hne : other ≠ index := fun h => hword (by rw [h])
    simp [hword, hne]

theorem member_erase (index other : Nat) (hindex : index / 64 < words.length) :
    member (erase words index) other = (!decide (other = index) && member words other) := by
  have hbit : other % 64 < 64 := Nat.mod_lt _ (by decide)
  unfold member erase
  rw [getD_modify _ _ _ _ hindex]
  by_cases hword : other / 64 = index / 64
  · rw [if_pos hword, BitVec.getLsbD_and, BitVec.getLsbD_not, mask_getLsbD _ _ hbit,
      Bool.and_comm]
    have : other % 64 = index % 64 ↔ other = index := by
      rw [index_eq_iff other index]
      simp [hword]
    simp [this, hbit]
  · have hne : other ≠ index := fun h => hword (by rw [h])
    simp [hword, hne]

@[simp] theorem member_replicate (count index : Nat) :
    member (List.replicate count 0#64) index = false := by
  by_cases h : index / 64 < count <;>
    simp [member, List.getD_eq_getElem?_getD, h]

theorem member_resize_of_le (count index : Nat)
    (h : words.length ≤ count) : member (resize words count) index = member words index := by
  unfold member resize
  rw [List.take_of_length_le h]
  by_cases hlt : index / 64 < words.length
  · rw [List.getD_eq_getElem?_getD, List.getElem?_append_left hlt, List.getD_eq_getElem?_getD]
  · have hge : words.length ≤ index / 64 := by omega
    rw [List.getD_eq_getElem?_getD, List.getElem?_append_right hge, List.getD_eq_getElem?_getD,
      List.getElem?_eq_none hge]
    cases hget : (List.replicate (count - words.length) 0#64)[index / 64 - words.length]? with
    | none => rfl
    | some word =>
      have := List.eq_of_mem_replicate (List.mem_of_getElem? hget)
      simp [this]

/-- The number of members below `bound`. -/
def card (words : Words) (bound : Nat) : Nat :=
  (List.range bound).countP (member words)

theorem card_congr {first second : Words} (bound : Nat)
    (h : ∀ index, member first index = member second index) :
    card first bound = card second bound := by
  unfold card
  congr 1
  funext index
  exact h index

@[simp] theorem card_replicate (count bound : Nat) :
    card (List.replicate count 0#64) bound = 0 := by
  apply List.countP_eq_zero.mpr
  intro index _
  simp

theorem countP_flip (p q : Nat → Bool) (bound index : Nat) (hindex : index < bound)
    (hother : ∀ j, j ≠ index → q j = p j) (hp : p index = false) (hq : q index = true) :
    (List.range bound).countP q = (List.range bound).countP p + 1 := by
  induction bound with
  | zero => omega
  | succ bound ih =>
    rw [List.range_succ, List.countP_append, List.countP_append]
    by_cases h : index = bound
    · subst h
      have hrest : (List.range index).countP q = (List.range index).countP p := by
        apply List.countP_congr
        intro j hj
        rw [hother j (by have := List.mem_range.mp hj; omega)]
      simp [hrest, hp, hq]
    · have := ih (by omega)
      simp only [List.countP_singleton, hother bound (Ne.symm h), this]
      omega

theorem card_insert (bound index : Nat) (hbound : index < bound)
    (hindex : index / 64 < words.length) (hnot : member words index = false) :
    card (insert words index) bound = card words bound + 1 := by
  apply countP_flip _ _ _ index hbound
  · intro j hj
    simp [member_insert words index j hindex, hj]
  · exact hnot
  · simp [member_insert words index index hindex]

theorem card_erase (bound index : Nat) (hbound : index < bound)
    (hindex : index / 64 < words.length) (hmem : member words index = true) :
    card (erase words index) bound + 1 = card words bound := by
  symm
  apply countP_flip _ _ _ index hbound
  · intro j hj
    simp [member_erase words index j hindex, hj]
  · simp [member_erase words index index hindex]
  · exact hmem

/-- Members all lie below `small`, so counting further changes nothing. -/
theorem card_eq_of_le (small large : Nat) (hle : small ≤ large)
    (hclear : ∀ index, small ≤ index → member words index = false) :
    card words large = card words small := by
  induction large with
  | zero =>
    have : small = 0 := by omega
    subst this
    rfl
  | succ large ih =>
    by_cases h : small = large + 1
    · rw [h]
    · have hlarge : member words large = false := hclear large (by omega)
      rw [← ih (by omega)]
      simp [card, List.range_succ, List.countP_append, hlarge]

theorem allOnes_iff :
    word = BitVec.allOnes 64 ↔ ∀ bit < 64, word.getLsbD bit = true := by
  constructor
  · rintro rfl bit hbit
    rw [BitVec.getLsbD_allOnes]
    exact decide_eq_true hbit
  · intro h
    apply BitVec.eq_of_getLsbD_eq
    intro bit hbit
    rw [h bit hbit, BitVec.getLsbD_allOnes, decide_eq_true hbit]

/-- The word whose low `count` bits are on. -/
def lowBits (count : Nat) : BitVec 64 := (1#64 <<< count) - 1#64

theorem lowBits_getLsbD (count bit : Nat) (hcount : count < 64) :
    (lowBits count).getLsbD bit = decide (bit < count) := by
  have hpow : 2 ^ count < 2 ^ 64 := Nat.pow_lt_pow_right (by decide) hcount
  have hone : 1 ≤ 2 ^ count := Nat.one_le_two_pow
  have hval : (lowBits count).toNat = 2 ^ count - 1 := by
    rw [lowBits, BitVec.toNat_sub, BitVec.toNat_shiftLeft]
    simp only [BitVec.toNat_ofNat, Nat.shiftLeft_eq]
    have h1 : 1 % 2 ^ 64 * 2 ^ count % 2 ^ 64 = 2 ^ count := by
      rw [Nat.mod_eq_of_lt (by decide : 1 < 2 ^ 64), Nat.one_mul, Nat.mod_eq_of_lt hpow]
    omega
  rw [← BitVec.testBit_toNat, hval, Nat.testBit_two_pow_sub_one]

theorem and_lowBits_iff (count : Nat) (hcount : count < 64) :
    word &&& lowBits count = lowBits count ↔ ∀ bit < count, word.getLsbD bit = true := by
  constructor
  · intro h bit hbit
    have := congrArg (·.getLsbD bit) h
    simpa [BitVec.getLsbD_and, lowBits_getLsbD count bit hcount, hbit] using this
  · intro h
    apply BitVec.eq_of_getLsbD_eq
    intro bit _
    rw [BitVec.getLsbD_and, lowBits_getLsbD count bit hcount]
    by_cases hlt : bit < count
    · simp [hlt, h bit hlt]
    · simp [hlt]

/-- Whether indices `0 .. count - 1` are all members, read a word at a time:
the full words are all ones and the rest of the next word is on. -/
def prefixFull (words : Words) (count : Nat) : Bool :=
  !(words.take (count / 64)).any (· != BitVec.allOnes 64) &&
    (count % 64 == 0 ||
      words.getD (count / 64) 0#64 &&& lowBits (count % 64) == lowBits (count % 64))

theorem full_words_iff (full : Nat) (hfull : full ≤ words.length) :
    (words.take full).any (· != BitVec.allOnes 64) = false ↔
      ∀ index < 64 * full, member words index = true := by
  simp only [List.any_eq_false, bne_iff_ne, ne_eq, not_not]
  constructor
  · intro h index hindex
    have hword : index / 64 < full := by omega
    have hlen : index / 64 < words.length := by omega
    have hmem : words[index / 64] ∈ words.take full :=
      List.mem_take_iff_getElem.mpr ⟨index / 64, by omega, rfl⟩
    have hones := (allOnes_iff _).mp (h _ hmem) (index % 64) (Nat.mod_lt _ (by decide))
    simpa [member, List.getD_eq_getElem?_getD, List.getElem?_eq_getElem hlen] using hones
  · intro h word hword
    obtain ⟨at_, hat, rfl⟩ := List.mem_take_iff_getElem.mp hword
    have hlen : at_ < words.length := by omega
    apply (allOnes_iff _).mpr
    intro bit hbit
    have := h (64 * at_ + bit) (by omega)
    have hdiv : (64 * at_ + bit) / 64 = at_ := by omega
    have hmod : (64 * at_ + bit) % 64 = bit := by omega
    simpa [member, hdiv, hmod, List.getD_eq_getElem?_getD, List.getElem?_eq_getElem hlen]
      using this

theorem prefixFull_iff (count : Nat) (hcount : count ≤ 64 * words.length) :
    prefixFull words count = true ↔ ∀ index < count, member words index = true := by
  have hfull : count / 64 ≤ words.length := by omega
  have hrest : count % 64 < 64 := Nat.mod_lt _ (by decide)
  have htail : (count % 64 == 0 ||
      words.getD (count / 64) 0#64 &&& lowBits (count % 64) == lowBits (count % 64)) = true ↔
      ∀ bit < count % 64, (words.getD (count / 64) 0#64).getLsbD bit = true := by
    rw [Bool.or_eq_true, beq_iff_eq, beq_iff_eq, and_lowBits_iff _ _ hrest]
    constructor
    · rintro (hzero | hall) bit hbit
      · omega
      · exact hall bit hbit
    · exact Or.inr
  rw [prefixFull, Bool.and_eq_true, Bool.not_eq_true', full_words_iff words _ hfull, htail]
  constructor
  · rintro ⟨hwords, hbits⟩ index hindex
    by_cases h : index < 64 * (count / 64)
    · exact hwords index h
    · have hdiv : index / 64 = count / 64 := by omega
      have := hbits (index % 64) (by omega)
      simpa [member, hdiv] using this
  · intro h
    refine ⟨fun index hindex => h index (by omega), fun bit hbit => ?_⟩
    have := h (64 * (count / 64) + bit) (by omega)
    have hdiv : (64 * (count / 64) + bit) / 64 = count / 64 := by omega
    have hmod : (64 * (count / 64) + bit) % 64 = bit := by omega
    simpa [member, hdiv, hmod] using this

end Library.WordSet
