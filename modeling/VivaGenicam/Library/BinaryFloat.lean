import Mathlib.Tactic
import Mathlib.Data.Rat.Floor
import Mathlib.Data.Nat.Find

/-!
Floating point numbers as exact rationals, with two infinities, a zero below zero and what
is not a number; and the words that hold them, a sign, an exponent and a fraction, as IEEE
754 lays them out. Arithmetic is exact. A word holds the number nearest to the one it was
made from, a tie going to the even word; the words of a sign, read as numbers, ascend.
-/

namespace Library.BinaryFloat

inductive Number where
  | finite (value : ℚ)
  | negativeZero
  | infinite (negative : Bool)
  | nan
deriving DecidableEq

namespace Number

/-- The rational a finite number is. -/
def toRat? : Number → Option ℚ
  | .finite value => some value
  | .negativeZero => some 0
  | .infinite _ | .nan => none

def rat (number : Number) : ℚ := number.toRat?.getD 0

def isFinite (number : Number) : Bool := number.toRat?.isSome

def negative : Number → Bool
  | .finite value => value < 0
  | .negativeZero => true
  | .infinite negative => negative
  | .nan => false

def add : Number → Number → Number
  | .nan, _ | _, .nan => .nan
  | .infinite left, .infinite right => if left = right then .infinite left else .nan
  | .infinite left, _ => .infinite left
  | _, .infinite right => .infinite right
  | left, right => .finite (left.rat + right.rat)

def neg : Number → Number
  | .finite value => .finite (-value)
  | .negativeZero => .finite 0
  | .infinite negative => .infinite !negative
  | .nan => .nan

def sub (left right : Number) : Number := left.add right.neg

def mul : Number → Number → Number
  | .nan, _ | _, .nan => .nan
  | .infinite left, right => if right.toRat? = some 0 then .nan else .infinite (left ^^ right.negative)
  | left, .infinite right => if left.toRat? = some 0 then .nan else .infinite (left.negative ^^ right)
  | left, right => .finite (left.rat * right.rat)

/-- The quotient of two integers. -/
def ratio (num den : Int) : Number :=
  if den ≠ 0 then .finite (num / den)
  else if num = 0 then .nan else .infinite (num < 0)

def abs : Number → Number
  | .finite value => .finite |value|
  | .negativeZero => .finite 0
  | .infinite _ => .infinite false
  | .nan => .nan

/-- Nothing is below or above what is not a number. -/
def lt : Number → Number → Bool
  | .nan, _ | _, .nan => false
  | .infinite left, .infinite right => left && !right
  | .infinite left, _ => left
  | _, .infinite right => !right
  | left, right => left.rat < right.rat

/-- The nearest integer, a half going away from zero. -/
def roundAway (value : ℚ) : Int := if 0 ≤ value then ⌊value + 1 / 2⌋ else ⌈value - 1 / 2⌉

def round : Number → Number
  | .finite value => .finite (roundAway value)
  | other => other

theorem isFinite_iff {number : Number} : number.isFinite = true ↔ number.toRat? = some number.rat := by
  cases number <;> simp [isFinite, rat, toRat?]

theorem roundAway_intCast (value : Int) : roundAway value = value := by
  unfold roundAway
  split
  · rw [add_comm, Int.floor_add_intCast]
    norm_num
  · rw [sub_eq_neg_add, Int.ceil_add_intCast]
    norm_num

variable {left right number : Number} {value : ℚ}

theorem toRat?_add : (left.add right).toRat? = some value ↔
    ∃ x y, left.toRat? = some x ∧ right.toRat? = some y ∧ x + y = value := by
  cases left <;> cases right <;> simp [add, toRat?, rat]
  rename_i left right
  cases left <;> cases right <;> simp

theorem toRat?_neg : number.neg.toRat? = some value ↔ number.toRat? = some (-value) := by
  cases number <;> simp [neg, toRat?, neg_eq_iff_eq_neg, @eq_comm _ 0 value]

theorem toRat?_sub : (left.sub right).toRat? = some value ↔
    ∃ x y, left.toRat? = some x ∧ right.toRat? = some y ∧ x - y = value := by
  rw [sub, toRat?_add]
  constructor
  · rintro ⟨x, y, hx, hy, rfl⟩
    exact ⟨x, -y, hx, toRat?_neg.mp hy, by ring⟩
  · rintro ⟨x, y, hx, hy, rfl⟩
    exact ⟨x, -y, hx, toRat?_neg.mpr (by rw [neg_neg]; exact hy), by ring⟩

theorem toRat?_mul : (left.mul right).toRat? = some value ↔
    ∃ x y, left.toRat? = some x ∧ right.toRat? = some y ∧ x * y = value := by
  cases left <;> cases right <;> simp [mul, toRat?, rat]
  all_goals split_ifs <;> simp

theorem toRat?_round : number.round.toRat? = some value ↔
    ∃ x, number.toRat? = some x ∧ (roundAway x : ℚ) = value := by
  cases number <;> simp [round, toRat?]
  have hzero := roundAway_intCast 0
  rw [Int.cast_zero] at hzero
  rw [hzero, Int.cast_zero]

theorem toRat?_abs : number.abs.toRat? = some value ↔
    ∃ x, number.toRat? = some x ∧ |x| = value := by
  cases number <;> simp [abs, toRat?]

theorem lt_iff {x y : ℚ} (hleft : left.toRat? = some x) (hright : right.toRat? = some y) :
    left.lt right = true ↔ x < y := by
  cases left <;> cases right <;> simp_all [lt, toRat?, rat]

end Number

/-- The widths of a word's parts, behind its sign. -/
structure Format where
  exponent : Nat
  fraction : Nat

namespace Format

def single : Format := ⟨8, 23⟩

def double : Format := ⟨11, 52⟩

variable (format : Format)

def signBit : Nat := 2 ^ (format.exponent + format.fraction)

/-- The word of infinity: no finite number's is as large. -/
def top : Nat := (2 ^ format.exponent - 1) * 2 ^ format.fraction

/-- A word without its sign, in units of the smallest number above zero. -/
def units (word : Nat) : Nat :=
  if word / 2 ^ format.fraction = 0 then word % 2 ^ format.fraction
  else (2 ^ format.fraction + word % 2 ^ format.fraction) * 2 ^ (word / 2 ^ format.fraction - 1)

/-- The smallest number above zero. -/
def unit : ℚ := 2 ^ (2 - 2 ^ (format.exponent - 1) - (format.fraction : Int))

def magnitude (word : Nat) : ℚ := format.units word * format.unit

/-- The number a word holds. -/
def decode (bits : Nat) : Number :=
  let negative : Bool := bits / format.signBit % 2 = 1
  let word := bits % format.signBit
  if format.top < word then .nan
  else if word = format.top then .infinite negative
  else if negative then
    if word = 0 then .negativeZero else .finite (-format.magnitude word)
  else .finite (format.magnitude word)

/-- The word of the number nearest to a value that is not below zero. -/
def nearest (value : ℚ) : Nat :=
  let below := Nat.findGreatest (fun word => format.magnitude word ≤ value) (format.top - 1)
  let twice := format.magnitude below + format.magnitude (below + 1)
  if 2 * value < twice then below
  else if twice < 2 * value then below + 1
  else if below % 2 = 0 then below else below + 1

/-- The word of a number. -/
def encode : Number → Nat
  | .finite value => (if value < 0 then format.signBit else 0) + format.nearest |value|
  | .negativeZero => format.signBit
  | .infinite negative => (if negative then format.signBit else 0) + format.top
  | .nan => format.top + 2 ^ (format.fraction - 1)

/-- A number as the format's words hold it. -/
def rounded (number : Number) : Number := format.decode (format.encode number)

theorem units_succ (word : Nat) : format.units word < format.units (word + 1) := by
  have hpos : 0 < 2 ^ format.fraction := Nat.two_pow_pos _
  have hword := Nat.div_add_mod word (2 ^ format.fraction)
  have hlow := Nat.mod_lt word hpos
  rcases Nat.lt_or_ge (word % 2 ^ format.fraction + 1) (2 ^ format.fraction) with hsame | hcarry
  · have hsucc : word + 1 = 2 ^ format.fraction * (word / 2 ^ format.fraction) +
        (word % 2 ^ format.fraction + 1) := by omega
    have hdiv : (word + 1) / 2 ^ format.fraction = word / 2 ^ format.fraction := by
      rw [hsucc, Nat.mul_add_div hpos, Nat.div_eq_of_lt hsame, Nat.add_zero]
    have hmod : (word + 1) % 2 ^ format.fraction = word % 2 ^ format.fraction + 1 := by
      rw [hsucc, Nat.mul_add_mod, Nat.mod_eq_of_lt hsame]
    unfold units
    rw [hdiv, hmod]
    split
    · omega
    · exact Nat.mul_lt_mul_of_pos_right (by omega) (Nat.two_pow_pos _)
  · have hsucc : word + 1 = 2 ^ format.fraction * (word / 2 ^ format.fraction + 1) := by
      rw [Nat.mul_add, Nat.mul_one]
      omega
    have hdiv : (word + 1) / 2 ^ format.fraction = word / 2 ^ format.fraction + 1 := by
      rw [hsucc, Nat.mul_div_cancel_left _ hpos]
    have hmod : (word + 1) % 2 ^ format.fraction = 0 := by
      rw [hsucc, Nat.mul_mod_right]
    unfold units
    rw [hdiv, hmod, if_neg (Nat.succ_ne_zero _), Nat.add_zero, Nat.add_sub_cancel]
    split
    · rename_i hzero
      rw [hzero, pow_zero, Nat.mul_one]
      exact hlow
    · rename_i hnormal
      calc
        (2 ^ format.fraction + word % 2 ^ format.fraction) * 2 ^ (word / 2 ^ format.fraction - 1)
            < (2 ^ format.fraction + 2 ^ format.fraction) *
              2 ^ (word / 2 ^ format.fraction - 1) :=
          Nat.mul_lt_mul_of_pos_right (by omega) (Nat.two_pow_pos _)
        _ = 2 ^ format.fraction * 2 ^ (word / 2 ^ format.fraction - 1 + 1) := by
          rw [pow_succ]
          ring
        _ = 2 ^ format.fraction * 2 ^ (word / 2 ^ format.fraction) := by
          rw [Nat.sub_add_cancel (Nat.pos_of_ne_zero hnormal)]

theorem unit_pos : 0 < format.unit := zpow_pos (by norm_num) _

theorem magnitude_strictMono : StrictMono format.magnitude := by
  refine strictMono_nat_of_lt_succ fun word => ?_
  exact mul_lt_mul_of_pos_right (by exact_mod_cast format.units_succ word) format.unit_pos

theorem magnitude_zero : format.magnitude 0 = 0 := by simp [magnitude, units]

theorem magnitude_nonneg (word : Nat) : 0 ≤ format.magnitude word :=
  mul_nonneg (Nat.cast_nonneg _) format.unit_pos.le

variable {format} {value : ℚ}

/-- The word below a value that is not too large, and the next. -/
theorem between (hpos : 0 ≤ value) (hmax : value ≤ format.magnitude (format.top - 1)) :
    ∃ below, Nat.findGreatest (fun word => format.magnitude word ≤ value) (format.top - 1) = below ∧
      below ≤ format.top - 1 ∧ format.magnitude below ≤ value ∧
      value < format.magnitude (below + 1) := by
  have hzero : format.magnitude 0 ≤ value := by rw [format.magnitude_zero]; exact hpos
  have hbelow := @Nat.findGreatest_spec 0 (fun word => format.magnitude word ≤ value) _
    (format.top - 1) (Nat.zero_le _) hzero
  have hle := @Nat.findGreatest_le (fun word => format.magnitude word ≤ value) _ (format.top - 1)
  refine ⟨_, rfl, hle, hbelow, ?_⟩
  rcases Nat.eq_or_lt_of_le hle with hlast | hinside
  · rw [hlast]
    exact hmax.trans_lt (format.magnitude_strictMono (Nat.lt_succ_self _))
  · exact not_le.mp (Nat.findGreatest_is_greatest (Nat.lt_succ_self _) hinside)

/-- A value goes to the nearer of the words around it: no word's number is nearer. -/
theorem nearest_spec (hpos : 0 ≤ value) (hmax : value ≤ format.magnitude (format.top - 1)) :
    format.nearest value ≤ format.top - 1 ∧
      ∀ word, |format.magnitude (format.nearest value) - value| ≤ |format.magnitude word - value| := by
  obtain ⟨below, hfound, hle, hbelow, hnext⟩ := between hpos hmax
  have hlower : ∀ word ≤ below, value - format.magnitude below ≤ |format.magnitude word - value| := by
    intro word hword
    have hmono := format.magnitude_strictMono.monotone hword
    rw [abs_sub_comm]
    exact (by linarith : _ ≤ value - format.magnitude word).trans (le_abs_self _)
  have hupper : ∀ word, below + 1 ≤ word →
      format.magnitude (below + 1) - value ≤ |format.magnitude word - value| := by
    intro word hword
    have hmono := format.magnitude_strictMono.monotone hword
    exact (by linarith : _ ≤ format.magnitude word - value).trans (le_abs_self _)
  have hdown : format.nearest value = below →
      2 * value ≤ format.magnitude below + format.magnitude (below + 1) →
      format.nearest value ≤ format.top - 1 ∧ ∀ word,
        |format.magnitude (format.nearest value) - value| ≤ |format.magnitude word - value| := by
    intro hnearest hhalf
    rw [hnearest]
    refine ⟨hle, fun word => ?_⟩
    rw [abs_sub_comm, abs_of_nonneg (sub_nonneg.mpr hbelow)]
    rcases Nat.lt_or_ge below word with hword | hword
    · exact (by linarith : _ ≤ format.magnitude (below + 1) - value).trans (hupper word hword)
    · exact hlower word hword
  have hup : format.nearest value = below + 1 →
      format.magnitude below + format.magnitude (below + 1) ≤ 2 * value →
      format.nearest value ≤ format.top - 1 ∧ ∀ word,
        |format.magnitude (format.nearest value) - value| ≤ |format.magnitude word - value| := by
    intro hnearest hhalf
    rw [hnearest]
    refine ⟨?_, fun word => ?_⟩
    · by_contra hlast
      rw [show format.top - 1 = below by omega] at hmax
      linarith
    · rw [abs_of_nonneg (sub_nonneg.mpr hnext.le)]
      rcases Nat.lt_or_ge below word with hword | hword
      · exact hupper word hword
      · exact (by linarith : _ ≤ value - format.magnitude below).trans (hlower word hword)
  unfold nearest at hdown hup ⊢
  rw [hfound] at hdown hup ⊢
  dsimp only at hdown hup ⊢
  split
  · rename_i hless
    rw [if_pos hless] at hdown
    exact hdown rfl hless.le
  · rename_i hnotLess
    rw [if_neg hnotLess] at hdown hup
    split
    · rename_i hmore
      rw [if_pos hmore] at hup
      exact hup rfl hmore.le
    · rename_i hnotMore
      rw [if_neg hnotMore] at hdown hup
      split
      · rename_i heven
        rw [if_pos heven] at hdown
        exact hdown rfl (not_lt.mp hnotMore)
      · rename_i hodd
        rw [if_neg hodd] at hup
        exact hup rfl (not_lt.mp hnotLess)

variable {word : Nat}

theorem nearest_magnitude (h : word < format.top) :
    format.nearest (format.magnitude word) = word := by
  have hbelow : Nat.findGreatest (fun other => format.magnitude other ≤ format.magnitude word)
      (format.top - 1) = word := by
    refine Nat.findGreatest_eq_iff.mpr ⟨by omega, fun _ => le_rfl, fun other hother _ => ?_⟩
    exact not_le.mpr (format.magnitude_strictMono hother)
  have hnext := format.magnitude_strictMono (Nat.lt_succ_self word)
  rw [nearest, hbelow, if_pos (by rw [two_mul]; exact add_lt_add_right hnext _)]

theorem top_lt_signBit (format : Format) : format.top < format.signBit := by
  have hpos : 0 < 2 ^ format.exponent := Nat.two_pow_pos _
  rw [top, signBit, pow_add]
  exact Nat.mul_lt_mul_of_pos_right (by omega) (Nat.two_pow_pos _)

theorem decode_positive (h : word < format.top) :
    format.decode word = .finite (format.magnitude word) := by
  have htop := format.top_lt_signBit
  unfold decode
  rw [Nat.mod_eq_of_lt (h.trans htop), Nat.div_eq_of_lt (h.trans htop)]
  simp [Nat.not_lt.mpr h.le, h.ne]

theorem decode_negative (h : word < format.top) :
    format.decode (format.signBit + word) =
      if word = 0 then .negativeZero else .finite (-format.magnitude word) := by
  have htop := format.top_lt_signBit
  have hsign : 0 < format.signBit := Nat.two_pow_pos _
  unfold decode
  rw [Nat.add_mod_left, Nat.mod_eq_of_lt (h.trans htop), Nat.add_div_left _ hsign,
    Nat.div_eq_of_lt (h.trans htop)]
  simp [Nat.not_lt.mpr h.le, h.ne]

/-- A number read from a word is written as that word. -/
theorem encode_decode {bits : Nat} (h : bits < 2 * format.signBit)
    (hnan : format.decode bits ≠ .nan) : format.encode (format.decode bits) = bits := by
  have hsign : 0 < format.signBit := Nat.two_pow_pos _
  have hbits := Nat.div_add_mod bits format.signBit
  have hcases : bits / format.signBit = 0 ∨ bits / format.signBit = 1 :=
    Nat.le_one_iff_eq_zero_or_eq_one.mp
      (Nat.lt_succ_iff.mp (Nat.div_lt_of_lt_mul (Nat.mul_comm 2 _ ▸ h)))
  rcases Nat.lt_trichotomy (bits % format.signBit) format.top with hfinite | htop | hlarge
  · have hword := nearest_magnitude hfinite
    have hnonneg := format.magnitude_nonneg (bits % format.signBit)
    rcases hcases with hzero | hone
    · rw [hzero, Nat.mul_zero, Nat.zero_add] at hbits
      rw [hbits] at hfinite hword hnonneg
      rw [decode_positive hfinite, encode, if_neg (not_lt.mpr hnonneg), abs_of_nonneg hnonneg, hword,
        Nat.zero_add]
    · rw [hone, Nat.mul_one] at hbits
      rw [← hbits, decode_negative hfinite]
      split
      · rename_i hzero
        rw [encode, hzero, Nat.add_zero]
      · rename_i hpos
        have habove := format.magnitude_strictMono (Nat.pos_of_ne_zero hpos)
        rw [format.magnitude_zero] at habove
        rw [encode, if_pos (neg_lt_zero.mpr habove), abs_neg, abs_of_nonneg hnonneg, hword]
  · have hdecode : format.decode bits = .infinite (bits / format.signBit % 2 = 1 : Bool) := by
      unfold decode
      rw [htop]
      simp
    rw [hdecode, encode]
    rcases hcases with hzero | hone
    · rw [hzero, Nat.mul_zero, Nat.zero_add, htop] at hbits
      simp [hzero, hbits]
    · rw [hone, Nat.mul_one, htop] at hbits
      simp [hone, hbits]
  · exact absurd (by unfold decode; simp [hlarge]) hnan

theorem abs_of_decode {bits : Nat} (h : (format.decode bits).toRat? = some value) :
    ∃ word, |value| = format.magnitude word := by
  refine ⟨bits % format.signBit, ?_⟩
  have hnonneg := format.magnitude_nonneg (bits % format.signBit)
  unfold decode at h
  dsimp only at h
  split at h
  · cases h
  · split at h
    · cases h
    · split at h
      · split at h
        · rename_i hzero
          cases h
          rw [hzero, format.magnitude_zero, abs_zero]
        · cases h
          rw [abs_neg, abs_of_nonneg hnonneg]
      · cases h
        rw [abs_of_nonneg hnonneg]

/-- A number that is not too large is held as a number, and none that a word holds is
nearer to it. -/
theorem rounded_spec {number : Number} (hvalue : number.toRat? = some value)
    (hmax : |value| ≤ format.magnitude (format.top - 1)) (htop : 0 < format.top) :
    ∃ held, (format.rounded number).toRat? = some held ∧
      ∀ bits other, (format.decode bits).toRat? = some other → |held - value| ≤ |other - value| := by
  obtain ⟨hword, hnearest⟩ := nearest_spec (abs_nonneg value) hmax
  have hinside : format.nearest |value| < format.top := by omega
  suffices hheld : ∃ held, (format.rounded number).toRat? = some held ∧
      |held - value| = abs (format.magnitude (format.nearest |value|) - |value|) by
    obtain ⟨held, hheld, hdistance⟩ := hheld
    refine ⟨held, hheld, fun bits other hother => ?_⟩
    obtain ⟨word, habs⟩ := abs_of_decode hother
    rw [hdistance]
    exact (hnearest word).trans (habs ▸ abs_abs_sub_abs_le other value)
  have hzero : format.nearest 0 = 0 := by
    have := nearest_magnitude htop
    rwa [format.magnitude_zero] at this
  cases number with
  | nan => cases hvalue
  | infinite negative => cases hvalue
  | negativeZero =>
    cases hvalue
    have hheld := decode_negative htop
    rw [if_pos rfl, Nat.add_zero] at hheld
    refine ⟨0, by rw [rounded, encode, hheld]; rfl, ?_⟩
    rw [abs_zero, hzero, format.magnitude_zero]
  | finite other =>
    cases hvalue
    rcases lt_or_ge value 0 with hnegative | hpositive
    · refine ⟨-format.magnitude (format.nearest |value|), ?_, ?_⟩
      · rw [rounded, encode, if_pos hnegative, decode_negative hinside]
        split
        · rename_i hword
          rw [hword, format.magnitude_zero, neg_zero]
          rfl
        · rfl
      · rw [abs_of_neg hnegative, ← abs_neg]
        ring_nf
    · refine ⟨format.magnitude (format.nearest |value|), ?_, ?_⟩
      · rw [rounded, encode, if_neg (not_lt.mpr hpositive), Nat.zero_add, decode_positive hinside]
        rfl
      · rw [abs_of_nonneg hpositive]

theorem encode_lt {number : Number} (hvalue : number.toRat? = some value)
    (hmax : |value| ≤ format.magnitude (format.top - 1)) : format.encode number < 2 * format.signBit := by
  have htop := format.top_lt_signBit
  obtain ⟨hword, -⟩ := nearest_spec (abs_nonneg value) hmax
  cases number with
  | nan => cases hvalue
  | infinite negative => cases hvalue
  | negativeZero =>
    rw [encode]
    omega
  | finite other =>
    cases hvalue
    rw [encode]
    split <;> omega

end Format

end Library.BinaryFloat
