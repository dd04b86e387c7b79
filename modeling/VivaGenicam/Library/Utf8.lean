import Mathlib.Data.List.TakeWhile
import Mathlib.Tactic

/-!
UTF-8 as a reader takes it that accepts any bytes: what begins a character and is
cut short, or is no character at all, becomes a replacement character. A text reads
back as itself; of a text that is cut, the last character may be replaced.
-/

namespace Library.Utf8

def encode (text : List Char) : List UInt8 := text.flatMap String.utf8EncodeChar

/-- A byte that continues a character. -/
def isContinuation (byte : UInt8) : Bool := 0x80 ≤ byte.toNat ∧ byte.toNat ≤ 0xBF

/-- The second bytes that may follow a first, and how many follow it in all. -/
def following (first : UInt8) : (UInt8 → Bool) × Nat :=
  let n := first.toNat
  if 0xC2 ≤ n ∧ n ≤ 0xDF then (isContinuation, 1)
  else if n = 0xE0 then (fun b => 0xA0 ≤ b.toNat ∧ b.toNat ≤ 0xBF, 2)
  else if n = 0xED then (fun b => 0x80 ≤ b.toNat ∧ b.toNat ≤ 0x9F, 2)
  else if 0xE1 ≤ n ∧ n ≤ 0xEF then (isContinuation, 2)
  else if n = 0xF0 then (fun b => 0x90 ≤ b.toNat ∧ b.toNat ≤ 0xBF, 3)
  else if n = 0xF4 then (fun b => 0x80 ≤ b.toNat ∧ b.toNat ≤ 0x8F, 3)
  else if 0xF1 ≤ n ∧ n ≤ 0xF3 then (isContinuation, 3)
  else (fun _ => false, 0)

/-- The bytes after the first that belong to its character, as far as they are valid. -/
def characterTail (first : UInt8) : List UInt8 → List UInt8
  | [] => []
  | b :: rest =>
    if (following first).1 b then
      b :: (rest.take ((following first).2 - 1)).takeWhile isContinuation
    else []

def characterValue (first : UInt8) (tail : List UInt8) : Nat :=
  tail.foldl (fun value byte => value * 64 + byte.toNat % 64)
    (first.toNat % 2 ^ (6 - tail.length))

/-- The character of a first byte and what is valid after it. -/
def character (first : UInt8) (tail : List UInt8) : Char :=
  if first.toNat < 0x80 then Char.ofNat first.toNat
  else if (following first).2 ≠ 0 ∧ tail.length = (following first).2 then
    Char.ofNat (characterValue first tail)
  else '\uFFFD'

def decodeFrom : Nat → List UInt8 → List Char
  | 0, _ | _, [] => []
  | fuel + 1, first :: rest =>
    let tail := characterTail first rest
    character first tail :: decodeFrom fuel (rest.drop tail.length)

/-- Each longest beginning of a character that is cut becomes one replacement. -/
def decodeLossy (bytes : List UInt8) : List Char := decodeFrom bytes.length bytes

theorem decodeFrom_eq {fuel : Nat} {bytes : List UInt8} (h : bytes.length ≤ fuel) :
    decodeFrom fuel bytes = decodeLossy bytes := by
  have hmore : ∀ {fuel more : Nat} {bytes : List UInt8}, bytes.length ≤ fuel →
      decodeFrom (fuel + more) bytes = decodeFrom fuel bytes := by
    intro fuel more
    induction fuel with
    | zero =>
      intro bytes hbytes
      obtain rfl := List.length_eq_zero_iff.mp (Nat.le_zero.mp hbytes)
      cases 0 + more <;> rfl
    | succ fuel ih =>
      intro bytes hbytes
      cases bytes with
      | nil =>
        rw [Nat.succ_add]
        rfl
      | cons first rest =>
        rw [Nat.succ_add]
        simp only [decodeFrom]
        rw [ih]
        rw [List.length_drop]
        rw [List.length_cons] at hbytes
        omega
  obtain ⟨more, rfl⟩ := Nat.exists_eq_add_of_le h
  exact hmore (Nat.le_refl _)

theorem decodeLossy_cons (first : UInt8) (rest : List UInt8) :
    decodeLossy (first :: rest) = character first (characterTail first rest) ::
      decodeLossy (rest.drop (characterTail first rest).length) := by
  change decodeFrom (rest.length + 1) (first :: rest) = _
  rw [decodeFrom, decodeFrom_eq]
  rw [List.length_drop]
  omega

/-- How a character's bytes look to the decoder. -/
structure Shape (c : Char) (first : UInt8) (tail : List UInt8) : Prop where
  encoded : String.utf8EncodeChar c = first :: tail
  count : (following first).2 = tail.length
  second : ∀ b ∈ tail.head?, (following first).1 b
  later : ∀ b ∈ tail.tail, isContinuation b
  ascii : first.toNat < 0x80 ↔ tail = []
  value : character first tail = c

variable {n : Nat}

theorem toNat_ofNat (h : n < 256) : (UInt8.ofNat n).toNat = n := by
  rw [UInt8.toNat_ofNat']
  exact Nat.mod_eq_of_lt h

section

variable {c : Char} {v : Nat} (hv : c.val.toNat = v)
include hv

theorem ofNat_of_val : Char.ofNat v = c := by
  rw [← hv]
  exact Char.ofNat_toNat c

theorem shape_one (h : v ≤ 0x7f) : Shape c (.ofNat v) [] := by
  have h0 : (UInt8.ofNat v).toNat = v := toNat_ofNat (by omega)
  refine ⟨?_, ?_, nofun, nofun, ?_, ?_⟩
  · simp [String.utf8EncodeChar, hv, h]
  · simp only [following, h0]
    repeat' rw [if_neg (by omega)]
    rfl
  · simp only [h0, iff_true]
    omega
  · rw [character, h0, if_pos (by omega), ofNat_of_val hv]

theorem shape_two (hlow : 0x7f < v) (h : v ≤ 0x7ff) :
    Shape c (.ofNat (v / 64 % 0x20 + 0xc0)) [.ofNat (v % 0x40 + 0x80)] := by
  have h0 : (UInt8.ofNat (v / 64 % 0x20 + 0xc0)).toNat = v / 64 + 0xc0 := by
    rw [toNat_ofNat (by omega)]
    omega
  have h1 : (UInt8.ofNat (v % 0x40 + 0x80)).toNat = v % 64 + 128 := toNat_ofNat (by omega)
  have hfollowing : following (.ofNat (v / 64 % 0x20 + 0xc0)) = (isContinuation, 1) := by
    simp only [following, h0]
    rw [if_pos (by omega)]
  refine ⟨?_, ?_, ?_, nofun, ?_, ?_⟩
  · simp only [String.utf8EncodeChar, hv]
    rw [if_neg (by omega), if_pos h]
  · rw [hfollowing]
    rfl
  · intro b hb
    cases hb
    simp only [hfollowing, isContinuation, h1, decide_eq_true_eq]
    omega
  · simp only [h0, List.cons_ne_nil, iff_false]
    omega
  · rw [character, h0, if_neg (by omega), hfollowing, if_pos (by simp)]
    simp only [characterValue, h0, h1, List.foldl_cons, List.foldl_nil, List.length_cons,
      List.length_nil]
    rw [show (v / 64 + 192) % 2 ^ (6 - (0 + 1)) * 64 + (v % 64 + 128) % 64 = v by omega,
      ofNat_of_val hv]

theorem shape_three (hlow : 0x7ff < v) (h : v ≤ 0xffff) (hvalid : v < 0xd800 ∨ 0xdfff < v) :
    Shape c (.ofNat (v / 4096 % 0x10 + 0xe0))
      [.ofNat (v / 64 % 0x40 + 0x80), .ofNat (v % 0x40 + 0x80)] := by
  have h0 : (UInt8.ofNat (v / 4096 % 0x10 + 0xe0)).toNat = v / 4096 + 0xe0 := by
    rw [toNat_ofNat (by omega)]
    omega
  have h1 : (UInt8.ofNat (v / 64 % 0x40 + 0x80)).toNat = v / 64 % 64 + 128 :=
    toNat_ofNat (by omega)
  have h2 : (UInt8.ofNat (v % 0x40 + 0x80)).toNat = v % 64 + 128 := toNat_ofNat (by omega)
  have hfollowing : (following (.ofNat (v / 4096 % 0x10 + 0xe0))).2 = 2 ∧
      (following (.ofNat (v / 4096 % 0x10 + 0xe0))).1 (.ofNat (v / 64 % 0x40 + 0x80)) := by
    simp only [following, h0]
    rw [if_neg (by omega)]
    by_cases hfirst : v / 4096 + 0xe0 = 0xE0
    · rw [if_pos hfirst]
      refine ⟨rfl, decide_eq_true ?_⟩
      rw [h1]
      omega
    · rw [if_neg hfirst]
      by_cases hlast : v / 4096 + 0xe0 = 0xED
      · rw [if_pos hlast]
        refine ⟨rfl, decide_eq_true ?_⟩
        rw [h1]
        omega
      · rw [if_neg hlast, if_pos (by omega)]
        refine ⟨rfl, decide_eq_true ?_⟩
        rw [h1]
        omega
  refine ⟨?_, hfollowing.1, ?_, ?_, ?_, ?_⟩
  · simp only [String.utf8EncodeChar, hv]
    rw [if_neg (by omega), if_neg (by omega), if_pos h]
  · intro b hb
    cases hb
    exact hfollowing.2
  · intro b hb
    obtain rfl := List.mem_singleton.mp hb
    simp only [isContinuation, h2, decide_eq_true_eq]
    omega
  · simp only [h0, List.cons_ne_nil, iff_false]
    omega
  · rw [character, h0, if_neg (by omega), hfollowing.1, if_pos (by simp)]
    simp only [characterValue, h0, h1, h2, List.foldl_cons, List.foldl_nil, List.length_cons,
      List.length_nil]
    rw [show ((v / 4096 + 224) % 2 ^ (6 - (0 + 1 + 1)) * 64 + (v / 64 % 64 + 128) % 64) * 64 +
      (v % 64 + 128) % 64 = v by omega, ofNat_of_val hv]

theorem shape_four (hlow : 0xffff < v) (h : v < 0x110000) :
    Shape c (.ofNat (v / 262144 % 0x08 + 0xf0))
      [.ofNat (v / 4096 % 0x40 + 0x80), .ofNat (v / 64 % 0x40 + 0x80),
        .ofNat (v % 0x40 + 0x80)] := by
  have h0 : (UInt8.ofNat (v / 262144 % 0x08 + 0xf0)).toNat = v / 262144 + 0xf0 := by
    rw [toNat_ofNat (by omega)]
    omega
  have h1 : (UInt8.ofNat (v / 4096 % 0x40 + 0x80)).toNat = v / 4096 % 64 + 128 :=
    toNat_ofNat (by omega)
  have h2 : (UInt8.ofNat (v / 64 % 0x40 + 0x80)).toNat = v / 64 % 64 + 128 :=
    toNat_ofNat (by omega)
  have h3 : (UInt8.ofNat (v % 0x40 + 0x80)).toNat = v % 64 + 128 := toNat_ofNat (by omega)
  have hfollowing : (following (.ofNat (v / 262144 % 0x08 + 0xf0))).2 = 3 ∧
      (following (.ofNat (v / 262144 % 0x08 + 0xf0))).1 (.ofNat (v / 4096 % 0x40 + 0x80)) := by
    simp only [following, h0]
    rw [if_neg (by omega), if_neg (by omega), if_neg (by omega), if_neg (by omega)]
    by_cases hfirst : v / 262144 + 0xf0 = 0xF0
    · rw [if_pos hfirst]
      refine ⟨rfl, decide_eq_true ?_⟩
      rw [h1]
      omega
    · rw [if_neg hfirst]
      by_cases hlast : v / 262144 + 0xf0 = 0xF4
      · rw [if_pos hlast]
        refine ⟨rfl, decide_eq_true ?_⟩
        rw [h1]
        omega
      · rw [if_neg hlast, if_pos (by omega)]
        refine ⟨rfl, decide_eq_true ?_⟩
        rw [h1]
        omega
  refine ⟨?_, hfollowing.1, ?_, ?_, ?_, ?_⟩
  · simp only [String.utf8EncodeChar, hv]
    rw [if_neg (by omega), if_neg (by omega), if_neg (by omega)]
  · intro b hb
    cases hb
    exact hfollowing.2
  · intro b hb
    simp only [List.tail_cons, List.mem_cons, List.not_mem_nil, or_false] at hb
    rcases hb with rfl | rfl
    · simp only [isContinuation, h2, decide_eq_true_eq]
      omega
    · simp only [isContinuation, h3, decide_eq_true_eq]
      omega
  · simp only [h0, List.cons_ne_nil, iff_false]
    omega
  · rw [character, h0, if_neg (by omega), hfollowing.1, if_pos (by simp)]
    simp only [characterValue, h0, h1, h2, h3, List.foldl_cons, List.foldl_nil, List.length_cons,
      List.length_nil]
    rw [show (((v / 262144 + 240) % 2 ^ (6 - (0 + 1 + 1 + 1)) * 64 +
      (v / 4096 % 64 + 128) % 64) * 64 + (v / 64 % 64 + 128) % 64) * 64 +
      (v % 64 + 128) % 64 = v by omega, ofNat_of_val hv]

end

theorem exists_shape (c : Char) : ∃ first tail, Shape c first tail := by
  have hvalid : c.val.toNat < 0xd800 ∨ 0xdfff < c.val.toNat ∧ c.val.toNat < 0x110000 := c.valid
  by_cases h1 : c.val.toNat ≤ 0x7f
  · exact ⟨_, _, shape_one rfl h1⟩
  · by_cases h2 : c.val.toNat ≤ 0x7ff
    · exact ⟨_, _, shape_two rfl (by omega) h2⟩
    · by_cases h3 : c.val.toNat ≤ 0xffff
      · exact ⟨_, _, shape_three rfl (by omega) h3 (by omega)⟩
      · exact ⟨_, _, shape_four rfl (by omega) (by omega)⟩

/-- The valid bytes after a first one, of a character that may be cut. -/
theorem Shape.characterTail_take {c : Char} {first : UInt8} {tail : List UInt8}
    (h : Shape c first tail) {rest : List UInt8} (hrest : n < tail.length → rest = []) :
    characterTail first (tail.take n ++ rest) = tail.take n := by
  cases tail with
  | nil =>
    cases rest with
    | nil => simp [characterTail]
    | cons b rest =>
      have hsecond : (following first).1 b = false := by
        have hascii := h.ascii.mpr rfl
        simp only [following]
        repeat' rw [if_neg (by omega)]
      simp [characterTail, hsecond]
  | cons b tail =>
    have hsecond := h.second b rfl
    have hcount : (following first).2 = tail.length + 1 := h.count
    cases n with
    | zero =>
      rw [hrest (by simp)]
      rfl
    | succ n =>
      have hlater : ∀ d ∈ tail.take n, isContinuation d := fun d hd =>
        h.later d (List.mem_of_mem_take hd)
      rw [List.take_succ_cons, List.cons_append, characterTail, if_pos hsecond, hcount,
        Nat.add_sub_cancel]
      congr 1
      have htake : (tail.take n ++ rest).take tail.length = tail.take n := by
        by_cases hn : n < tail.length
        · rw [hrest (by simpa using hn), List.append_nil]
          exact List.take_of_length_le (by simp)
        · have hall : tail.take n = tail := List.take_of_length_le (by omega)
          rw [hall, List.take_left]
      rw [htake]
      exact List.takeWhile_eq_self_iff.mpr hlater

/-- A character reads back as itself, whatever comes after it. -/
theorem decodeLossy_encodeChar (c : Char) (rest : List UInt8) :
    decodeLossy (String.utf8EncodeChar c ++ rest) = c :: decodeLossy rest := by
  obtain ⟨first, tail, h⟩ := exists_shape c
  have htail : characterTail first (tail.take tail.length ++ rest) = _ :=
    h.characterTail_take (by omega)
  rw [List.take_length] at htail
  rw [h.encoded, List.cons_append, decodeLossy_cons, htail, h.value, List.drop_left]

variable (text : List Char)

theorem decodeLossy_encode (rest : List UInt8) :
    decodeLossy (encode text ++ rest) = text ++ decodeLossy rest := by
  induction text with
  | nil => rfl
  | cons c text ih =>
    rw [encode, List.flatMap_cons, List.append_assoc, decodeLossy_encodeChar]
    exact congrArg _ ih

/-- What is left of a character that is cut becomes one replacement. -/
theorem decodeLossy_take_encodeChar (c : Char) (hpos : 0 < n)
    (hcut : n < (String.utf8EncodeChar c).length) :
    decodeLossy ((String.utf8EncodeChar c).take n) = ['\uFFFD'] := by
  obtain ⟨first, tail, h⟩ := exists_shape c
  rw [h.encoded] at hcut ⊢
  obtain ⟨n, rfl⟩ := Nat.exists_eq_succ_of_ne_zero (by omega : n ≠ 0)
  rw [List.length_cons] at hcut
  have htail : characterTail first (tail.take n ++ []) = _ := h.characterTail_take fun _ => rfl
  rw [List.append_nil] at htail
  rw [List.take_succ_cons, decodeLossy_cons, htail]
  have hne : tail ≠ [] := by
    rintro rfl
    simp at hcut
  have hnot : ¬ first.toNat < 0x80 := fun hlt => hne (h.ascii.mp hlt)
  have hlength : (tail.take n).length ≠ (following first).2 := by
    rw [h.count, List.length_take]
    omega
  rw [character, if_neg hnot, if_neg fun hand => hlength hand.2, List.drop_length]
  rfl

theorem encode_cons (c : Char) (text : List Char) :
    encode (c :: text) = String.utf8EncodeChar c ++ encode text := List.flatMap_cons

theorem length_encodeChar_pos (c : Char) : 0 < (String.utf8EncodeChar c).length := by
  rw [String.length_utf8EncodeChar]
  exact c.utf8Size_pos

/-- What the bytes of a cut text read as: the first character is whole, or is cut. -/
theorem decodeLossy_take_cons (c : Char) (text : List Char) (n : Nat) :
    decodeLossy ((encode (c :: text)).take n) =
      if (String.utf8EncodeChar c).length ≤ n then
        c :: decodeLossy ((encode text).take (n - (String.utf8EncodeChar c).length))
      else if n = 0 then [] else ['\uFFFD'] := by
  rw [encode_cons]
  split
  · rename_i hwhole
    rw [List.take_append, List.take_of_length_le hwhole, decodeLossy_encodeChar]
  · rename_i hcut
    rw [List.take_append_of_le_length (by omega)]
    split
    · rename_i hzero
      rw [hzero]
      rfl
    · exact decodeLossy_take_encodeChar c (by omega) (by omega)

theorem length_decodeLossy_take_le (n : Nat) :
    (decodeLossy ((encode text).take n)).length ≤ text.length := by
  induction text generalizing n with
  | nil =>
    rw [show (encode []).take n = [] from List.take_nil]
    exact Nat.le_refl _
  | cons c text ih =>
    rw [decodeLossy_take_cons]
    split
    · exact Nat.succ_le_succ (ih _)
    · split <;> simp

/-- Cut to `n` bytes a text still reads as itself: it fits, or all that is cut is a
replacement character, which reads as one again. -/
def Survives (text : List Char) (n : Nat) : Prop :=
  (encode text).length ≤ n ∨
    ∃ init, text = init ++ ['\uFFFD'] ∧ (encode init).length < n ∧ n < (encode text).length

theorem decodeLossy_take_iff (n : Nat) :
    decodeLossy ((encode text).take n) = text ↔ Survives text n := by
  induction text generalizing n with
  | nil =>
    rw [show (encode []).take n = [] from List.take_nil]
    exact ⟨fun _ => .inl (Nat.zero_le n), fun _ => rfl⟩
  | cons c text ih =>
    have hpos := length_encodeChar_pos c
    have hlength : (encode (c :: text)).length =
        (String.utf8EncodeChar c).length + (encode text).length := by
      rw [encode_cons, List.length_append]
    rw [decodeLossy_take_cons]
    unfold Survives
    rw [hlength]
    split
    · rename_i hwhole
      rw [List.cons.injEq, eq_self_iff_true, true_and, ih]
      unfold Survives
      constructor
      · rintro (hfits | ⟨init, rfl, hlow, hhigh⟩)
        · exact .inl (by omega)
        · refine .inr ⟨c :: init, rfl, ?_, by omega⟩
          rw [encode_cons, List.length_append]
          omega
      · rintro (hfits | ⟨init, htext, hlow, hhigh⟩)
        · exact .inl (by omega)
        · cases init with
          | nil =>
            cases htext
            have hnil : (encode []).length = 0 := rfl
            omega
          | cons d init =>
            cases htext
            rw [encode_cons, List.length_append] at hlow
            exact .inr ⟨init, rfl, by omega, by omega⟩
    · rename_i hcut
      split
      · rename_i hzero
        constructor
        · exact nofun
        · rintro (hfits | ⟨init, -, hlow, -⟩)
          · omega
          · omega
      · constructor
        · intro hsame
          cases hsame
          refine .inr ⟨[], rfl, ?_, ?_⟩
          · simp only [encode, List.flatMap_nil, List.length_nil]
            omega
          · omega
        · rintro (hfits | ⟨init, htext, hlow, -⟩)
          · omega
          · cases init with
            | nil => exact htext.symm
            | cons d init =>
              cases htext
              rw [encode_cons, List.length_append] at hlow
              omega

theorem following_low {first b : UInt8} (h : (following first).1 b) : 0x80 ≤ b.toNat := by
  unfold following isContinuation at h
  simp only at h
  repeat' split at h
  all_goals simp only [decide_eq_true_eq, Bool.false_eq_true] at h
  all_goals omega

theorem ne_zero_of_mem_encode {text : List Char} (h : '\u0000' ∉ text) :
    ∀ b ∈ encode text, b ≠ 0 := by
  intro b hb
  obtain ⟨c, hc, hb⟩ := List.mem_flatMap.mp hb
  obtain ⟨first, tail, hshape⟩ := exists_shape c
  rw [hshape.encoded] at hb
  rintro rfl
  rcases List.mem_cons.mp hb with rfl | hb
  · have hzero : character 0 tail = Char.ofNat 0 := if_pos (by decide)
    rw [hshape.value] at hzero
    exact h (hzero ▸ hc)
  · cases tail with
    | nil => cases hb
    | cons d tail =>
      rcases List.mem_cons.mp hb with rfl | hb
      · exact absurd (following_low (hshape.second 0 rfl)) (by decide)
      · exact absurd (hshape.later 0 hb) (by decide)

end Library.Utf8
