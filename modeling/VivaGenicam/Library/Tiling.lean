import Mathlib.Tactic

/-!
Ranges covered by pieces `(start, size)` in ascending order, without a gap or
an overlap, and the pieces of at most `stride` that a loop cuts a range into.
-/

namespace Library.Tiling

/-- The pieces run from `first` to `last`, each starting where the one before ends. -/
inductive Tiles : Nat → Nat → List (Nat × Nat) → Prop where
  | nil (first : Nat) : Tiles first first []
  | cons {first size last : Nat} {rest : List (Nat × Nat)} :
      0 < size → Tiles (first + size) last rest → Tiles first last ((first, size) :: rest)

variable {first last : Nat}

theorem Tiles.le {pieces : List (Nat × Nat)} (h : Tiles first last pieces) :
    first ≤ last := by
  induction h with
  | nil => exact le_refl _
  | cons hsize _ ih => omega

theorem Tiles.mem {pieces : List (Nat × Nat)} (h : Tiles first last pieces) :
    ∀ piece ∈ pieces, first ≤ piece.1 ∧ piece.1 + piece.2 ≤ last := by
  induction h with
  | nil => simp
  | cons hsize hrest ih =>
    intro piece hmem
    rcases List.mem_cons.mp hmem with rfl | hmem
    · exact ⟨le_refl _, hrest.le⟩
    · have := ih piece hmem
      exact ⟨by omega, this.2⟩

theorem Tiles.size_pos {pieces : List (Nat × Nat)}
    (h : Tiles first last pieces) : ∀ piece ∈ pieces, 0 < piece.2 := by
  induction h with
  | nil => simp
  | cons hsize hrest ih => exact List.forall_mem_cons.mpr ⟨hsize, ih⟩

theorem Tiles.ascending {pieces : List (Nat × Nat)}
    (h : Tiles first last pieces) : (pieces.map Prod.fst).Pairwise (· < ·) := by
  induction h with
  | nil => exact List.Pairwise.nil
  | @cons first size last rest hsize hrest ih =>
    refine List.pairwise_cons.mpr ⟨?_, ih⟩
    intro start hmem
    obtain ⟨piece, hpiece, rfl⟩ := List.mem_map.mp hmem
    have := (hrest.mem piece hpiece).1
    omega

theorem Tiles.append {first middle last : Nat} {left right : List (Nat × Nat)}
    (hleft : Tiles first middle left) (hright : Tiles middle last right) :
    Tiles first last (left ++ right) := by
  induction hleft with
  | nil => exact hright
  | cons hsize _ ih => exact Tiles.cons hsize (ih hright)

/-- An initial part of the pieces tiles an initial part of the range. -/
theorem Tiles.take {left right : List (Nat × Nat)}
    (h : Tiles first last (left ++ right)) : ∃ middle, middle ≤ last ∧ Tiles first middle left := by
  induction left generalizing first with
  | nil => exact ⟨first, h.le, Tiles.nil first⟩
  | cons piece rest ih =>
    cases h with
    | cons hsize hrest =>
      obtain ⟨middle, hle, htiles⟩ := ih hrest
      exact ⟨middle, hle, Tiles.cons hsize htiles⟩

/-- The pieces a loop cuts `len` bytes at `start` into, `stride` at a time. -/
def pieces (stride start len : Nat) : List (Nat × Nat) :=
  if h : len = 0 ∨ stride = 0 then []
  else (start, min len stride) :: pieces stride (start + min len stride) (len - min len stride)
termination_by len
decreasing_by omega

variable {stride : Nat}

@[simp] theorem pieces_zero (start : Nat) : pieces stride start 0 = [] := by
  rw [pieces, dif_pos (Or.inl rfl)]

variable {len : Nat}

theorem pieces_pos (hstride : 0 < stride) (start : Nat) (hlen : 0 < len) :
    pieces stride start len =
      (start, min len stride) ::
        pieces stride (start + min len stride) (len - min len stride) := by
  rw [pieces, dif_neg (by omega)]

theorem pieces_of_le (hstride : 0 < stride) (start : Nat) (hlen : 0 < len)
    (hle : len ≤ stride) : pieces stride start len = [(start, len)] := by
  rw [pieces_pos hstride start hlen, Nat.min_eq_left hle, Nat.sub_self, pieces_zero]

theorem pieces_tiles (hstride : 0 < stride) (start len : Nat) :
    Tiles start (start + len) (pieces stride start len) := by
  induction len using Nat.strong_induction_on generalizing start with
  | _ len ih =>
    rcases Nat.eq_zero_or_pos len with rfl | hlen
    · rw [pieces_zero]
      exact Tiles.nil start
    · rw [pieces_pos hstride start hlen]
      have hrest := ih (len - min len stride) (by omega) (start + min len stride)
      rw [show start + min len stride + (len - min len stride) = start + len by omega] at hrest
      exact Tiles.cons (by omega) hrest

theorem size_le_of_mem_pieces (hstride : 0 < stride) {start : Nat} {piece : Nat × Nat}
    (hmem : piece ∈ pieces stride start len) : piece.2 ≤ stride := by
  induction len using Nat.strong_induction_on generalizing start with
  | _ len ih =>
    rcases Nat.eq_zero_or_pos len with rfl | hlen
    · simp at hmem
    · rw [pieces_pos hstride start hlen] at hmem
      rcases List.mem_cons.mp hmem with rfl | hmem
      · exact Nat.min_le_right ..
      · exact ih _ (by omega) hmem

theorem pieces_split (hstride : 0 < stride) (start : Nat) {count : Nat}
    (hle : count * stride ≤ len) :
    pieces stride start len =
      pieces stride start (count * stride) ++
        pieces stride (start + count * stride) (len - count * stride) := by
  induction count generalizing start len with
  | zero => simp
  | succ count ih =>
    rw [Nat.succ_mul] at hle ⊢
    have hfirst : stride ≤ len := by omega
    rw [pieces_pos hstride start (by omega : 0 < len), Nat.min_eq_right hfirst,
      ih (start + stride) (by omega),
      pieces_pos hstride start (by omega : 0 < count * stride + stride),
      Nat.min_eq_right (by omega : stride ≤ count * stride + stride), List.cons_append,
      Nat.add_sub_cancel]
    congr 3
    · omega
    · omega

variable {unit : Nat}

/-- A divisor of the stride that divides the start divides every piece's start,
and every size but the last. -/
theorem dvd_of_mem_pieces (hstride : 0 < stride) {start : Nat} (hunit : unit ∣ stride)
    (hstart : unit ∣ start) {piece : Nat × Nat} (hmem : piece ∈ pieces stride start len) :
    unit ∣ piece.1 ∧ (unit ∣ len → unit ∣ piece.2) := by
  induction len using Nat.strong_induction_on generalizing start with
  | _ len ih =>
    rcases Nat.eq_zero_or_pos len with rfl | hlen
    · simp at hmem
    · rw [pieces_pos hstride start hlen] at hmem
      have hmin : unit ∣ len → unit ∣ min len stride := fun h => by
        rcases Nat.le_total len stride with hle | hle
        · rwa [Nat.min_eq_left hle]
        · rwa [Nat.min_eq_right hle]
      rcases List.mem_cons.mp hmem with rfl | hmem
      · exact ⟨hstart, hmin⟩
      · rcases Nat.le_total len stride with hle | hle
        · rw [Nat.min_eq_left hle, Nat.sub_self, pieces_zero] at hmem
          cases hmem
        · rw [Nat.min_eq_right hle] at hmem
          obtain ⟨hfst, hsnd⟩ := ih _ (by omega) (dvd_add hstart hunit) hmem
          exact ⟨hfst, fun h => hsnd (Nat.dvd_sub h hunit)⟩

/-- The least multiple of `unit` that is not below `value`. -/
def nextMultipleOf (value unit : Nat) : Nat := unit * ((value + unit - 1) / unit)

theorem dvd_nextMultipleOf (value unit : Nat) : unit ∣ nextMultipleOf value unit :=
  Nat.dvd_mul_right ..

theorem nextMultipleOf_spec {unit : Nat} (hunit : 0 < unit) (value : Nat) :
    value ≤ nextMultipleOf value unit ∧ nextMultipleOf value unit < value + unit := by
  unfold nextMultipleOf
  have hmod := Nat.mod_lt (value + unit - 1) hunit
  have hdiv := Nat.div_add_mod (value + unit - 1) unit
  omega

/-- A multiple that is not below `value` is not below the least one. -/
theorem nextMultipleOf_le {value multiple : Nat} (hunit : 0 < unit) (hdvd : unit ∣ multiple)
    (hle : value ≤ multiple) : nextMultipleOf value unit ≤ multiple := by
  obtain ⟨quotient, rfl⟩ := hdvd
  apply Nat.mul_le_mul_left
  rw [← Nat.lt_succ_iff, Nat.div_lt_iff_lt_mul hunit, Nat.succ_mul, Nat.mul_comm quotient]
  omega

theorem nextMultipleOf_of_dvd {value : Nat} (hunit : 0 < unit) (hdvd : unit ∣ value) :
    nextMultipleOf value unit = value :=
  le_antisymm (nextMultipleOf_le hunit hdvd (le_refl _)) (nextMultipleOf_spec hunit value).1

theorem nextMultipleOf_add {value unit multiple : Nat} (hunit : 0 < unit)
    (hdvd : unit ∣ multiple) :
    nextMultipleOf (value + multiple) unit = nextMultipleOf value unit + multiple := by
  obtain ⟨quotient, rfl⟩ := hdvd
  unfold nextMultipleOf
  rw [show value + unit * quotient + unit - 1 = value + unit - 1 + unit * quotient by omega,
    Nat.add_mul_div_left _ _ hunit, Nat.mul_add]

/-- Rounding every size up to a unit of the stride rounds the range up. -/
theorem pieces_nextMultipleOf (hunit : 0 < unit) (hstride : 0 < stride)
    (hdvd : unit ∣ stride) (start len : Nat) :
    (pieces stride start len).map (fun piece => (piece.1, nextMultipleOf piece.2 unit)) =
      pieces stride start (nextMultipleOf len unit) := by
  induction len using Nat.strong_induction_on generalizing start with
  | _ len ih =>
    rcases Nat.eq_zero_or_pos len with rfl | hlen
    · rw [nextMultipleOf_of_dvd hunit (dvd_zero unit), pieces_zero, List.map_nil]
    · have hround := (nextMultipleOf_spec hunit len).1
      rcases Nat.le_total len stride with hle | hle
      · rw [pieces_of_le hstride start hlen hle, pieces_of_le hstride start (by omega)
          (nextMultipleOf_le hunit hdvd hle), List.map_singleton]
      · have hadd := @nextMultipleOf_add (len - stride) _ _ hunit hdvd
        rw [Nat.sub_add_cancel hle] at hadd
        rw [pieces_pos hstride start hlen, pieces_pos hstride start (by omega : 0 < _),
          Nat.min_eq_right hle, Nat.min_eq_right (by omega), List.map_cons,
          ih _ (by omega), nextMultipleOf_of_dvd hunit hdvd, hadd, Nat.add_sub_cancel]

end Library.Tiling
