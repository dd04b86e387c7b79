import Mathlib.Tactic

/-!
Growable buffers written piece by piece. `Placed buffer offset piece` says the
piece can be read back at its offset; the theorems say what an in-place write
and a resize keep placed, and that pieces laid end to end make up a prefix of
the buffer.
-/

namespace Library.Buffer

variable {α : Type*}

/-- Overwrite `data.length` elements from `offset` on. -/
def write (buffer : List α) (offset : Nat) (data : List α) : List α :=
  buffer.take offset ++ data ++ buffer.drop (offset + data.length)

/-- Cut or fill to exactly `size` elements. -/
def resize (buffer : List α) (size : Nat) (fill : α) : List α :=
  buffer.take size ++ List.replicate (size - buffer.length) fill

/-- Grow to at least `size` elements, never cutting. -/
def growTo (buffer : List α) (size : Nat) (fill : α) : List α :=
  if size > buffer.length then resize buffer size fill else buffer

/-- `piece` stands in `buffer` at `offset`. -/
def Placed (buffer : List α) (offset : Nat) (piece : List α) : Prop :=
  ∀ i < piece.length, buffer[offset + i]? = piece[i]?

theorem length_write (buffer : List α) (offset : Nat) (data : List α)
    (hfits : offset + data.length ≤ buffer.length) :
    (write buffer offset data).length = buffer.length := by
  simp only [write, List.length_append, List.length_take, List.length_drop]
  omega

@[simp] theorem length_resize (buffer : List α) (size : Nat) (fill : α) :
    (resize buffer size fill).length = size := by
  simp only [resize, List.length_append, List.length_take, List.length_replicate]
  omega

@[simp] theorem length_growTo (buffer : List α) (size : Nat) (fill : α) :
    (growTo buffer size fill).length = max buffer.length size := by
  unfold growTo
  split
  · rw [length_resize]
    omega
  · omega

theorem getElem?_write (buffer : List α) (offset : Nat) (data : List α) (i : Nat)
    (hfits : offset + data.length ≤ buffer.length) :
    (write buffer offset data)[i]? =
      if offset ≤ i ∧ i < offset + data.length then data[i - offset]? else buffer[i]? := by
  have hoffset : (buffer.take offset).length = offset := by
    rw [List.length_take]
    omega
  unfold write
  by_cases hbefore : i < offset
  · rw [List.append_assoc, List.getElem?_append_left (by omega),
      List.getElem?_take_of_lt hbefore, if_neg (by omega)]
  · by_cases hinside : i < offset + data.length
    · rw [List.getElem?_append_left (by rw [List.length_append]; omega),
        List.getElem?_append_right (by omega), hoffset, if_pos (by omega)]
    · rw [List.getElem?_append_right (by rw [List.length_append]; omega),
        List.length_append, hoffset, List.getElem?_drop, if_neg (by omega)]
      congr 1
      omega

theorem getElem?_growTo_of_lt (buffer : List α) (size : Nat) (fill : α) (i : Nat)
    (hi : i < buffer.length) : (growTo buffer size fill)[i]? = buffer[i]? := by
  unfold growTo
  split
  · rename_i hgrow
    rw [resize, List.take_of_length_le (by omega), List.getElem?_append_left hi]
  · rfl

theorem Placed.length_le {buffer : List α} {offset : Nat} {piece : List α}
    (h : Placed buffer offset piece) (hpos : piece ≠ []) :
    offset + piece.length ≤ buffer.length := by
  have hlen : 0 < piece.length := List.length_pos_of_ne_nil hpos
  have hlast := h (piece.length - 1) (by omega)
  rw [List.getElem?_eq_getElem (by omega : piece.length - 1 < piece.length)] at hlast
  have := (List.getElem?_eq_some_iff.mp hlast).1
  omega

theorem Placed.nil (buffer : List α) (offset : Nat) : Placed buffer offset [] := by
  intro i hi
  simp at hi

theorem placed_write (buffer : List α) (offset : Nat) (data : List α)
    (hfits : offset + data.length ≤ buffer.length) :
    Placed (write buffer offset data) offset data := by
  intro i hi
  rw [getElem?_write _ _ _ _ hfits, if_pos (by omega)]
  congr 1
  omega

variable {buffer piece : List α}

theorem Placed.write_disjoint {at_ : Nat}
    (h : Placed buffer at_ piece) (offset : Nat) (data : List α)
    (hfits : offset + data.length ≤ buffer.length)
    (hapart : at_ + piece.length ≤ offset ∨ offset + data.length ≤ at_) :
    Placed (write buffer offset data) at_ piece := by
  intro i hi
  rw [getElem?_write _ _ _ _ hfits, if_neg (by omega)]
  exact h i hi

theorem Placed.growTo {at_ : Nat} (h : Placed buffer at_ piece) (size : Nat) (fill : α) :
    Placed (growTo buffer size fill) at_ piece := by
  intro i hi
  have hlt : at_ + i < buffer.length := by
    have := h i hi
    rw [List.getElem?_eq_getElem hi] at this
    exact (List.getElem?_eq_some_iff.mp this).1
  rw [getElem?_growTo_of_lt _ _ _ _ hlt]
  exact h i hi

theorem Placed.append {buffer : List α} {offset : Nat} {front back : List α}
    (hfront : Placed buffer offset front)
    (hback : Placed buffer (offset + front.length) back) :
    Placed buffer offset (front ++ back) := by
  intro i hi
  by_cases h : i < front.length
  · rw [List.getElem?_append_left h]
    exact hfront i h
  · rw [List.getElem?_append_right (by omega), ← hback (i - front.length)
      (by rw [List.length_append] at hi; omega)]
    congr 1
    omega

/-- Pieces of one stride each, the last at most that long, laid at multiples
of the stride are their concatenation. -/
theorem placed_flatten (buffer : List α) (stride start : Nat) (pieces : List (List α))
    (hplaced : ∀ k, ∀ h : k < pieces.length,
      Placed buffer (start + k * stride) pieces[k])
    (hfull : ∀ k, ∀ h : k + 1 < pieces.length,
      (getElem pieces k (Nat.lt_of_succ_lt h)).length = stride) :
    Placed buffer start pieces.flatten := by
  induction pieces generalizing start with
  | nil => exact Placed.nil buffer start
  | cons piece rest ih =>
    have hhead : Placed buffer start piece := by
      have := hplaced 0 (by simp)
      simpa only [Nat.zero_mul, Nat.add_zero, List.getElem_cons_zero] using this
    rw [List.flatten_cons]
    cases rest with
    | nil => simpa using hhead
    | cons next more =>
      have hlen : piece.length = stride := by
        simpa using hfull 0 (by simp)
      apply hhead.append
      rw [hlen]
      apply ih
      · intro k hk
        have := hplaced (k + 1) (by simpa using hk)
        simp only [List.getElem_cons_succ] at this
        convert this using 1
        ring
      · intro k hk
        simpa using hfull (k + 1) (by simpa using hk)

theorem Placed.take_eq (h : Placed buffer 0 piece) :
    buffer.take piece.length = piece := by
  apply List.ext_getElem?
  intro i
  by_cases hi : i < piece.length
  · rw [List.getElem?_take_of_lt hi]
    simpa using h i hi
  · rw [List.getElem?_eq_none (by omega : piece.length ≤ i),
      List.getElem?_eq_none (by rw [List.length_take]; omega)]

theorem length_flatten_stride (stride : Nat) (pieces : List (List α))
    (hfull : ∀ k, ∀ h : k + 1 < pieces.length,
      (getElem pieces k (Nat.lt_of_succ_lt h)).length = stride) :
    pieces.flatten.length = (pieces.length - 1) * stride + (pieces.getLastD []).length := by
  induction pieces with
  | nil => simp
  | cons piece rest ih =>
    cases rest with
    | nil => simp
    | cons next more =>
      have hlen : piece.length = stride := by
        simpa using hfull 0 (by simp)
      have hrest := ih (fun k hk => by simpa using hfull (k + 1) (by simpa using hk))
      rw [List.flatten_cons, List.length_append, hrest, hlen]
      simp only [List.length_cons, Nat.add_sub_cancel, List.getLastD_cons]
      ring

end Library.Buffer
