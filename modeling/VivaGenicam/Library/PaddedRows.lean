import VivaGenicam.Library.Buffer

/-!
Rows of an image laid a stride apart: written one after another or over a blank buffer,
and read back.
-/

namespace Library.PaddedRows

variable {α : Type*}

/-- The first `width` elements of each of `count` rows, `stride` apart. -/
def readRows (image : List α) (stride width count : Nat) : List (List α) :=
  (List.range count).map fun y => (image.drop (y * stride)).take width

/-- Rows one after another, each filled up to `stride`. -/
def laid (stride : Nat) (fill : α) (rows : List (List α)) : List α :=
  rows.flatMap fun row => row ++ List.replicate (stride - row.length) fill

variable (image : List α)

@[simp] theorem length_readRows (stride width count : Nat) :
    (readRows image stride width count).length = count := by
  rw [readRows, List.length_map, List.length_range]

theorem readRows_succ (stride width count : Nat) :
    readRows image stride width (count + 1) =
      image.take width :: readRows (image.drop stride) stride width count := by
  simp only [readRows, List.range_succ_eq_map, List.map_cons, List.map_map, Nat.zero_mul,
    List.drop_zero, List.cons.injEq, true_and]
  refine List.map_congr_left fun y _ => ?_
  rw [Function.comp_apply, List.drop_drop, Nat.succ_mul, Nat.add_comm]

theorem readRows_concat (stride width count : Nat) :
    readRows image stride width (count + 1) =
      readRows image stride width count ++ [(image.drop (count * stride)).take width] := by
  rw [readRows, readRows, List.range_succ, List.map_append, List.map_cons, List.map_nil]

theorem length_of_mem_readRows {image row : List α} {stride width count : Nat}
    (h : row ∈ readRows image stride width count) (hwidth : width ≤ stride)
    (hfits : count * stride ≤ image.length) : row.length = width := by
  obtain ⟨y, hy, rfl⟩ := List.mem_map.mp h
  have hrow : (y + 1) * stride ≤ count * stride :=
    Nat.mul_le_mul_right _ (List.mem_range.mp hy)
  rw [Nat.succ_mul] at hrow
  rw [List.length_take, List.length_drop]
  omega

theorem flatten_readRows (width count : Nat) :
    (readRows image width width count).flatten = image.take (count * width) := by
  induction count generalizing image with
  | zero => simp [readRows]
  | succ count ih =>
    rw [readRows_succ, List.flatten_cons, ih, Nat.succ_mul, Nat.add_comm (count * width),
      List.take_add]

theorem laid_cons (stride : Nat) (fill : α) (row : List α) (rows : List (List α)) :
    laid stride fill (row :: rows) =
      row ++ List.replicate (stride - row.length) fill ++ laid stride fill rows := rfl

theorem laid_concat (stride : Nat) (fill : α) (rows : List (List α)) (row : List α) :
    laid stride fill (rows ++ [row]) =
      laid stride fill rows ++ (row ++ List.replicate (stride - row.length) fill) := by
  rw [laid, laid, List.flatMap_append, List.flatMap_cons, List.flatMap_nil, List.append_nil]

theorem length_laid {stride : Nat} (fill : α) {rows : List (List α)}
    (h : ∀ row ∈ rows, row.length ≤ stride) :
    (laid stride fill rows).length = rows.length * stride := by
  induction rows with
  | nil => simp [laid]
  | cons row rest ih =>
    obtain ⟨hrow, hrest⟩ := List.forall_mem_cons.mp h
    rw [laid_cons, List.length_append, List.length_append, List.length_replicate, ih hrest,
      List.length_cons, Nat.succ_mul]
    omega

/-- Rows laid a stride apart are read back, whatever follows them. -/
theorem readRows_laid {stride width : Nat} (fill : α) {rows : List (List α)} (after : List α)
    (hwidth : width ≤ stride) (h : ∀ row ∈ rows, row.length = width) :
    readRows (laid stride fill rows ++ after) stride width rows.length = rows := by
  induction rows with
  | nil => rfl
  | cons row rest ih =>
    obtain ⟨hrow, hrest⟩ := List.forall_mem_cons.mp h
    have hlength : (row ++ List.replicate (stride - row.length) fill).length = stride := by
      rw [List.length_append, List.length_replicate]
      omega
    rw [List.length_cons, readRows_succ, laid_cons, List.append_assoc, List.drop_left' hlength,
      ih hrest, List.append_assoc, List.take_left' hrow]

theorem take_drop_laid {stride width y : Nat} (fill : α) {rows : List (List α)} {row : List α}
    (after : List α) (hwidth : width ≤ stride) (h : ∀ row ∈ rows, row.length = width)
    (hrow : rows[y]? = some row) :
    ((laid stride fill rows ++ after).drop (y * stride)).take width = row := by
  have hread := readRows_laid fill after hwidth h
  obtain ⟨hy, -⟩ := List.getElem?_eq_some_iff.mp hrow
  rw [← hread, readRows, List.getElem?_map, List.getElem?_range hy] at hrow
  exact Option.some.inj hrow

/-- A row written over what is blank follows the rows before it. -/
theorem write_laid {stride : Nat} (fill : α) {rows : List (List α)} {row : List α} (rest : Nat)
    (hrows : ∀ row ∈ rows, row.length ≤ stride) (hrow : row.length ≤ stride) :
    Buffer.write (laid stride fill rows ++ List.replicate ((rest + 1) * stride) fill)
        (rows.length * stride) row =
      laid stride fill (rows ++ [row]) ++ List.replicate (rest * stride) fill := by
  have hlength := length_laid fill hrows
  have hblank : (rest + 1) * stride - row.length = stride - row.length + rest * stride := by
    rw [Nat.succ_mul]
    omega
  rw [Buffer.write, List.take_left' hlength, ← List.drop_drop, List.drop_left' hlength,
    List.drop_replicate, hblank, List.replicate_add, laid_concat]
  simp only [List.append_assoc]

end Library.PaddedRows
