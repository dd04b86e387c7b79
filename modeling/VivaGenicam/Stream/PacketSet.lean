import VivaGenicam.Library.Runs
import VivaGenicam.Stream.Checked

/-!
A packet bitmap is a set of packets. Whatever is done to one after it is made, it answers
as the set does, and reads off the set's size, its leading packets and the ranges of
those that are missing.
-/

namespace VivaGenicam.Gvsp

open Library Library.Runs

namespace PacketBitmap

variable (bitmap : PacketBitmap)

/-- The ranges closed so far and the one still open, one index on. -/
def missingStep : List (Nat × Nat) × Option (Nat × Nat) → Nat →
    List (Nat × Nat) × Option (Nat × Nat)
  | (ranges, current), index =>
    let present := bitmap.words.getD (index / 64) 0#64 &&& WordSet.mask index != 0#64
    match present, current with
    | false, none => (ranges, some (index % 2 ^ 32, index % 2 ^ 32))
    | false, some (first, _) => (ranges, some (first, index % 2 ^ 32))
    | true, some range => (ranges ++ [range], none)
    | true, none => (ranges, none)

/-- The missing packet ranges, with their ends; an index is narrowed to 32 bits. -/
def missingRanges : List (Nat × Nat) :=
  let (ranges, current) := (List.range bitmap.total).foldl bitmap.missingStep ([], none)
  ranges ++ current.toList

end PacketBitmap

/-- Packets received, out of `total`. -/
structure PacketSet where
  total : Nat
  members : Finset Nat
  below : ∀ index ∈ members, index < total

namespace PacketSet

def new (total : Nat) : PacketSet := ⟨total, ∅, by simp⟩

def grow (s : PacketSet) (total : Nat) : PacketSet :=
  ⟨max s.total total, s.members, fun index h => lt_max_of_lt_left (s.below index h)⟩

def insert (s : PacketSet) (index : Nat) (h : index < s.total) : PacketSet :=
  ⟨s.total, Insert.insert index s.members, by
    intro other hother
    rcases Finset.mem_insert.mp hother with rfl | hother
    · exact h
    · exact s.below other hother⟩

def erase (s : PacketSet) (index : Nat) : PacketSet :=
  ⟨s.total, s.members.erase index, fun other h => s.below other (Finset.mem_of_mem_erase h)⟩

end PacketSet

/-- What is done to a bitmap. -/
inductive BitmapOp where
  | new (total : Nat)
  | reset (total : Nat)
  | grow (total : Nat)
  | set (index : Nat)
  | clear (index : Nat)

/-- The flag that `set` and `clear` return, and the bitmap afterwards. -/
def PacketBitmap.apply (bitmap : PacketBitmap) : BitmapOp → Option Bool × PacketBitmap
  | .new total => (none, .new total)
  | .reset total => (none, bitmap.reset total)
  | .grow total => (none, bitmap.grow total)
  | .set index => (some (bitmap.set index).1, (bitmap.set index).2)
  | .clear index => (some (bitmap.clear index).1, (bitmap.clear index).2)

/-- A packet is added once, and only below the total; only a member is removed. -/
def PacketSet.apply (s : PacketSet) : BitmapOp → Option Bool × PacketSet
  | .new total => (none, .new total)
  | .reset total => (none, .new total)
  | .grow total => (none, s.grow total)
  | .set index =>
    if h : index < s.total ∧ index ∉ s.members then (some true, s.insert index h.1)
    else (some false, s)
  | .clear index =>
    if index ∈ s.members then (some true, s.erase index) else (some false, s)

/-- The flags that a sequence of operations returns, and what they end with. -/
def runOps {σ : Type} (apply : σ → BitmapOp → Option Bool × σ) :
    List BitmapOp → σ → List (Option Bool) × σ
  | [], s => ([], s)
  | op :: ops, s =>
    let (flag, s) := apply s op
    let (flags, s) := runOps apply ops s
    (flag :: flags, s)

/-- The bitmap's bits are the set's members. -/
structure Represents (bitmap : PacketBitmap) (s : PacketSet) : Prop where
  total : bitmap.total = s.total
  contains : ∀ index, bitmap.contains index = true ↔ index ∈ s.members

namespace Represents

variable {bitmap : PacketBitmap} {s : PacketSet}

theorem not_contains (h : Represents bitmap s) {index : Nat} :
    bitmap.contains index = false ↔ index ∉ s.members := by
  rw [← h.contains, Bool.not_eq_true]

theorem new (total : Nat) : Represents (.new total) (.new total) where
  total := rfl
  contains index := by simp [PacketSet.new]

theorem grow (h : Represents bitmap s) (total : Nat) :
    Represents (bitmap.grow total) (s.grow total) where
  total := by rw [PacketBitmap.total_grow, h.total]; rfl
  contains index := by rw [PacketBitmap.contains_grow]; exact h.contains index

theorem set (h : Represents bitmap s) {index : Nat} (hlt : index < s.total) :
    Represents (bitmap.set index).2 (s.insert index hlt) where
  total := by rw [PacketBitmap.total_set]; exact h.total
  contains other := by
    rw [PacketBitmap.contains_set _ _ _ (h.total ▸ hlt), Bool.or_eq_true, decide_eq_true_iff,
      h.contains]
    exact Finset.mem_insert.symm

theorem clear (h : Represents bitmap s) (index : Nat) :
    Represents (bitmap.clear index).2 (s.erase index) where
  total := by rw [PacketBitmap.total_clear]; exact h.total
  contains other := by
    rw [PacketBitmap.contains_clear, Bool.and_eq_true, Bool.not_eq_true', decide_eq_false_iff_not,
      h.contains]
    exact Finset.mem_erase.symm

theorem apply (h : Represents bitmap s) (op : BitmapOp) :
    (bitmap.apply op).1 = (s.apply op).1 ∧ Represents (bitmap.apply op).2 (s.apply op).2 := by
  cases op with
  | new total => exact ⟨rfl, new total⟩
  | reset total => exact ⟨rfl, new total⟩
  | grow total => exact ⟨rfl, h.grow total⟩
  | set index =>
    unfold PacketBitmap.apply PacketSet.apply
    dsimp only
    split
    · rename_i hfresh
      have hset : (bitmap.set index).1 = true := by
        rw [PacketBitmap.set, dif_pos ⟨h.total ▸ hfresh.1, h.not_contains.mpr hfresh.2⟩]
      exact ⟨congrArg some hset, h.set hfresh.1⟩
    · rename_i hfresh
      have hset : bitmap.set index = (false, bitmap) := by
        rw [PacketBitmap.set, dif_neg]
        rintro ⟨hlt, hclear⟩
        exact hfresh ⟨h.total ▸ hlt, h.not_contains.mp hclear⟩
      rw [hset]
      exact ⟨rfl, h⟩
  | clear index =>
    unfold PacketBitmap.apply PacketSet.apply
    dsimp only
    rw [PacketBitmap.clear_fst]
    split
    · rename_i hmem
      exact ⟨congrArg some ((h.contains index).mpr hmem), h.clear index⟩
    · rename_i hmem
      have hclear := h.not_contains.mpr hmem
      refine ⟨congrArg some hclear, ?_⟩
      rw [PacketBitmap.clear, dif_neg (by rw [hclear]; exact Bool.false_ne_true)]
      exact h

theorem run (h : Represents bitmap s) (ops : List BitmapOp) :
    (runOps PacketBitmap.apply ops bitmap).1 = (runOps PacketSet.apply ops s).1 ∧
      Represents (runOps PacketBitmap.apply ops bitmap).2 (runOps PacketSet.apply ops s).2 := by
  induction ops generalizing bitmap s with
  | nil => exact ⟨rfl, h⟩
  | cons op ops ih =>
    obtain ⟨hflag, hnext⟩ := h.apply op
    obtain ⟨hflags, hend⟩ := ih hnext
    exact ⟨congrArg₂ List.cons hflag hflags, hend⟩

theorem received (h : Represents bitmap s) : bitmap.received = s.members.card := by
  have hfilter : s.members = (Finset.range bitmap.total).filter fun index =>
      WordSet.member bitmap.words index = true := by
    ext index
    rw [Finset.mem_filter, Finset.mem_range, ← PacketBitmap.contains_eq_member, h.contains]
    exact ⟨fun hmem => ⟨h.total ▸ s.below index hmem, hmem⟩, fun hmem => hmem.2⟩
  rw [bitmap.received_eq, WordSet.card, hfilter, List.countP_eq_length_filter, Finset.card_def,
    Finset.filter_val, Finset.range_val, Multiset.range, Multiset.filter_coe, Multiset.coe_card]
  simp only [Bool.decide_eq_true]

theorem firstNComplete (h : Represents bitmap s) (count : Nat) :
    bitmap.firstNCompleteChecked count =
      some (decide (count ≤ s.total ∧ ∀ index < count, index ∈ s.members)) := by
  rw [PacketBitmap.firstNCompleteChecked_eq]
  congr 1
  rw [Bool.eq_iff_iff, PacketBitmap.firstNComplete_iff, decide_eq_true_iff, h.total]
  simp only [h.contains]

/-- After `n` indices, the closed ranges and the open one are the runs missing below `n`. -/
structure Scanned (bitmap : PacketBitmap) (s : PacketSet) (n : Nat)
    (state : List (Nat × Nat) × Option (Nat × Nat)) : Prop where
  runs : Maximal (Below (· ∉ s.members) n) (state.1 ++ state.2.toList)
  closed : state.2 = none → n = 0 ∨ ¬ n - 1 ∉ s.members
  opened : ∀ range, state.2 = some range → range.2 + 1 = n

theorem step (h : Represents bitmap s) {n : Nat} (hn : n < 2 ^ 32) (hlt : n < s.total)
    {state : List (Nat × Nat) × Option (Nat × Nat)} (hstate : Scanned bitmap s n state) :
    Scanned bitmap s (n + 1) (bitmap.missingStep state n) := by
  obtain ⟨ranges, current⟩ := state
  have hpresent : (bitmap.words.getD (n / 64) 0#64 &&& WordSet.mask n != 0#64) =
      bitmap.contains n := by
    rw [PacketBitmap.contains, if_neg (by rw [h.total]; omega)]
  unfold PacketBitmap.missingStep
  dsimp only
  rw [hpresent, Nat.mod_eq_of_lt hn]
  cases hmember : bitmap.contains n with
  | false =>
    have hmissing := h.not_contains.mp hmember
    cases current with
    | none =>
      have hruns := hstate.runs.start hmissing (hstate.closed rfl)
      exact ⟨by simpa using hruns, fun hnone => (by cases hnone), fun range hrange => (by cases hrange; rfl)⟩
    | some range =>
      obtain ⟨first, last⟩ := range
      have hlast : last + 1 = n := hstate.opened _ rfl
      subst hlast
      exact ⟨hstate.runs.extend hmissing, fun hnone => (by cases hnone), fun range hrange => (by cases hrange; rfl)⟩
  | true =>
    have hpresent := (h.contains n).mp hmember
    have hruns := hstate.runs.skip (not_not.mpr hpresent)
    cases current with
    | none =>
      exact ⟨hruns, fun _ => .inr (not_not.mpr hpresent), fun range hrange => (by cases hrange)⟩
    | some range =>
      exact ⟨by simpa using hruns, fun _ => .inr (not_not.mpr hpresent),
        fun range hrange => (by cases hrange)⟩

theorem scan (h : Represents bitmap s) {n : Nat} (hn : n ≤ 2 ^ 32) (hle : n ≤ s.total) :
    Scanned bitmap s n ((List.range n).foldl bitmap.missingStep ([], none)) := by
  induction n with
  | zero => exact ⟨.zero, fun _ => .inl rfl, fun range hrange => (by cases hrange)⟩
  | succ n ih =>
    rw [List.range_succ, List.foldl_append]
    exact h.step (by omega) (by omega) (ih (by omega) (by omega))

theorem missingRanges (h : Represents bitmap s) (hsmall : s.total ≤ 2 ^ 32) :
    Maximal (fun index => index < s.total ∧ index ∉ s.members) bitmap.missingRanges := by
  have hscan := h.scan hsmall le_rfl
  rw [← h.total] at hscan
  exact (hscan.runs).congr fun index => by rw [Below, h.total]

end Represents

/-- A bitmap answers as a set of packets below its total does, through any sequence of
operations; what it says about itself is what holds of that set. -/
theorem bitmap_is_set (total : Nat) (ops : List BitmapOp) :
    let bitmap := (runOps PacketBitmap.apply ops (.new total)).2
    let s := (runOps PacketSet.apply ops (.new total)).2
    (runOps PacketBitmap.apply ops (.new total)).1 = (runOps PacketSet.apply ops (.new total)).1 ∧
      bitmap.len = s.total ∧
      (∀ index, bitmap.containsChecked index = some (decide (index ∈ s.members))) ∧
      bitmap.received = s.members.card ∧
      (∀ index, s.total ≤ index → WordSet.member bitmap.words index = false) ∧
      (∀ count, bitmap.firstNCompleteChecked count =
        some (decide (count ≤ s.total ∧ ∀ index < count, index ∈ s.members))) ∧
      (s.total ≤ 2 ^ 32 → ∀ ranges, ranges = bitmap.missingRanges ↔
        Maximal (fun index => index < s.total ∧ index ∉ s.members) ranges) := by
  obtain ⟨hflags, h⟩ := (Represents.new total).run ops
  refine ⟨hflags, h.total, fun index => ?_, h.received, fun index hindex => ?_, h.firstNComplete,
    fun hsmall ranges => ?_⟩
  · rw [PacketBitmap.containsChecked_eq]
    congr 1
    rw [Bool.eq_iff_iff, h.contains, decide_eq_true_iff]
  · exact PacketBitmap.beyond_clear _ index (h.total ▸ hindex)
  · have hmaximal := h.missingRanges hsmall
    constructor
    · rintro rfl
      exact hmaximal
    · exact fun hranges => hranges.unique hmaximal

end VivaGenicam.Gvsp
