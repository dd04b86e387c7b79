import Mathlib.Tactic

/-!
A first-in first-out queue whose oldest items may be taken or dropped, with what
entered it and how each item left. Nothing reads the two records; they say that
no item is lost, repeated or overtaken.
-/

namespace Library

inductive Exit where
  | taken
  | dropped
deriving DecidableEq, Repr

structure Outbox (α : Type*) where
  queued : List α := []
  entered : List α := []
  left : List (α × Exit) := []

namespace Outbox

variable {α : Type*}

def enter (box : Outbox α) (items : List α) : Outbox α :=
  { box with queued := box.queued ++ items, entered := box.entered ++ items }

/-- The oldest `count` items leave. -/
def leave (box : Outbox α) (exit : Exit) (count : Nat) : Outbox α :=
  { box with
    queued := box.queued.drop count
    left := box.left ++ (box.queued.take count).map (·, exit) }

/-- What entered left in its order or is still queued. -/
def Sound (box : Outbox α) : Prop := box.left.map Prod.fst ++ box.queued = box.entered

/-- The items that left one way. -/
def exits (box : Outbox α) (exit : Exit) : List α :=
  (box.left.filter fun entry => decide (entry.2 = exit)).map Prod.fst

theorem sound_empty : Sound ({} : Outbox α) := rfl

variable {box : Outbox α}

theorem Sound.enter (h : box.Sound) (items : List α) :
    (box.enter items).Sound := by
  unfold Sound at h ⊢
  simp only [Outbox.enter, ← h, List.append_assoc]

theorem Sound.leave (h : box.Sound) (exit : Exit) (count : Nat) :
    (box.leave exit count).Sound := by
  unfold Sound at h ⊢
  simp only [Outbox.leave, List.map_append, List.map_map, ← h, List.append_assoc]
  congr 1
  have hfst : (Prod.fst ∘ fun item : α => (item, exit)) = id := rfl
  rw [hfst, List.map_id, List.take_append_drop]

@[simp] theorem exits_enter (box : Outbox α) (items : List α) (exit : Exit) :
    (box.enter items).exits exit = box.exits exit := rfl

theorem exits_leave (box : Outbox α) (exit other : Exit) (count : Nat) :
    (box.leave exit count).exits other =
      box.exits other ++ if exit = other then box.queued.take count else [] := by
  have hpairs : ∀ items : List α,
      ((items.map (·, exit)).filter fun entry => decide (entry.2 = other)).map Prod.fst =
        if exit = other then items else [] := by
    intro items
    induction items with
    | nil => simp
    | cons item rest ih =>
      rw [List.map_cons, List.filter_cons]
      by_cases heq : exit = other
      · simpa [heq] using ih
      · simp [heq]
  rw [exits, leave, List.filter_append, List.map_append, hpairs]
  rfl

/-- Every item that entered was taken, was dropped or is queued. -/
theorem Sound.length_eq (h : box.Sound) :
    box.entered.length =
      (box.exits .taken).length + (box.exits .dropped).length + box.queued.length := by
  rw [← h, List.length_append, List.length_map, exits, exits, List.length_map, List.length_map]
  have hsplit : ∀ entries : List (α × Exit), entries.length =
      (entries.filter fun entry => decide (entry.2 = .taken)).length +
        (entries.filter fun entry => decide (entry.2 = .dropped)).length := by
    intro entries
    induction entries with
    | nil => rfl
    | cons entry rest ih =>
      obtain ⟨item, exit⟩ := entry
      cases exit <;> simp [ih] <;> omega
  rw [← hsplit]

end Outbox

end Library
