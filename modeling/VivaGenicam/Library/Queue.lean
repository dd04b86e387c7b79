import Mathlib.Data.List.TakeWhile
import Mathlib.Tactic

/-!
Lists used as queues whose elements change in place. `List.Forall₂` relates a
queue to what it became, position by position, so that an element keeps its
identity while it changes.
-/

namespace Library.Queue

variable {α β γ : Type*} {R : α → α → Prop}

/-- Apply `f` to the first element that satisfies `p`. -/
def updateFirst (p : α → Bool) (f : α → α) : List α → List α
  | [] => []
  | x :: rest => if p x then f x :: rest else x :: updateFirst p f rest

@[simp] theorem length_updateFirst (p : α → Bool) (f : α → α) (l : List α) :
    (updateFirst p f l).length = l.length := by
  induction l with
  | nil => rfl
  | cons x rest ih =>
    unfold updateFirst
    split <;> simp [ih]

theorem forall₂_refl (hrefl : ∀ x, R x x) (l : List α) : List.Forall₂ R l l :=
  List.forall₂_same.mpr fun x _ => hrefl x

theorem forall₂_updateFirst (hrefl : ∀ x, R x x) (p : α → Bool) (f : α → α) (l : List α)
    (h : ∀ x ∈ l, p x = true → R x (f x)) : List.Forall₂ R l (updateFirst p f l) := by
  induction l with
  | nil => exact .nil
  | cons x rest ih =>
    unfold updateFirst
    split
    · rename_i hx
      exact .cons (h x (by simp) hx) (forall₂_refl hrefl rest)
    · exact .cons (hrefl x) (ih fun y hy => h y (by simp [hy]))

theorem forall₂_set (l : List α) (index : Nat) (x y : α) (hat : l[index]? = some x)
    (hchanged : R x y) (hother : ∀ i z, l[i]? = some z → i ≠ index → R z z) :
    List.Forall₂ R l (l.set index y) := by
  induction l generalizing index with
  | nil => exact .nil
  | cons z rest ih =>
    cases index with
    | zero =>
      cases hat
      refine .cons hchanged (List.forall₂_same.mpr fun z hz => ?_)
      obtain ⟨i, hi⟩ := List.getElem?_of_mem hz
      exact hother (i + 1) z (by simpa using hi) (by omega)
    | succ index =>
      refine .cons (hother 0 z rfl (by omega)) (ih index hat fun i w hi hne => ?_)
      exact hother (i + 1) w (by simpa using hi) (by omega)

/-- The first element that satisfies the condition is the one changed, so a
change derived from that element is a change of it. -/
theorem forall₂_updateFound (hrefl : ∀ x, R x x) (p : α → Bool) (f : α → α) (l : List α)
    (h : ∀ x, l.find? p = some x → R x (f x)) : List.Forall₂ R l (updateFirst p f l) := by
  induction l with
  | nil => exact .nil
  | cons x rest ih =>
    unfold updateFirst
    split
    · rename_i hp
      exact .cons (h x (by simp [hp])) (forall₂_refl hrefl rest)
    · rename_i hp
      exact .cons (hrefl x) (ih fun y hy => h y (by simpa [List.find?_cons, hp] using hy))

theorem forall₂_trans (htrans : ∀ a b c, R a b → R b c → R a c) {first second third : List α}
    (h₁ : List.Forall₂ R first second) (h₂ : List.Forall₂ R second third) :
    List.Forall₂ R first third := by
  induction h₁ generalizing third with
  | nil =>
    cases h₂
    exact .nil
  | cons hhead _ ih =>
    cases h₂ with
    | cons hhead' htail' => exact .cons (htrans _ _ _ hhead hhead') (ih htail')

/-- What a step keeps of every element it keeps of the queue. -/
theorem map_eq_of_forall₂ {S : α → α → Prop} (f : α → β) {before after : List α}
    (hkeep : ∀ x y, S x y → f y = f x) (h : List.Forall₂ S before after) :
    after.map f = before.map f := by
  induction h with
  | nil => rfl
  | cons hhead _ ih => simp [hkeep _ _ hhead, ih]

/-- Annotated elements that follow a queue through a step: each keeps its place
and is updated with what its element became. -/
theorem forall₂_zipWith {S : α → β → Prop} (project : γ → α) (update : γ → β → γ)
    (before : List γ) (after : List β) (h : List.Forall₂ S (before.map project) after) :
    List.Forall₂ (fun x x' => ∃ y, S (project x) y ∧ x' = update x y) before
      (List.zipWith update before after) := by
  induction before generalizing after with
  | nil => exact .nil
  | cons x rest ih =>
    cases h with
    | cons hhead htail => exact .cons ⟨_, hhead, rfl⟩ (ih _ htail)

theorem map_zipWith_update (project : γ → β) (update : γ → β → γ) (before : List γ)
    (after : List β) (hlength : before.length = after.length)
    (hproject : ∀ x y, project (update x y) = y) :
    (List.zipWith update before after).map project = after := by
  induction before generalizing after with
  | nil => simpa using hlength.symm
  | cons x rest ih =>
    cases after with
    | nil => cases hlength
    | cons y more => simp [hproject, ih more (by simpa using hlength)]

/-- Lists with the same images agree on them pair by pair. -/
theorem eq_of_mem_zip (f : α → γ) (g : β → γ) {first : List α} {second : List β}
    (h : first.map f = second.map g) {x : α} {y : β} (hmem : (x, y) ∈ first.zip second) :
    f x = g y := by
  induction first generalizing second with
  | nil => simp at hmem
  | cons head rest ih =>
    cases second with
    | nil => simp at hmem
    | cons head' rest' =>
      simp only [List.map_cons, List.cons.injEq] at h
      rcases List.mem_cons.mp hmem with heq | hrest
      · cases heq
        exact h.1
      · exact ih h.2 hrest

end Library.Queue
