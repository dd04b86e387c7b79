/-!
Computations on a state that return or stop with an error, and keep what they did to the
state either way: what holds of the state when they return, and when they stop.
-/

namespace Library.Attempts

/-- A computation on a state, which it leaves changed also when it stops. -/
def Attempt (σ ε α : Type) := σ → Except ε α × σ

variable {σ ε α β : Type}

variable {f : α → Attempt σ ε β} {s s' : σ} {a : α}

namespace Attempt

/-- What comes after a computation's end: nothing, when it stopped. -/
def andThen (f : α → Attempt σ ε β) : Except ε α × σ → Except ε β × σ
  | (.ok a, s) => f a s
  | (.error e, s) => (.error e, s)

instance : Monad (Attempt σ ε) where
  pure a := fun s => (.ok a, s)
  bind x f := fun s => andThen f (x s)

def fail (e : ε) : Attempt σ ε α := fun s => (.error e, s)

def ofExcept (r : Except ε α) : Attempt σ ε α := fun s => (r, s)

def get : Attempt σ ε σ := fun s => (.ok s, s)

def modify (f : σ → σ) : Attempt σ ε Unit := fun s => (.ok (), f s)

/-- An error is noted and passed over. -/
def succeeds (x : Attempt σ ε Unit) : Attempt σ ε Bool := fun s =>
  (.ok ((x s).1.isOk), (x s).2)

/-- A computation on the first of two states, which leaves the second as it is. -/
def first {τ : Type} (x : Attempt σ ε α) : Attempt (σ × τ) ε α := fun s =>
  ((x s.1).1, (x s.1).2, s.2)

theorem bind_apply (x : Attempt σ ε α) (f : α → Attempt σ ε β) (s : σ) :
    (x >>= f) s = andThen f (x s) := rfl

theorem bind_of_ok {x : Attempt σ ε α}
    (h : x s = (.ok a, s')) : (x >>= f) s = f a s' := by
  rw [bind_apply, h]
  rfl

theorem bind_of_error {x : Attempt σ ε α} {e : ε}
    (h : x s = (.error e, s')) : (x >>= f) s = (.error e, s') := by
  rw [bind_apply, h]
  rfl

end Attempt

/-- How a computation ends: in a state that `Q` allows for the value it returns, or in one
that `E` allows for an error. -/
def Ends (Q : α → σ → Prop) (E : σ → Prop) : Except ε α × σ → Prop
  | (.ok a, s) => Q a s
  | (.error _, s) => E s

namespace Ends

variable {Q Q' : α → σ → Prop} {E E' : σ → Prop} {r : Except ε α × σ}

theorem mono (h : Ends Q E r) (hpost : ∀ a s, Q a s → Q' a s)
    (hstop : ∀ s, E s → E' s) : Ends Q' E' r := by
  rcases r with ⟨_ | _, _⟩
  · exact hstop _ h
  · exact hpost _ _ h

theorem bind {x : Attempt σ ε α} {R : β → σ → Prop}
    (hx : Ends Q E (x s)) (hf : ∀ a s', Q a s' → Ends R E (f a s')) : Ends R E ((x >>= f) s) := by
  rcases hrun : x s with ⟨e | a, s'⟩
  · rw [hrun] at hx
    rwa [Attempt.bind_of_error hrun]
  · rw [hrun] at hx
    rw [Attempt.bind_of_ok hrun]
    exact hf a s' hx

theorem and (h : Ends Q E r) (h' : Ends Q' E' r) :
    Ends (fun a s => Q a s ∧ Q' a s) (fun s => E s ∧ E' s) r := by
  rcases r with ⟨_ | _, _⟩
  · exact ⟨h, h'⟩
  · exact ⟨h, h'⟩

theorem first {τ : Type} {x : Attempt σ ε α} {t : τ} {Q : α → σ × τ → Prop}
    {E : σ × τ → Prop} (h : Ends (fun a s => Q a (s, t)) (fun s => E (s, t)) (x s)) :
    Ends Q E (x.first (s, t)) := by
  rcases hrun : x s with ⟨e | a, s'⟩
  · rw [hrun] at h
    simp only [Attempt.first, hrun]
    exact h
  · rw [hrun] at h
    simp only [Attempt.first, hrun]
    exact h

theorem succeeds {x : Attempt σ ε Unit} {R : Bool → σ → Prop}
    (h : Ends (fun _ => R true) (R false) (x s)) : Ends R E (x.succeeds s) := by
  rcases hrun : x s with ⟨e | a, s'⟩
  · rw [hrun] at h
    simp only [Attempt.succeeds, hrun]
    exact h
  · rw [hrun] at h
    simp only [Attempt.succeeds, hrun]
    exact h

theorem returns (h : Ends Q E r) (hr : r = (.ok a, s)) :
    Q a s := by
  rwa [hr] at h

theorem stops (h : Ends Q E r) {e : ε} (hr : r = (.error e, s)) :
    E s := by
  rwa [hr] at h

end Ends

/-- From every state that `P` allows, the computation ends as `Q` and `E` say. -/
def Ensures (P : σ → Prop) (x : Attempt σ ε α) (Q : α → σ → Prop) (E : σ → Prop) : Prop :=
  ∀ s, P s → Ends Q E (x s)

namespace Ensures

variable {P : σ → Prop} {x : Attempt σ ε α} {Q : α → σ → Prop} {E : σ → Prop}

theorem returns (h : Ensures P x Q E) (hs : P s) (hx : x s = (.ok a, s')) : Q a s' :=
  (h s hs).returns hx

theorem bind {M : α → σ → Prop} {R : β → σ → Prop}
    (hx : Ensures P x M E) (hf : ∀ a, Ensures (M a) (f a) R E) : Ensures P (x >>= f) R E :=
  fun s hs => (hx s hs).bind hf

end Ensures

end Library.Attempts
