import Mathlib.Tactic

/-!
Runs of a deterministic step function over a list of inputs, and the rule that
turns what one step preserves into what every run preserves. The guarded form
is for properties that hold only while each input meets a condition on the
state it finds.
-/

namespace Library.Transition

variable {σ α : Type*}

/-- The state after the inputs, taken one after another. -/
def run (step : σ → α → σ) (start : σ) (inputs : List α) : σ :=
  inputs.foldl step start

variable (step : σ → α → σ)

@[simp] theorem run_nil (start : σ) : run step start [] = start := rfl

@[simp] theorem run_cons (start : σ) (input : α) (rest : List α) :
    run step start (input :: rest) = run step (step start input) rest := rfl

@[simp] theorem run_append (start : σ) (first second : List α) :
    run step start (first ++ second) = run step (run step start first) second := by
  simp [run, List.foldl_append]

/-- Every input of the run meets `guard` in the state that receives it. -/
def Guarded (step : σ → α → σ) (guard : σ → α → Prop) : σ → List α → Prop
  | _, [] => True
  | start, input :: rest => guard start input ∧ Guarded step guard (step start input) rest

instance Guarded.decidable (step : σ → α → σ) (guard : σ → α → Prop)
    [∀ state input, Decidable (guard state input)] :
    ∀ start inputs, Decidable (Guarded step guard start inputs)
  | _, [] => inferInstanceAs (Decidable True)
  | start, input :: rest =>
    have := Guarded.decidable step guard (step start input) rest
    inferInstanceAs (Decidable (guard start input ∧ Guarded step guard (step start input) rest))

theorem guarded_append (guard : σ → α → Prop) (start : σ) (first second : List α) :
    Guarded step guard start (first ++ second) ↔
      Guarded step guard start first ∧ Guarded step guard (run step start first) second := by
  induction first generalizing start with
  | nil => simp [Guarded]
  | cons input rest ih => simp [Guarded, ih, and_assoc]

theorem guarded_of_forall (guard : σ → α → Prop) (start : σ)
    (inputs : List α) (h : ∀ state, ∀ input ∈ inputs, guard state input) :
    Guarded step guard start inputs := by
  induction inputs generalizing start with
  | nil => trivial
  | cons input rest ih =>
    exact ⟨h start input (by simp), ih _ fun state i hi => h state i (by simp [hi])⟩

theorem Guarded.mono {step : σ → α → σ} {guard weaker : σ → α → Prop}
    (himp : ∀ state input, guard state input → weaker state input) {start : σ}
    {inputs : List α} (h : Guarded step guard start inputs) :
    Guarded step weaker start inputs := by
  induction inputs generalizing start with
  | nil => trivial
  | cons input rest ih => exact ⟨himp _ _ h.1, ih h.2⟩

/-- What holds at the start and is preserved by every guarded step holds after
every guarded run. -/
theorem run_invariant (guard : σ → α → Prop) (inv : σ → Prop)
    (hstep : ∀ state input, inv state → guard state input → inv (step state input))
    (start : σ) (inputs : List α) (hstart : inv start)
    (hguard : Guarded step guard start inputs) : inv (run step start inputs) := by
  induction inputs generalizing start with
  | nil => exact hstart
  | cons input rest ih => exact ih _ (hstep _ _ hstart hguard.1) hguard.2

/-- A relation that every step keeps between an earlier and a later state, and
that composes, holds across every run. -/
theorem run_relation (inv : σ → Prop) (rel : σ → σ → Prop) (hrefl : ∀ state, rel state state)
    (htrans : ∀ a b c, rel a b → rel b c → rel a c)
    (hinv : ∀ state input, inv state → inv (step state input))
    (hstep : ∀ state input, inv state → rel state (step state input))
    (start : σ) (inputs : List α) (hstart : inv start) :
    rel start (run step start inputs) := by
  induction inputs generalizing start with
  | nil => exact hrefl start
  | cons input rest ih =>
    exact htrans _ _ _ (hstep _ _ hstart) (ih _ (hinv _ _ hstart))

end Library.Transition
