import VivaGenicam.Library.Programs

/-!
Programs that act once: what comes before the act only looks, and what comes
after it cannot fail. Of such a program more is known when it stops short than
when it returns, and the rules below carry both from its parts to the whole.
-/

namespace Library.Programs

universe u v

variable {Q : Type → Type u} {O : Type → Type v} {ε σ α β : Type}

/-- The value is one that the program can return. -/
def Gives (answer : Handler Q ε σ) (handle : Handler O ε σ) (p : Prog Q O ε α) (a : α) : Prop :=
  ∃ s s', run answer handle p s = (.ok a, s')

/-- The program returns, and moves the state along `R`. -/
def Sure (answer : Handler Q ε σ) (handle : Handler O ε σ) (R : σ → σ → Prop)
    (p : Prog Q O ε α) : Prop :=
  ∀ s, ∃ a s', run answer handle p s = (.ok a, s') ∧ R s s'

/-- The program moves the state along `T true` when it returns, and along `T false`
when it stops short. -/
def Settles (answer : Handler Q ε σ) (handle : Handler O ε σ) (T : Bool → σ → σ → Prop)
    (p : Prog Q O ε α) : Prop :=
  ∀ s, T (run answer handle p s).1.isOk s (run answer handle p s).2

def Handler.Settles (T : Bool → σ → σ → Prop) (answer : Handler Q ε σ) : Prop :=
  ∀ γ (q : Q γ) s, T (answer γ q s).1.isOk s (answer γ q s).2

variable {answer : Handler Q ε σ} {handle : Handler O ε σ} {R S : σ → σ → Prop}
  {T : Bool → σ → σ → Prop} {p : Prog Q O ε α} {f : α → Prog Q O ε β}

theorem Sure.bind (htrans : ∀ {a b c}, R a b → R b c → R a c)
    (hp : Sure answer handle R p) (hf : ∀ a, Sure answer handle R (f a)) :
    Sure answer handle R (p >>= f) := by
  intro s
  obtain ⟨a, mid, hrun, hfirst⟩ := hp s
  obtain ⟨b, s', hrest, hlast⟩ := hf a mid
  refine ⟨b, s', ?_, htrans hfirst hlast⟩
  rw [run_bind, hrun, follow_ok, hrest]

/-- A part that looks, before the rest. -/
theorem Settles.after (hstop : ∀ {s s'}, R s s' → T false s s')
    (hlook : ∀ {b s mid s'}, R s mid → T b mid s' → T b s s')
    (hp : ∀ s, R s (run answer handle p s).2)
    (hf : ∀ a, Gives answer handle p a → Settles answer handle T (f a)) :
    Settles answer handle T (p >>= f) := by
  intro s
  have hfirst := hp s
  rw [run_bind]
  rcases hrun : run answer handle p s with ⟨outcome, mid⟩
  rw [hrun] at hfirst
  cases outcome with
  | ok a => exact hlook hfirst (hf a ⟨s, mid, hrun⟩ mid)
  | error reason => exact hstop hfirst

/-- A part that cannot fail, after the act. -/
theorem Settles.before (hdone : ∀ {s mid s'}, T true s mid → S mid s' → T true s s')
    (hp : Settles answer handle T p)
    (hf : ∀ a, Sure answer handle S (f a)) : Settles answer handle T (p >>= f) := by
  intro s
  have hfirst := hp s
  rw [run_bind]
  rcases hrun : run answer handle p s with ⟨outcome, mid⟩
  rw [hrun] at hfirst
  cases outcome with
  | ok a =>
    obtain ⟨b, s', hrest, hlast⟩ := hf a mid
    rw [follow_ok, hrest]
    exact hdone hfirst hlast
  | error reason => exact hfirst

theorem isOk_reported (report : ε → ε) (r : Outcome ε α × σ) :
    (reported report r).1.isOk = r.1.isOk := by
  unfold reported
  split <;> rfl

/-- Programs that settle where their questions do are answers that settle. -/
theorem answers_settles {body : ∀ γ, Q γ → Prog Q O ε γ} {report : ∀ γ, Q γ → ε → ε}
    (hzero : ∀ s, T false s s)
    (hbody : ∀ answer : Handler Q ε σ, answer.Settles T →
      ∀ γ (q : Q γ), Programs.Settles answer handle T (body γ q)) (fuel : Nat) :
    (answers body report handle fuel).Settles T := by
  induction fuel with
  | zero => exact fun _ _ s => hzero s
  | succ fuel ih =>
    intro γ q s
    have hrun := hbody _ ih γ q s
    rw [answers, reported_snd, isOk_reported]
    exact hrun

end Library.Programs
