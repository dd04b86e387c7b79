import Mathlib.Tactic

/-!
Programs that put questions to one another and act on a state, as trees: what
they do is decided when they are run. A question is answered by the program its
body names, to a depth that fuel bounds. Properties of runs follow by induction
over the tree from properties of the single answers and actions.
-/

namespace Library.Programs

universe u u' v v'

/-- Why a program stopped short of a value. -/
inductive Stop (ε : Type) where
  | error (e : ε)
  | panic
  | outOfFuel
deriving DecidableEq

abbrev Outcome (ε α : Type) := Except (Stop ε) α

/-- A program is done, or stops, or asks or acts and goes on with what it gets. -/
inductive Prog (Q : Type → Type u) (O : Type → Type v) (ε α : Type) where
  | done (value : α)
  | stop (reason : Stop ε)
  | ask {β : Type} (question : Q β) (next : β → Prog Q O ε α)
  | act {β : Type} (action : O β) (next : β → Prog Q O ε α)

variable {Q : Type → Type u} {Q' : Type → Type u'} {O : Type → Type v} {O' : Type → Type v'}
variable {ε σ α β : Type}

variable (a : α) (reason : Stop ε)

namespace Prog

def bind : Prog Q O ε α → (α → Prog Q O ε β) → Prog Q O ε β
  | done a, f => f a
  | stop reason, _ => stop reason
  | ask question next, f => ask question fun b => (next b).bind f
  | act action next, f => act action fun b => (next b).bind f

instance : Monad (Prog Q O ε) where
  pure := done
  bind := bind

def fail (e : ε) : Prog Q O ε α := stop (.error e)

def ofExcept : Except ε α → Prog Q O ε α
  | .ok a => done a
  | .error e => fail e

def question (q : Q α) : Prog Q O ε α := ask q done

def action (o : O α) : Prog Q O ε α := act o done

@[simp] theorem pure_eq : (pure a : Prog Q O ε α) = done a := rfl

@[simp] theorem done_bind (f : α → Prog Q O ε β) : done a >>= f = f a := rfl

@[simp] theorem stop_bind (f : α → Prog Q O ε β) :
    (stop reason : Prog Q O ε α) >>= f = stop reason := rfl

@[simp] theorem ask_bind {γ : Type} (q : Q γ) (next : γ → Prog Q O ε α) (f : α → Prog Q O ε β) :
    ask q next >>= f = ask q fun c => next c >>= f := rfl

@[simp] theorem act_bind {γ : Type} (o : O γ) (next : γ → Prog Q O ε α) (f : α → Prog Q O ε β) :
    act o next >>= f = act o fun c => next c >>= f := rfl

@[simp] theorem bind_done (p : Prog Q O ε α) : p >>= done = p := by
  induction p with
  | done a => rfl
  | stop reason => rfl
  | ask q next ih => exact congrArg (ask q) (funext ih)
  | act o next ih => exact congrArg (act o) (funext ih)

theorem bind_assoc {γ : Type} (p : Prog Q O ε α) (f : α → Prog Q O ε β)
    (g : β → Prog Q O ε γ) : p >>= f >>= g = p >>= fun a => f a >>= g := by
  induction p with
  | done a => rfl
  | stop reason => rfl
  | ask q next ih => exact congrArg (ask q) (funext ih)
  | act o next ih => exact congrArg (act o) (funext ih)

instance : LawfulMonad (Prog Q O ε) := LawfulMonad.mk' _ bind_done (fun _ _ => rfl) bind_assoc

@[simp] theorem map_eq (f : α → β) (p : Prog Q O ε α) : f <$> p = p >>= fun a => done (f a) := rfl

/-- A program over other questions and actions. -/
def translate (asked : ∀ γ, Q γ → Prog Q' O' ε γ) (acted : ∀ γ, O γ → Prog Q' O' ε γ) :
    Prog Q O ε α → Prog Q' O' ε α
  | done a => done a
  | stop reason => stop reason
  | ask q next => asked _ q >>= fun b => (next b).translate asked acted
  | act o next => acted _ o >>= fun b => (next b).translate asked acted

end Prog

/-- No action at all. -/
inductive Nothing : Type → Type

/-- A program that only asks. -/
abbrev Asks (Q : Type → Type u) (ε : Type) := Prog Q Nothing ε

namespace Prog

/-- A program that only asks, among programs that act. -/
def among : Asks Q ε α → Prog Q O ε α
  | done a => done a
  | stop reason => stop reason
  | ask q next => ask q fun b => (next b).among
  | act o _ => nomatch o

instance : MonadLift (Asks Q ε) (Prog Q O ε) := ⟨among⟩

theorem among_bind (p : Asks Q ε α) (f : α → Asks Q ε β) :
    ((p >>= f).among : Prog Q O ε β) = p.among >>= fun a => (f a).among := by
  induction p with
  | done a => rfl
  | stop reason => rfl
  | ask q next ih => exact congrArg (ask q) (funext ih)
  | act o next => exact nomatch o

@[simp] theorem among_ofExcept (r : Except ε α) :
    ((ofExcept r : Asks Q ε α).among : Prog Q O ε α) = ofExcept r := by
  cases r <;> rfl

end Prog

/-- How a question or an action is met in a state. -/
abbrev Handler (Q : Type → Type u) (ε σ : Type) := ∀ γ : Type, Q γ → σ → Outcome ε γ × σ

/-- What follows a step that got a value. -/
def follow (r : Outcome ε α × σ) (next : α → σ → Outcome ε β × σ) : Outcome ε β × σ :=
  match r with
  | (.ok a, s) => next a s
  | (.error reason, s) => (.error reason, s)

@[simp] theorem follow_ok (s : σ) (next : α → σ → Outcome ε β × σ) :
    follow (.ok a, s) next = next a s := rfl

@[simp] theorem follow_error (s : σ) (next : α → σ → Outcome ε β × σ) :
    follow (.error reason, s) next = (.error reason, s) := rfl

theorem follow_assoc {γ : Type} (r : Outcome ε α × σ) (f : α → σ → Outcome ε β × σ)
    (g : β → σ → Outcome ε γ × σ) :
    follow (follow r f) g = follow r fun a s => follow (f a s) g := by
  obtain ⟨outcome, s⟩ := r
  cases outcome with
  | ok a => rfl
  | error reason => rfl

variable {r : Outcome ε α × σ} {s : σ}

theorem follow_eq_ok {next : α → σ → Outcome ε β × σ} {b : β} :
    follow r next = (.ok b, s) ↔ ∃ a s', r = (.ok a, s') ∧ next a s' = (.ok b, s) := by
  obtain ⟨outcome, s'⟩ := r
  cases outcome with
  | ok a => simp
  | error reason => simp

theorem follow_eq_error {next : α → σ → Outcome ε β × σ} {reason : Stop ε} :
    follow r next = (.error reason, s) ↔
      r = (.error reason, s) ∨ ∃ a s', r = (.ok a, s') ∧ next a s' = (.error reason, s) := by
  obtain ⟨outcome, s'⟩ := r
  cases outcome with
  | ok a => simp
  | error reason' => simp

def run (answer : Handler Q ε σ) (handle : Handler O ε σ) : Prog Q O ε α → σ → Outcome ε α × σ
  | .done a, s => (.ok a, s)
  | .stop reason, s => (.error reason, s)
  | .ask q next, s => follow (answer _ q s) fun b => run answer handle (next b)
  | .act o next, s => follow (handle _ o s) fun b => run answer handle (next b)

/-- What a question's answer says went wrong, as whoever asked reports it. -/
def reported (report : ε → ε) (r : Outcome ε α × σ) : Outcome ε α × σ :=
  match r with
  | (.error (.error e), s) => (.error (.error (report e)), s)
  | r => r

@[simp] theorem reported_snd (report : ε → ε) (r : Outcome ε α × σ) :
    (reported report r).2 = r.2 := by
  unfold reported
  split <;> rfl

theorem reported_eq_ok {report : ε → ε} {a : α} :
    reported report r = (.ok a, s) ↔ r = (.ok a, s) := by
  unfold reported
  split
  · simp
  · exact Iff.rfl

theorem reported_eq_outOfFuel {report : ε → ε} :
    (reported report r).1 = .error .outOfFuel ↔ r.1 = .error .outOfFuel := by
  unfold reported
  split <;> simp_all

/-- The answers of programs to a depth. -/
def answers (body : ∀ γ, Q γ → Prog Q O ε γ) (report : ∀ γ, Q γ → ε → ε) (handle : Handler O ε σ) :
    Nat → Handler Q ε σ
  | 0 => fun _ _ s => (.error .outOfFuel, s)
  | fuel + 1 => fun γ q s =>
    reported (report γ q) (run (answers body report handle fuel) handle (body γ q) s)

variable {p : Prog Q O ε α}

section

variable (answer : Handler Q ε σ) (handle : Handler O ε σ)

@[simp] theorem run_done (s : σ) : run answer handle (.done a) s = (.ok a, s) := rfl

@[simp] theorem run_stop (s : σ) :
    run answer handle (.stop reason : Prog Q O ε α) s = (.error reason, s) := rfl

@[simp] theorem run_fail (e : ε) (s : σ) :
    run answer handle (.fail e : Prog Q O ε α) s = (.error (.error e), s) := rfl

@[simp] theorem run_ofExcept (r : Except ε α) (s : σ) :
    run answer handle (.ofExcept r : Prog Q O ε α) s = (r.mapError .error, s) := by
  cases r <;> rfl

theorem run_bind (p : Prog Q O ε α) (f : α → Prog Q O ε β) (s : σ) :
    run answer handle (p >>= f) s =
      follow (run answer handle p s) fun a => run answer handle (f a) := by
  induction p generalizing s with
  | done a => rfl
  | stop reason => rfl
  | ask q next ih =>
    simp only [Prog.ask_bind, run, follow_assoc]
    exact congrArg _ (funext fun b => funext fun s => ih b s)
  | act o next ih =>
    simp only [Prog.act_bind, run, follow_assoc]
    exact congrArg _ (funext fun b => funext fun s => ih b s)

theorem run_bind_eq_ok {f : α → Prog Q O ε β} {s' : σ} {b : β} :
    run answer handle (p >>= f) s = (.ok b, s') ↔
      ∃ a mid, run answer handle p s = (.ok a, mid) ∧
        run answer handle (f a) mid = (.ok b, s') := by
  rw [run_bind, follow_eq_ok]

theorem run_ofExcept_eq_ok {r : Except ε α} {s' : σ} {a : α} :
    run answer handle (.ofExcept r) s = (.ok a, s') ↔ r = .ok a ∧ s' = s := by
  rw [run_ofExcept]
  cases r <;> simp [Except.mapError, eq_comm]

@[simp] theorem run_question (q : Q α) (s : σ) :
    run answer handle (.question q) s = answer _ q s := by
  rcases hr : answer _ q s with ⟨outcome, s'⟩
  cases outcome <;> simp [Prog.question, run, hr]

@[simp] theorem run_action (o : O α) (s : σ) :
    run answer handle (.action o) s = handle _ o s := by
  rcases hr : handle _ o s with ⟨outcome, s'⟩
  cases outcome <;> simp [Prog.action, run, hr]

/-- A translated program runs as the original with translated handlers. -/
theorem run_translate {answer' : Handler Q' ε σ} {handle' : Handler O' ε σ}
    (asked : ∀ γ, Q γ → Prog Q' O' ε γ) (acted : ∀ γ, O γ → Prog Q' O' ε γ)
    (p : Prog Q O ε α) (s : σ) :
    run answer' handle' (p.translate asked acted) s =
      run (fun γ q => run answer' handle' (asked γ q))
        (fun γ o => run answer' handle' (acted γ o)) p s := by
  induction p generalizing s with
  | done a => rfl
  | stop reason => rfl
  | ask q next ih =>
    rw [Prog.translate, run_bind, run]
    exact congrArg _ (funext fun b => funext fun s => ih b s)
  | act o next ih =>
    rw [Prog.translate, run_bind, run]
    exact congrArg _ (funext fun b => funext fun s => ih b s)

end

/-- Every step of the handler moves the state along `R`. -/
def Handler.Moves (R : σ → σ → Prop) (handle : Handler O ε σ) : Prop :=
  ∀ γ (o : O γ) s, R s (handle γ o s).2

theorem follow_moves {R : σ → σ → Prop} (htrans : ∀ {a b c}, R a b → R b c → R a c)
    (next : α → σ → Outcome ε β × σ) (hr : R s r.2)
    (hnext : ∀ a mid, R mid (next a mid).2) : R s (follow r next).2 := by
  obtain ⟨outcome, mid⟩ := r
  cases outcome with
  | ok a => exact htrans hr (hnext a mid)
  | error reason => exact hr

section

variable {R : σ → σ → Prop} (hrefl : ∀ s, R s s) (htrans : ∀ {a b c}, R a b → R b c → R a c)
include hrefl htrans

theorem run_moves {answer : Handler Q ε σ} {handle : Handler O ε σ} (hanswer : answer.Moves R)
    (hhandle : handle.Moves R) (p : Prog Q O ε α) (s : σ) : R s (run answer handle p s).2 := by
  induction p generalizing s with
  | done a => exact hrefl s
  | stop reason => exact hrefl s
  | ask q next ih => exact follow_moves (R := R) htrans _ (hanswer _ q s) fun b mid => ih b mid
  | act o next ih => exact follow_moves (R := R) htrans _ (hhandle _ o s) fun b mid => ih b mid

theorem answers_moves {body : ∀ γ, Q γ → Prog Q O ε γ} {report : ∀ γ, Q γ → ε → ε}
    {handle : Handler O ε σ} (hhandle : handle.Moves R) (fuel : Nat) :
    (answers body report handle fuel).Moves R := by
  induction fuel with
  | zero => exact fun _ _ s => hrefl s
  | succ fuel ih =>
    intro γ q s
    rw [answers, reported_snd]
    exact run_moves hrefl htrans ih hhandle (body γ q) s

end

/-- No step of the handler breaks `inv`. -/
def Handler.Keeps (inv : σ → Prop) (handle : Handler O ε σ) : Prop :=
  ∀ γ (o : O γ) s, inv s → inv (handle γ o s).2

/-- From a state with `inv` the program ends in one, and its value satisfies `post`. -/
def Assures (answer : Handler Q ε σ) (handle : Handler O ε σ) (inv : σ → Prop)
    (p : Prog Q O ε α) (post : α → Prop) : Prop :=
  ∀ s, inv s → inv (run answer handle p s).2 ∧ ∀ a, (run answer handle p s).1 = .ok a → post a

section

variable {answer : Handler Q ε σ} {handle : Handler O ε σ} {inv : σ → Prop} {post : α → Prop}

theorem Assures.done {a : α} (h : post a) : Assures answer handle inv (.done a) post := by
  intro s hs
  refine ⟨hs, fun b hb => ?_⟩
  cases hb
  exact h

theorem Assures.stop : Assures answer handle inv (.stop reason : Prog Q O ε α) post :=
  fun _ hs => ⟨hs, nofun⟩

theorem Assures.fail (e : ε) : Assures answer handle inv (.fail e : Prog Q O ε α) post :=
  Assures.stop _

theorem Assures.ofExcept {r : Except ε α} (h : ∀ a, r = .ok a → post a) :
    Assures answer handle inv (.ofExcept r) post := by
  cases r with
  | ok a => exact Assures.done (h a rfl)
  | error e => exact Assures.fail e

theorem Assures.bind {f : α → Prog Q O ε β} {M : α → Prop} {post : β → Prop}
    (hp : Assures answer handle inv p M) (hf : ∀ a, M a → Assures answer handle inv (f a) post) :
    Assures answer handle inv (p >>= f) post := by
  intro s hs
  obtain ⟨hinv, hmid⟩ := hp s hs
  rw [run_bind]
  rcases hr : run answer handle p s with ⟨outcome, s'⟩
  rw [hr] at hinv hmid
  cases outcome with
  | ok a => exact hf a (hmid a rfl) s' hinv
  | error reason => exact ⟨hinv, nofun⟩

theorem Assures.weaken {post' : α → Prop} (hp : Assures answer handle inv p post)
    (h : ∀ a, post a → post' a) : Assures answer handle inv p post' :=
  fun s hs => ⟨(hp s hs).1, fun a ha => h a ((hp s hs).2 a ha)⟩

theorem Assures.action {o : O α}
    (h : ∀ s, inv s → inv (handle _ o s).2 ∧ ∀ a, (handle _ o s).1 = .ok a → post a) :
    Assures answer handle inv (.action o) post := by
  intro s hs
  rw [run_action]
  exact h s hs

variable (hanswer : answer.Keeps inv)
include hanswer

theorem Assures.question (q : Q α) :
    Assures answer handle inv (.question q) fun _ => True := by
  intro s hs
  rw [run_question]
  exact ⟨hanswer _ q s hs, fun _ _ => trivial⟩

theorem Assures.among (p : Asks Q ε α) :
    Assures answer handle inv (p.among : Prog Q O ε α) fun _ => True := by
  induction p with
  | done a => exact Assures.done trivial
  | stop reason => exact Assures.stop reason
  | ask q next ih =>
    have hbind : (Prog.ask q next).among = Prog.question q >>= fun b => (next b).among (O := O) := rfl
    rw [hbind]
    exact Assures.bind (Assures.question hanswer q) fun b _ => ih b
  | act o next => exact nomatch o

end

/-- An invariant of the programs, given that their questions keep it, is one of
their answers. -/
theorem answers_keeps {body : ∀ γ, Q γ → Prog Q O ε γ} {report : ∀ γ, Q γ → ε → ε}
    {handle : Handler O ε σ} {inv : σ → Prop}
    (hbody : ∀ answer : Handler Q ε σ, answer.Keeps inv →
      ∀ γ (q : Q γ), Assures answer handle inv (body γ q) fun _ => True) (fuel : Nat) :
    (answers body report handle fuel).Keeps inv := by
  induction fuel with
  | zero => exact fun _ _ _ hs => hs
  | succ fuel ih =>
    intro γ q s hs
    rw [answers, reported_snd]
    exact (hbody _ ih γ q s hs).1

/-- More fuel answers everything as before, and perhaps more. -/
def Handler.LessDefined (answer answer' : Handler Q ε σ) : Prop :=
  ∀ γ (q : Q γ) s, (answer γ q s).1 ≠ .error .outOfFuel → answer' γ q s = answer γ q s

theorem Handler.LessDefined.refl (answer : Handler Q ε σ) : answer.LessDefined answer :=
  fun _ _ _ _ => rfl

theorem follow_of_lessDefined {answer answer' : Handler Q ε σ} (hless : answer.LessDefined answer')
    {γ : Type} (q : Q γ) (s : σ) {next next' : γ → σ → Outcome ε α × σ}
    (hnext : ∀ b mid, (next b mid).1 ≠ .error .outOfFuel → next' b mid = next b mid)
    (hran : (follow (answer γ q s) next).1 ≠ .error .outOfFuel) :
    follow (answer' γ q s) next' = follow (answer γ q s) next := by
  have hq : (answer γ q s).1 ≠ .error .outOfFuel := by
    intro hout
    rcases hr : answer γ q s with ⟨outcome, mid⟩
    rw [hr] at hout hran
    obtain rfl : outcome = .error .outOfFuel := hout
    exact hran rfl
  rw [hless γ q s hq]
  rcases hr : answer γ q s with ⟨outcome, mid⟩
  rw [hr] at hran
  cases outcome with
  | ok b => exact hnext b mid hran
  | error reason => rfl

theorem run_of_lessDefined {answer answer' : Handler Q ε σ} {handle handle' : Handler O ε σ}
    (hless : answer.LessDefined answer') (hacts : handle.LessDefined handle') (p : Prog Q O ε α)
    (s : σ) (hran : (run answer handle p s).1 ≠ .error .outOfFuel) :
    run answer' handle' p s = run answer handle p s := by
  induction p generalizing s with
  | done a => rfl
  | stop reason => rfl
  | ask q next ih => exact follow_of_lessDefined hless q s ih hran
  | act o next ih => exact follow_of_lessDefined hacts o s ih hran

theorem answers_lessDefined (body : ∀ γ, Q γ → Prog Q O ε γ) (report : ∀ γ, Q γ → ε → ε)
    {handle handle' : Handler O ε σ} (hacts : handle.LessDefined handle') {fuel fuel' : Nat}
    (hle : fuel ≤ fuel') :
    (answers body report handle fuel).LessDefined (answers body report handle' fuel') := by
  induction fuel generalizing fuel' with
  | zero => exact fun _ _ _ h => absurd rfl h
  | succ fuel ih =>
    obtain ⟨fuel', rfl⟩ := Nat.exists_eq_add_of_lt hle
    intro γ q s hran
    have hrun := run_of_lessDefined (ih (show fuel ≤ fuel + fuel' by omega)) hacts (body γ q) s
      fun hout => hran (reported_eq_outOfFuel.mpr hout)
    exact congrArg (reported (report γ q)) hrun

end Library.Programs
