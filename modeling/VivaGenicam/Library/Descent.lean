import Mathlib.Tactic

/-!
Recursive descent with one symbol of lookahead: what a parser has read, chains of
operators, and when a bound on its recursion is enough.
-/

namespace Library.Descent

/-- A text read one symbol at a time. Stepping over a live symbol leaves less to read. -/
structure Cursor (σ τ ε : Type) where
  head : σ → τ
  advance : σ → Except ε σ
  size : σ → Nat
  Live : τ → Prop
  size_advance_le : ∀ p q, advance p = .ok q → size q ≤ size p
  size_advance_lt : ∀ p q, Live (head p) → advance p = .ok q → size q < size p

abbrev Parse (σ ε α : Type) := StateT σ (Except ε) α

variable {σ τ ε α β : Type} {x : Parse σ ε α} {f : α → Parse σ ε β} {p : σ}

theorem bind_eq_ok {r : σ} {b : β} :
    (x >>= f) p = .ok (b, r) ↔ ∃ a q, x p = .ok (a, q) ∧ f a q = .ok (b, r) := by
  change (x p >>= fun s => f s.1 s.2) = _ ↔ _
  cases x p with
  | ok s =>
    obtain ⟨a, q⟩ := s
    simp [bind, Except.bind, and_assoc]
  | error err => simp [bind, Except.bind]

variable {q : σ} {a : α}

theorem bind_ok
    (h : x p = .ok (a, q)) : (x >>= f) p = f a q := by
  change (x p >>= fun s => f s.1 s.2) = _
  rw [h]
  rfl

variable {err : ε}

theorem bind_eq_error :
    (x >>= f) p = .error err ↔
      x p = .error err ∨ ∃ a q, x p = .ok (a, q) ∧ f a q = .error err := by
  change (x p >>= fun s => f s.1 s.2) = _ ↔ _
  cases x p with
  | ok s =>
    obtain ⟨a, q⟩ := s
    simp [bind, Except.bind, and_assoc]
  | error err => simp [bind, Except.bind]

@[simp] theorem pure_eq_ok {b : α} :
    (pure a : Parse σ ε α) p = .ok (b, q) ↔ a = b ∧ p = q := by
  change Except.ok (a, p) = _ ↔ _
  simp

@[simp] theorem pure_ne_error :
    (pure a : Parse σ ε α) p ≠ .error err := by
  change Except.ok (a, p) ≠ _
  simp

@[simp] theorem throw_ne_ok :
    (throw err : Parse σ ε α) p ≠ .ok (a, q) := by
  change Except.error err ≠ _
  simp

@[simp] theorem throw_eq_error {other : ε} :
    (throw err : Parse σ ε α) p = .error other ↔ err = other := by
  change Except.error err = _ ↔ _
  simp

variable {ts : List τ}

namespace Cursor

variable (c : Cursor σ τ ε)

def step : Parse σ ε Unit := fun p => (c.advance p).map fun q => ((), q)

/-- `c.Reads p ts q`: from `p` on, the symbols `ts` lead to `q`. -/
inductive Reads : σ → List τ → σ → Prop
  | nil (p : σ) : Reads p [] p
  | cons {p q r : σ} {ts : List τ} (hstep : c.advance p = .ok q) (hrest : Reads q ts r) :
      Reads p (c.head p :: ts) r

variable {c}

theorem step_eq_ok {u : Unit} : c.step p = .ok (u, q) ↔ c.advance p = .ok q := by
  simp only [step]
  cases c.advance p with
  | ok r => simp [Except.map]
  | error err => simp [Except.map]

theorem step_eq_error : c.step p = .error err ↔ c.advance p = .error err := by
  simp only [step]
  cases c.advance p with
  | ok r => simp [Except.map]
  | error other => simp [Except.map]

theorem step_bind {f : Unit → Parse σ ε β} (h : c.advance p = .ok q) : (c.step >>= f) p = f () q :=
  bind_ok (step_eq_ok.mpr h)

theorem Reads.append {p q r : σ} {ts us : List τ} (h : c.Reads p ts q) (h' : c.Reads q us r) :
    c.Reads p (ts ++ us) r := by
  induction h with
  | nil => exact h'
  | cons hstep _ ih => exact .cons hstep (ih h')

theorem Reads.split {r : σ} {us : List τ} (h : c.Reads p (ts ++ us) r) :
    ∃ q, c.Reads p ts q ∧ c.Reads q us r := by
  induction ts generalizing p with
  | nil => exact ⟨p, .nil p, h⟩
  | cons t ts ih =>
    cases h with
    | cons hstep hrest =>
      obtain ⟨q, hleft, hright⟩ := ih hrest
      exact ⟨q, .cons hstep hleft, hright⟩

theorem Reads.step {p r : σ} {t : τ} {ts : List τ} (h : c.Reads p (t :: ts) r) :
    ∃ q, c.head p = t ∧ c.advance p = .ok q ∧ c.Reads q ts r := by
  cases h with
  | cons hstep hrest => exact ⟨_, rfl, hstep, hrest⟩

theorem Reads.size_le (h : c.Reads p ts q) : c.size q ≤ c.size p := by
  induction h with
  | nil => exact le_rfl
  | cons hstep _ ih => exact ih.trans (c.size_advance_le _ _ hstep)

/-! ## Parsers and the languages they read -/

variable (c)

/-- Whatever the parser returns, it has read from the language. -/
def Sound (L : α → List τ → Prop) (x : Parse σ ε α) : Prop :=
  ∀ p a q, x p = .ok (a, q) → ∃ ts, L a ts ∧ c.Reads p ts q

/-- With less than `n` to read, the parser reads every phrase of the language that ends
before a symbol in `stops`. -/
def Complete (L : α → List τ → Prop) (stops : τ → Prop) (n : Nat) (x : Parse σ ε α) : Prop :=
  ∀ a ts p q, L a ts → c.Reads p ts q → stops (c.head q) → c.size p < n → x p = .ok (a, q)

/-- With less than `n` to read, the parser does not end with `spent`, and reads something. -/
def Ends (spent : ε) (n : Nat) (x : Parse σ ε α) : Prop :=
  ∀ p, c.size p < n → x p ≠ .error spent ∧ ∀ a q, x p = .ok (a, q) → c.size q < c.size p

/-- `spent` is no error of the text itself. -/
def Honest (spent : ε) : Prop := ∀ p, c.advance p ≠ .error spent

variable {c} (c)

/-- The operators of one level, applied as they are met. -/
def chainLeft (spent : ε) (operator : τ → Option β) (combine : β → α → α → α)
    (operand : Parse σ ε α) : Nat → α → Parse σ ε α
  | 0, _ => throw spent
  | fuel + 1, left => fun p =>
    match operator (c.head p) with
    | none => .ok (left, p)
    | some op =>
      (do
        c.step
        let right ← operand
        chainLeft spent operator combine operand fuel (combine op left right)) p

def levelLeft (spent : ε) (operator : τ → Option β) (combine : β → α → α → α)
    (operand : Parse σ ε α) (fuel : Nat) : Parse σ ε α := do
  let left ← operand
  c.chainLeft spent operator combine operand fuel left

end Cursor

inductive LeftChain (operator : τ → Option β) (combine : β → α → α → α)
    (L : α → List τ → Prop) : α → List τ → Prop
  | single {a : α} {ts : List τ} (h : L a ts) : LeftChain operator combine L a ts
  | step {a b : α} {ts us : List τ} {t : τ} {op : β} (hleft : LeftChain operator combine L a ts)
      (hop : operator t = some op) (hright : L b us) :
      LeftChain operator combine L (combine op a b) (ts ++ t :: us)

variable {left : α} {op : β}

namespace Cursor

section LeftChains

variable {c : Cursor σ τ ε} {spent : ε} {operator : τ → Option β} {combine : β → α → α → α}
  {operand : Parse σ ε α} {L : α → List τ → Prop} {stops : τ → Prop} {n fuel : Nat}

theorem chainLeft_none (h : operator (c.head p) = none) :
    c.chainLeft spent operator combine operand (fuel + 1) left p = .ok (left, p) := by
  simp only [chainLeft, h]

theorem chainLeft_some (h : operator (c.head p) = some op) :
    c.chainLeft spent operator combine operand (fuel + 1) left p =
      (do
        c.step
        let right ← operand
        c.chainLeft spent operator combine operand fuel (combine op left right)) p := by
  simp only [chainLeft, h]

theorem chainLeft_sound (hoperand : c.Sound L operand) {b : α} {start : σ}
    (hleft : LeftChain operator combine L left ts) (hread : c.Reads start ts p)
    (h : c.chainLeft spent operator combine operand fuel left p = .ok (b, q)) :
    ∃ us, LeftChain operator combine L b us ∧ c.Reads start us q := by
  induction fuel generalizing left p ts with
  | zero => exact absurd h throw_ne_ok
  | succ fuel ih =>
    cases hop : operator (c.head p) with
    | none =>
      rw [chainLeft_none hop] at h
      cases h
      exact ⟨ts, hleft, hread⟩
    | some op =>
      rw [chainLeft_some hop] at h
      obtain ⟨_, p₁, hstep, h⟩ := bind_eq_ok.mp h
      obtain ⟨right, p₂, hright, h⟩ := bind_eq_ok.mp h
      obtain ⟨us, hus, hreads⟩ := hoperand p₁ right p₂ hright
      apply ih (.step hleft hop hus) _ h
      exact hread.append (.cons (step_eq_ok.mp hstep) hreads)

theorem levelLeft_sound (hoperand : c.Sound L operand) :
    c.Sound (LeftChain operator combine L) (c.levelLeft spent operator combine operand fuel) := by
  intro p a q h
  obtain ⟨left, p₁, hleft, h⟩ := bind_eq_ok.mp h
  obtain ⟨ts, hts, hread⟩ := hoperand p left p₁ hleft
  exact chainLeft_sound hoperand (.single hts) hread h

/-- What follows a chain is met by the loop with the chain already combined, and with
enough of its fuel left. -/
theorem levelLeft_chain (hoperand : c.Complete L stops n operand)
    (hstops : ∀ t op, operator t = some op → stops t ∧ c.Live t) (hfuel : n ≤ fuel)
    (h : LeftChain operator combine L a ts)
    (hread : c.Reads p ts q) (hq : stops (c.head q)) (hp : c.size p < n) :
    ∃ m, c.size q < m ∧ c.levelLeft spent operator combine operand fuel p =
      c.chainLeft spent operator combine operand m a q := by
  induction h generalizing q with
  | single hL =>
    refine ⟨fuel, ?_, bind_ok (hoperand _ _ p q hL hread hq hp)⟩
    have hle := hread.size_le
    omega
  | step hleft hop hright ih =>
    obtain ⟨p₁, hread₁, hread⟩ := hread.split
    obtain ⟨p₂, rfl, hstep, hread⟩ := hread.step
    obtain ⟨hstop, hlive⟩ := hstops _ _ hop
    obtain ⟨m, hm, heq⟩ := ih hread₁ hstop
    obtain ⟨m, rfl⟩ : ∃ k, m = k + 1 := ⟨m - 1, by omega⟩
    have hlt := c.size_advance_lt _ _ hlive hstep
    have hle₁ := hread₁.size_le
    have hle := hread.size_le
    refine ⟨m, by omega, ?_⟩
    rw [heq, chainLeft_some hop, step_bind hstep]
    exact bind_ok (hoperand _ _ p₂ q hright hread hq (by omega))

theorem levelLeft_complete (hoperand : c.Complete L stops n operand)
    (hstops : ∀ t op, operator t = some op → stops t ∧ c.Live t) (hfuel : n ≤ fuel) :
    c.Complete (LeftChain operator combine L) (fun t => stops t ∧ operator t = none) n
      (c.levelLeft spent operator combine operand fuel) := by
  intro a ts p q hL hread hq hp
  obtain ⟨m, hm, heq⟩ : ∃ m, c.size q < m ∧ c.levelLeft spent operator combine operand fuel p =
      c.chainLeft spent operator combine operand m a q :=
    levelLeft_chain hoperand hstops hfuel hL hread hq.1 hp
  obtain ⟨m, rfl⟩ : ∃ k, m = k + 1 := ⟨m - 1, by omega⟩
  rw [heq, chainLeft_none hq.2]

theorem chainLeft_ends (hhonest : c.Honest spent) (hoperand : c.Ends spent n operand)
    (hlive : ∀ t op, operator t = some op → c.Live t)
    (hp : c.size p < n) (hfuel : c.size p < fuel) :
    c.chainLeft spent operator combine operand fuel left p ≠ .error spent ∧
      ∀ a q, c.chainLeft spent operator combine operand fuel left p = .ok (a, q) →
        c.size q ≤ c.size p := by
  induction fuel generalizing left p with
  | zero => omega
  | succ fuel ih =>
    cases hop : operator (c.head p) with
    | none =>
      rw [chainLeft_none hop]
      simp
    | some op =>
      have hnext : ∀ q, c.advance p = .ok q → c.size q < c.size p :=
        fun q hq => c.size_advance_lt p q (hlive _ _ hop) hq
      rw [chainLeft_some hop]
      constructor
      · intro h
        rcases bind_eq_error.mp h with h | ⟨_, p₁, hstep, h⟩
        · exact hhonest p (step_eq_error.mp h)
        have hlt := hnext p₁ (step_eq_ok.mp hstep)
        have hends := hoperand p₁ (by omega)
        rcases bind_eq_error.mp h with h | ⟨right, p₂, hright, h⟩
        · exact hends.1 h
        · have hlt₂ := hends.2 _ _ hright
          exact (ih (by omega) (by omega)).1 h
      · intro a q h
        obtain ⟨_, p₁, hstep, h⟩ := bind_eq_ok.mp h
        have hlt := hnext p₁ (step_eq_ok.mp hstep)
        obtain ⟨right, p₂, hright, h⟩ := bind_eq_ok.mp h
        have hlt₂ := (hoperand p₁ (by omega)).2 _ _ hright
        have hle := (ih (by omega) (by omega)).2 a q h
        omega

theorem levelLeft_ends (hhonest : c.Honest spent) (hoperand : c.Ends spent n operand)
    (hlive : ∀ t op, operator t = some op → c.Live t) (hfuel : n ≤ fuel) :
    c.Ends spent n (c.levelLeft spent operator combine operand fuel) := by
  intro p hp
  have hends := hoperand p hp
  constructor
  · intro h
    rcases bind_eq_error.mp h with h | ⟨left, p₁, hleft, h⟩
    · exact hends.1 h
    · have hlt := hends.2 _ _ hleft
      exact (chainLeft_ends hhonest hoperand hlive (by omega) (by omega)).1 h
  · intro a q h
    obtain ⟨left, p₁, hleft, h⟩ := bind_eq_ok.mp h
    have hlt := hends.2 _ _ hleft
    have hle := (chainLeft_ends hhonest hoperand hlive (by omega) (by omega)).2 a q h
    omega

end LeftChains

variable (c : Cursor σ τ ε)

def levelRight (spent : ε) (operator : τ → Option β) (combine : β → α → α → α)
    (operand : Parse σ ε α) : Nat → Parse σ ε α
  | 0 => throw spent
  | fuel + 1 => do
    let left ← operand
    fun p =>
      match operator (c.head p) with
      | none => .ok (left, p)
      | some op =>
        (do
          c.step
          let right ← levelRight spent operator combine operand fuel
          pure (combine op left right)) p

end Cursor

inductive RightChain (operator : τ → Option β) (combine : β → α → α → α)
    (L : α → List τ → Prop) : α → List τ → Prop
  | single {a : α} {ts : List τ} (h : L a ts) : RightChain operator combine L a ts
  | step {a b : α} {ts us : List τ} {t : τ} {op : β} (hleft : L a ts)
      (hop : operator t = some op) (hright : RightChain operator combine L b us) :
      RightChain operator combine L (combine op a b) (ts ++ t :: us)

namespace Cursor

section RightChains

variable {c : Cursor σ τ ε} {spent : ε} {operator : τ → Option β} {combine : β → α → α → α}
  {operand : Parse σ ε α} {L : α → List τ → Prop} {stops : τ → Prop} {n fuel : Nat}

theorem levelRight_none {p₁ : σ} (hleft : operand p = .ok (left, p₁))
    (h : operator (c.head p₁) = none) :
    c.levelRight spent operator combine operand (fuel + 1) p = .ok (left, p₁) := by
  rw [levelRight, bind_ok hleft]
  simp only [h]

theorem levelRight_some {p₁ : σ} (hleft : operand p = .ok (left, p₁))
    (h : operator (c.head p₁) = some op) :
    c.levelRight spent operator combine operand (fuel + 1) p =
      (do
        c.step
        let right ← c.levelRight spent operator combine operand fuel
        pure (combine op left right)) p₁ := by
  rw [levelRight, bind_ok hleft]
  simp only [h]

theorem levelRight_operand (h : operand p = .error err) :
    c.levelRight spent operator combine operand (fuel + 1) p = .error err := by
  rw [levelRight]
  exact bind_eq_error.mpr (.inl h)

theorem levelRight_sound (hoperand : c.Sound L operand) :
    c.Sound (RightChain operator combine L)
      (c.levelRight spent operator combine operand fuel) := by
  induction fuel with
  | zero => exact fun p a q h => absurd h throw_ne_ok
  | succ fuel ih =>
    intro p a q h
    cases hleft : operand p with
    | error err =>
      rw [levelRight_operand hleft] at h
      cases h
    | ok s =>
      obtain ⟨left, p₁⟩ := s
      obtain ⟨ts, hts, hread⟩ := hoperand p left p₁ hleft
      cases hop : operator (c.head p₁) with
      | none =>
        rw [levelRight_none hleft hop] at h
        cases h
        exact ⟨ts, .single hts, hread⟩
      | some op =>
        rw [levelRight_some hleft hop] at h
        obtain ⟨_, p₂, hstep, h⟩ := bind_eq_ok.mp h
        obtain ⟨right, p₃, hright, h⟩ := bind_eq_ok.mp h
        obtain ⟨rfl, rfl⟩ := pure_eq_ok.mp h
        obtain ⟨us, hus, hreads⟩ := ih p₂ right p₃ hright
        exact ⟨_, .step hts hop hus, hread.append (.cons (step_eq_ok.mp hstep) hreads)⟩

theorem levelRight_complete (hoperand : c.Complete L stops n operand)
    (hstops : ∀ t op, operator t = some op → stops t ∧ c.Live t) (hfuel : n ≤ fuel) :
    c.Complete (RightChain operator combine L) (fun t => stops t ∧ operator t = none) n
      (c.levelRight spent operator combine operand fuel) := by
  intro a ts p q hL hread hq hp
  have hsize : c.size p < fuel := by omega
  clear hfuel
  induction hL generalizing p fuel with
  | single h =>
    obtain ⟨fuel, rfl⟩ : ∃ k, fuel = k + 1 := ⟨fuel - 1, by omega⟩
    exact levelRight_none (hoperand _ _ p q h hread hq.1 hp) hq.2
  | step hleft hop hright ih =>
    obtain ⟨fuel, rfl⟩ : ∃ k, fuel = k + 1 := ⟨fuel - 1, by omega⟩
    obtain ⟨p₁, hread₁, hread⟩ := hread.split
    obtain ⟨p₂, rfl, hstep, hread⟩ := hread.step
    obtain ⟨hstop, hlive⟩ := hstops _ _ hop
    have hlt := c.size_advance_lt _ _ hlive hstep
    have hle₁ := hread₁.size_le
    rw [levelRight_some (hoperand _ _ p p₁ hleft hread₁ hstop hp) hop, step_bind hstep,
      bind_ok (ih p₂ hread (by omega) (by omega))]
    rfl

theorem levelRight_ends (hhonest : c.Honest spent) (hoperand : c.Ends spent n operand)
    (hlive : ∀ t op, operator t = some op → c.Live t) (hfuel : n ≤ fuel) :
    c.Ends spent n (c.levelRight spent operator combine operand fuel) := by
  intro p hp
  have hsize : c.size p < fuel := by omega
  clear hfuel
  induction fuel generalizing p with
  | zero => omega
  | succ fuel ih =>
    have hends := hoperand p hp
    cases hleft : operand p with
    | error err =>
      rw [levelRight_operand hleft]
      exact ⟨by rw [← hleft]; exact hends.1, by simp⟩
    | ok s =>
      obtain ⟨left, p₁⟩ := s
      have hlt := hends.2 left p₁ hleft
      cases hop : operator (c.head p₁) with
      | none =>
        rw [levelRight_none hleft hop]
        refine ⟨by simp, fun a q h => ?_⟩
        cases h
        exact hlt
      | some op =>
        rw [levelRight_some hleft hop]
        have hnext : ∀ q, c.advance p₁ = .ok q → c.size q < c.size p₁ :=
          fun q hq => c.size_advance_lt p₁ q (hlive _ _ hop) hq
        constructor
        · intro h
          rcases bind_eq_error.mp h with h | ⟨_, p₂, hstep, h⟩
          · exact hhonest p₁ (step_eq_error.mp h)
          have hlt₂ := hnext p₂ (step_eq_ok.mp hstep)
          rcases bind_eq_error.mp h with h | ⟨right, p₃, hright, h⟩
          · exact (ih p₂ (by omega) (by omega)).1 h
          · exact pure_ne_error h
        · intro a q h
          obtain ⟨_, p₂, hstep, h⟩ := bind_eq_ok.mp h
          have hlt₂ := hnext p₂ (step_eq_ok.mp hstep)
          obtain ⟨right, p₃, hright, h⟩ := bind_eq_ok.mp h
          obtain ⟨rfl, rfl⟩ := pure_eq_ok.mp h
          have hlt₃ := (ih p₂ (by omega) (by omega)).2 _ _ hright
          omega

end RightChains

variable (c : Cursor σ τ ε)

def levelPrefixed (spent : ε) (operator : τ → Option β) (combine : β → α → α)
    (operand : Parse σ ε α) : Nat → Parse σ ε α
  | 0 => throw spent
  | fuel + 1 => fun p =>
    match operator (c.head p) with
    | none => operand p
    | some op =>
      (do
        c.step
        let inner ← levelPrefixed spent operator combine operand fuel
        pure (combine op inner)) p

end Cursor

inductive PrefixChain (operator : τ → Option β) (combine : β → α → α)
    (L : α → List τ → Prop) : α → List τ → Prop
  | single {a : α} {ts : List τ} (h : L a ts) : PrefixChain operator combine L a ts
  | step {a : α} {ts : List τ} {t : τ} {op : β} (hop : operator t = some op)
      (hinner : PrefixChain operator combine L a ts) :
      PrefixChain operator combine L (combine op a) (t :: ts)

namespace Cursor

section PrefixChains

variable {c : Cursor σ τ ε} {spent : ε} {operator : τ → Option β} {combine : β → α → α}
  {operand : Parse σ ε α} {L : α → List τ → Prop} {stops : τ → Prop} {n fuel : Nat}

theorem levelPrefixed_none (h : operator (c.head p) = none) :
    c.levelPrefixed spent operator combine operand (fuel + 1) p = operand p := by
  simp only [levelPrefixed, h]

theorem levelPrefixed_some (h : operator (c.head p) = some op) :
    c.levelPrefixed spent operator combine operand (fuel + 1) p =
      (do
        c.step
        let inner ← c.levelPrefixed spent operator combine operand fuel
        pure (combine op inner)) p := by
  simp only [levelPrefixed, h]

theorem levelPrefixed_sound (hoperand : c.Sound L operand) :
    c.Sound (PrefixChain operator combine L)
      (c.levelPrefixed spent operator combine operand fuel) := by
  induction fuel with
  | zero => exact fun p a q h => absurd h throw_ne_ok
  | succ fuel ih =>
    intro p a q h
    cases hop : operator (c.head p) with
    | none =>
      rw [levelPrefixed_none hop] at h
      obtain ⟨ts, hts, hread⟩ := hoperand p a q h
      exact ⟨ts, .single hts, hread⟩
    | some op =>
      rw [levelPrefixed_some hop] at h
      obtain ⟨_, p₁, hstep, h⟩ := bind_eq_ok.mp h
      obtain ⟨inner, p₂, hinner, h⟩ := bind_eq_ok.mp h
      obtain ⟨rfl, rfl⟩ := pure_eq_ok.mp h
      obtain ⟨ts, hts, hread⟩ := ih p₁ inner p₂ hinner
      exact ⟨_, .step hop hts, .cons (step_eq_ok.mp hstep) hread⟩

theorem levelPrefixed_complete (hoperand : c.Complete L stops n operand)
    (hlive : ∀ t op, operator t = some op → c.Live t)
    (hstart : ∀ a t ts, L a (t :: ts) → operator t = none) (hnil : ∀ a, ¬ L a []) (hfuel : n ≤ fuel) :
    c.Complete (PrefixChain operator combine L) stops n
      (c.levelPrefixed spent operator combine operand fuel) := by
  intro a ts p q hL hread hq hp
  have hsize : c.size p < fuel := by omega
  clear hfuel
  induction hL generalizing p fuel with
  | @single a ts h =>
    obtain ⟨fuel, rfl⟩ : ∃ k, fuel = k + 1 := ⟨fuel - 1, by omega⟩
    have hop : operator (c.head p) = none := by
      cases ts with
      | nil => exact absurd h (hnil a)
      | cons t ts =>
        obtain ⟨_, rfl, -, -⟩ := hread.step
        exact hstart a _ ts h
    rw [levelPrefixed_none hop]
    exact hoperand _ _ p q h hread hq hp
  | step hop hinner ih =>
    obtain ⟨fuel, rfl⟩ : ∃ k, fuel = k + 1 := ⟨fuel - 1, by omega⟩
    obtain ⟨p₁, rfl, hstep, hread⟩ := hread.step
    have hlt := c.size_advance_lt _ _ (hlive _ _ hop) hstep
    rw [levelPrefixed_some hop, step_bind hstep, bind_ok (ih p₁ hread (by omega) (by omega))]
    rfl

theorem levelPrefixed_ends (hhonest : c.Honest spent) (hoperand : c.Ends spent n operand)
    (hlive : ∀ t op, operator t = some op → c.Live t) (hfuel : n ≤ fuel) :
    c.Ends spent n (c.levelPrefixed spent operator combine operand fuel) := by
  intro p hp
  have hsize : c.size p < fuel := by omega
  clear hfuel
  induction fuel generalizing p with
  | zero => omega
  | succ fuel ih =>
    cases hop : operator (c.head p) with
    | none =>
      rw [levelPrefixed_none hop]
      exact hoperand p hp
    | some op =>
      rw [levelPrefixed_some hop]
      have hnext : ∀ q, c.advance p = .ok q → c.size q < c.size p :=
        fun q hq => c.size_advance_lt p q (hlive _ _ hop) hq
      constructor
      · intro h
        rcases bind_eq_error.mp h with h | ⟨_, p₁, hstep, h⟩
        · exact hhonest p (step_eq_error.mp h)
        have hlt := hnext p₁ (step_eq_ok.mp hstep)
        rcases bind_eq_error.mp h with h | ⟨inner, p₂, hinner, h⟩
        · exact (ih p₁ (by omega) (by omega)).1 h
        · exact pure_ne_error h
      · intro a q h
        obtain ⟨_, p₁, hstep, h⟩ := bind_eq_ok.mp h
        have hlt := hnext p₁ (step_eq_ok.mp hstep)
        obtain ⟨inner, p₂, hinner, h⟩ := bind_eq_ok.mp h
        obtain ⟨rfl, rfl⟩ := pure_eq_ok.mp h
        have hlt₂ := (ih p₁ (by omega) (by omega)).2 _ _ hinner
        omega

end PrefixChains

end Cursor

end Library.Descent
