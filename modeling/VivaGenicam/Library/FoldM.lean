import Mathlib.Tactic

/-!
Folds that may fail: two of them step by step, what every step preserves, and
one part of the state as a plain fold of its own.
-/

namespace Library.FoldM

variable {ε δ σ τ α β : Type*}

theorem bind_eq_ok {ε σ τ : Type} {x : Except ε σ} {f : σ → Except ε τ} {t : τ} :
    (x >>= f) = .ok t ↔ ∃ s, x = .ok s ∧ f s = .ok t := by
  cases x with
  | ok s => simp [bind, Except.bind]
  | error err => simp [bind, Except.bind]

theorem map_eq_ok {ε σ τ : Type} {x : Except ε σ} {f : σ → τ} {t : τ} :
    x.map f = .ok t ↔ ∃ s, x = .ok s ∧ f s = t := by
  cases x with
  | ok s => simp [Except.map]
  | error err => simp [Except.map]

/-- Both fail, or both succeed with related results. -/
def Agree (rel : σ → τ → Prop) : Except ε σ → Except δ τ → Prop
  | .ok s, .ok t => rel s t
  | .error _, .error _ => True
  | _, _ => False

variable {rel : σ → τ → Prop} {x : Except ε σ}

theorem agree_ok_iff {t : τ} :
    Agree (δ := δ) rel x (.ok t) ↔ ∃ s, x = .ok s ∧ rel s t := by
  cases x with
  | ok s => simp [Agree]
  | error err => simp [Agree]

theorem agree_error_iff {err : δ} :
    Agree rel x (.error err) ↔ ∃ err', x = .error err' := by
  cases x with
  | ok s => simp [Agree]
  | error err => simp [Agree]

theorem Agree.mono {weaker : σ → τ → Prop} (himp : ∀ s t, rel s t → weaker s t)
    {y : Except δ τ} (h : Agree rel x y) : Agree weaker x y := by
  cases x with
  | ok s =>
    cases y with
    | ok t => exact himp s t h
    | error err => exact h
  | error err =>
    cases y with
    | ok t => exact h
    | error err => trivial

variable {f : σ → α → Except ε σ} {s : σ} (as : List α)

/-- Two folds whose steps agree from related states agree. -/
theorem foldlM_agree {g : τ → α → Except δ τ}
    (hstep : ∀ a ∈ as, ∀ s t, rel s t → Agree rel (f s a) (g t a))
    {t : τ} (h : rel s t) : Agree rel (as.foldlM f s) (as.foldlM g t) := by
  induction as generalizing s t with
  | nil => exact h
  | cons a rest ih =>
    have hfirst := hstep a (by simp) s t h
    simp only [List.foldlM_cons]
    cases hf : f s a with
    | error err =>
      cases hg : g t a with
      | error err' => trivial
      | ok t' => simp [hf, hg, Agree] at hfirst
    | ok s' =>
      cases hg : g t a with
      | error err' => simp [hf, hg, Agree] at hfirst
      | ok t' =>
        rw [hf, hg] at hfirst
        exact ih (fun b hb => hstep b (by simp [hb])) hfirst

/-- What every step that succeeds preserves holds of the result. -/
theorem foldlM_preserves {P : σ → Prop}
    (hstep : ∀ a ∈ as, ∀ s s', P s → f s a = .ok s' → P s') {s' : σ} (hs : P s)
    (h : as.foldlM f s = .ok s') : P s' := by
  induction as generalizing s with
  | nil =>
    cases h
    exact hs
  | cons a rest ih =>
    simp only [List.foldlM_cons] at h
    cases hf : f s a with
    | error err =>
      rw [hf] at h
      cases h
    | ok mid =>
      rw [hf] at h
      exact ih (fun b hb => hstep b (by simp [hb])) (hstep a (by simp) s mid hs hf) h

variable {a : α}

/-- What one of the elements establishes and the others preserve holds of the result. -/
theorem foldlM_establishes {P : σ → Prop} (ha : a ∈ as) (hset : ∀ s s', f s a = .ok s' → P s')
    (hkeep : ∀ b ∈ as, ∀ s s', P s → f s b = .ok s' → P s') {s' : σ}
    (h : as.foldlM f s = .ok s') : P s' := by
  induction as generalizing s with
  | nil => cases ha
  | cons b rest ih =>
    simp only [List.foldlM_cons] at h
    cases hf : f s b with
    | error err =>
      rw [hf] at h
      cases h
    | ok mid =>
      rw [hf] at h
      have hrest := fun c hc => hkeep c (List.mem_cons_of_mem b hc)
      rcases List.mem_cons.mp ha with rfl | hmem
      · exact foldlM_preserves rest hrest (hset s mid hf) h
      · exact ih hmem hrest h

/-- Two folds agree where one passes over elements that the other reads
without leaving the relation. -/
theorem foldlM_agree_filter {rel : σ → τ → Prop} {f : σ → α → Except ε σ}
    {g : τ → α → Except δ τ} (p : α → Bool) (as : List α)
    (hkeep : ∀ a ∈ as, p a = true → ∀ s t, rel s t → Agree rel (f s a) (g t a))
    (hdrop : ∀ a ∈ as, p a = false → ∀ s t, rel s t → ∃ s', f s a = .ok s' ∧ rel s' t)
    {s : σ} {t : τ} (h : rel s t) : Agree rel (as.foldlM f s) ((as.filter p).foldlM g t) := by
  induction as generalizing s t with
  | nil => exact h
  | cons a rest ih =>
    have hrest := fun {s t} => @ih (fun b hb => hkeep b (by simp [hb]))
      (fun b hb => hdrop b (by simp [hb])) s t
    cases hp : p a with
    | true =>
      have hfirst := hkeep a (by simp) hp s t h
      simp only [List.filter_cons, hp, if_true, List.foldlM_cons]
      cases hf : f s a with
      | error err =>
        cases hg : g t a with
        | error err' => trivial
        | ok t' => simp [hf, hg, Agree] at hfirst
      | ok s' =>
        cases hg : g t a with
        | error err' => simp [hf, hg, Agree] at hfirst
        | ok t' =>
          rw [hf, hg] at hfirst
          exact hrest hfirst
    | false =>
      obtain ⟨s', hs', hrel⟩ := hdrop a (by simp) hp s t h
      simp only [List.filter_cons, hp, Bool.false_eq_true, if_false, List.foldlM_cons, hs']
      exact hrest hrel

/-- An element whose step commutes with those of `bs` may be read after them. -/
theorem foldlM_later (bs cs : List α)
    (hcomm : ∀ b ∈ bs, ∀ s, (f s a >>= (f · b)) = (f s b >>= (f · a))) (s : σ) :
    (a :: (bs ++ cs)).foldlM f s = (bs ++ a :: cs).foldlM f s := by
  induction bs generalizing s with
  | nil => rfl
  | cons b rest ih =>
    calc (a :: (b :: rest ++ cs)).foldlM f s
        = (f s a >>= (f · b)) >>= fun s => (rest ++ cs).foldlM f s := by
          simp only [List.cons_append, List.foldlM_cons, bind_assoc]
      _ = f s b >>= fun s => (a :: (rest ++ cs)).foldlM f s := by
          simp only [hcomm b (by simp) s, List.foldlM_cons, bind_assoc]
      _ = (b :: rest ++ a :: cs).foldlM f s := by
          simp only [List.cons_append, List.foldlM_cons, ih fun c hc => hcomm c (by simp [hc])]

/-- Elements whose steps commute with the others' may be read after them all. -/
theorem foldlM_partition (p : α → Bool) (as : List α)
    (hcomm : ∀ a ∈ as, p a = true → ∀ b ∈ as, p b = false → ∀ s,
      (f s a >>= (f · b)) = (f s b >>= (f · a))) (s : σ) :
    as.foldlM f s = (as.filter (fun a => !p a) ++ as.filter p).foldlM f s := by
  induction as generalizing s with
  | nil => rfl
  | cons a rest ih =>
    have hrest := ih fun b hb hpb c hc hpc => hcomm b (by simp [hb]) hpb c (by simp [hc]) hpc
    cases hp : p a with
    | false =>
      simp only [List.filter_cons, hp, Bool.not_false, if_true, Bool.false_eq_true, if_false,
        List.cons_append, List.foldlM_cons]
      exact congrArg (f s a >>= ·) (funext hrest)
    | true =>
      have hlater := foldlM_later (rest.filter fun a => !p a) (rest.filter p)
        (fun b hb => hcomm a (by simp) hp b (by simp [List.mem_of_mem_filter hb])
          (by simpa using List.of_mem_filter hb)) s
      simp only [List.filter_cons, hp, Bool.not_true, if_true, Bool.false_eq_true, if_false]
      rw [← hlater]
      simp only [List.foldlM_cons]
      exact congrArg (f s a >>= ·) (funext hrest)

/-- A part of the state that each step updates on its own is a fold of its own. -/
theorem foldlM_view {P : σ → Prop} {view : σ → β} {next : β → α → β}
    {f : σ → α → Except ε σ} (as : List α)
    (hkeep : ∀ a ∈ as, ∀ s s', P s → f s a = .ok s' → P s')
    (hstep : ∀ a ∈ as, ∀ s s', P s → f s a = .ok s' → view s' = next (view s) a) {s s' : σ}
    (hs : P s) (h : as.foldlM f s = .ok s') : view s' = as.foldl next (view s) := by
  induction as generalizing s with
  | nil =>
    cases h
    rfl
  | cons a rest ih =>
    simp only [List.foldlM_cons] at h
    cases hf : f s a with
    | error err =>
      rw [hf] at h
      cases h
    | ok mid =>
      rw [hf] at h
      rw [ih (fun b hb => hkeep b (by simp [hb])) (fun b hb => hstep b (by simp [hb]))
        (hkeep a (by simp) s mid hs hf) h, hstep a (by simp) s mid hs hf]
      rfl

/-- A fold forgets where it started at an element that sets the state. -/
theorem foldl_forgets {next : β → α → β} (ha : a ∈ as)
    (hsets : ∀ b b', next b a = next b' a) (b b' : β) : as.foldl next b = as.foldl next b' := by
  induction as generalizing b b' with
  | nil => cases ha
  | cons c rest ih =>
    rcases List.mem_cons.mp ha with rfl | hmem
    · simp only [List.foldl_cons, hsets b b']
    · exact ih hmem (next b c) (next b' c)

/-- A fold passes over the elements that leave the state as it is. -/
theorem foldl_of_ignored {next : β → α → β} (p : α → Bool) (as : List α)
    (hignored : ∀ a ∈ as, p a = false → ∀ b, next b a = b) (b : β) :
    (as.filter p).foldl next b = as.foldl next b := by
  induction as generalizing b with
  | nil => rfl
  | cons a rest ih =>
    have hrest := fun x => ih (fun c hc => hignored c (by simp [hc])) x
    cases hp : p a with
    | false => simp [hp, hignored a (by simp) hp, hrest]
    | true => simp [hp, hrest]

end Library.FoldM
