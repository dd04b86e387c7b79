import Mathlib.Tactic

/-!
Loops and what they gather: the states up to the first at which a loop stops, and how many
values went to each counter. A counter wraps round, so it holds how often its number occurs
modulo what it can count.
-/

namespace Library.Until

variable {σ : Type}

/-- The states up to the first at which `stop` holds, that one included. -/
def collect (stop : σ → Bool) (step : σ → σ) : Nat → σ → Option (List σ)
  | 0, _ => none
  | rounds + 1, s => if stop s then some [s] else (collect stop step rounds (step s)).map (s :: ·)

theorem collect_eq {stop : σ → Bool} {step : σ → σ} {n rounds : Nat} {s : σ} (hrounds : n < rounds)
    (hgoes : ∀ k < n, stop (step^[k] s) = false) (hstops : stop (step^[n] s) = true) :
    collect stop step rounds s = some ((List.range (n + 1)).map fun k => step^[k] s) := by
  induction n generalizing rounds s with
  | zero =>
    obtain ⟨rounds, rfl⟩ := Nat.exists_eq_add_of_lt hrounds
    have hstop : stop s = true := hstops
    simp [collect, hstop]
  | succ n ih =>
    obtain ⟨rounds, rfl⟩ := Nat.exists_eq_succ_of_ne_zero (Nat.ne_zero_of_lt hrounds)
    have hstop : stop s = false := hgoes 0 (Nat.succ_pos n)
    have hrest := @ih rounds (step s) (by omega)
      (fun k hk => hgoes (k + 1) (by omega)) hstops
    rw [collect, hstop, hrest, List.range_succ_eq_map]
    simp [Function.comp_def]

end Library.Until

namespace Library.Tally

/-- How many values a counter can count. -/
def counterSize : Nat := 2 ^ 32

/-- Count one value; one that has no bin is not counted. -/
def bump (bins : List Nat) (value : Nat) : List Nat :=
  bins.modify value fun count => (count + 1) % counterSize

/-- How often each number below `bins` occurs, as its counter shows it. -/
def counts (bins : Nat) (values : List Nat) : List Nat :=
  (List.range bins).map fun number => values.count number % counterSize

theorem counts_nil (bins : Nat) : counts bins [] = List.replicate bins 0 := by
  simp [counts, List.map_const']

theorem bump_counts (bins value : Nat) (values : List Nat) :
    bump (counts bins values) value = counts bins (values ++ [value]) := by
  apply List.ext_getElem?
  intro number
  unfold bump counts
  rw [List.getElem?_modify, List.getElem?_map, List.getElem?_map]
  rcases Nat.lt_or_ge number bins with hbin | hbin
  · rw [List.getElem?_range hbin]
    by_cases hsame : value = number
    · subst hsame
      simp only [if_pos, Option.map_some, Option.map_eq_map, List.count_append,
        List.count_singleton_self, Nat.mod_add_mod]
    · have hother : List.count number [value] = 0 := by
        rw [List.count_singleton, if_neg (by simpa using hsame)]
      simp [hsame, List.count_append, hother]
  · rw [List.getElem?_eq_none (by simpa using hbin)]
    simp

/-- Values counted one after another leave in each bin how often its number occurs. -/
theorem foldl_bump_counts (bins : Nat) (before values : List Nat) :
    values.foldl bump (counts bins before) = counts bins (before ++ values) := by
  induction values generalizing before with
  | nil => simp
  | cons value values ih =>
    rw [List.foldl_cons, bump_counts, ih, List.append_assoc, List.singleton_append]

theorem foldl_bump (bins : Nat) (values : List Nat) :
    values.foldl bump (List.replicate bins 0) = counts bins values := by
  have hfold := foldl_bump_counts bins [] values
  rwa [counts_nil, List.nil_append] at hfold

end Library.Tally
