import Mathlib.Tactic
import Mathlib.Order.Interval.Finset.Nat

/-!
Numbers handed out round robin from `1..period`, where now and then one is
passed over. Positions count what was taken from the counter; as long as the
positions passed over lie a whole period apart, no number comes back within
fewer than `period` of those handed out.
-/

namespace Library.RoundRobin

/-- The number at a position of a counter over `1..period` that starts at `first`. -/
def ticket (period first position : Nat) : Nat :=
  (first - 1 + position) % period + 1

theorem ticket_pos (period first position : Nat) : 0 < ticket period first position :=
  Nat.succ_pos _

variable {period : Nat}

theorem ticket_le (hperiod : 0 < period) (first position : Nat) :
    ticket period first position ≤ period :=
  Nat.mod_lt _ hperiod

variable {first : Nat}

theorem ticket_zero (hpos : 0 < first) (hle : first ≤ period) :
    ticket period first 0 = first := by
  unfold ticket
  rw [Nat.add_zero, Nat.mod_eq_of_lt (by omega)]
  omega

theorem ticket_succ {period : Nat} (hperiod : 0 < period) (first position : Nat) :
    ticket period first (position + 1) =
      if ticket period first position = period then 1 else ticket period first position + 1 := by
  unfold ticket
  set base := first - 1 + position
  have hlt := Nat.mod_lt base hperiod
  have hbase := Nat.div_add_mod base period
  rw [← Nat.add_assoc]
  split
  · rename_i hlast
    have hnext : base + 1 = period * (base / period + 1) := by
      rw [Nat.mul_add]
      omega
    rw [hnext, Nat.mul_mod_right]
  · rename_i hlast
    have hnext : base + 1 = base % period + 1 + period * (base / period) := by omega
    rw [hnext, Nat.add_mul_mod_self_left, Nat.mod_eq_of_lt (by omega)]

/-- Equal numbers stand a multiple of the period apart. -/
theorem period_le_of_ticket_eq {early late : Nat}
    (heq : ticket period first early = ticket period first late) (hlt : early < late) :
    period ≤ late - early := by
  have hmod : first - 1 + early ≡ first - 1 + late [MOD period] := by
    have := Nat.succ.inj heq
    exact this
  have hdvd : period ∣ late - early :=
    (Nat.modEq_iff_dvd' hlt.le).mp (Nat.ModEq.add_left_cancel' _ hmod)
  exact Nat.le_of_dvd (by omega) hdvd

/-- The positions in use, newest first, of those below `taken`; the others were
passed over, and lie at least `period` apart. -/
structure Sparse (period taken : Nat) (used : List Nat) : Prop where
  descending : used.Pairwise (· > ·)
  below : ∀ position ∈ used, position < taken
  apart : ∀ early late, early < late → late < taken → early ∉ used → late ∉ used →
    period ≤ late - early

theorem Sparse.nil (period : Nat) : Sparse period 0 [] :=
  ⟨List.Pairwise.nil, by simp, by omega⟩

variable {taken : Nat} {used : List Nat}

theorem Sparse.use (h : Sparse period taken used) : Sparse period (taken + 1) (taken :: used) where
  descending := List.pairwise_cons.mpr ⟨h.below, h.descending⟩
  below := by
    intro position hmem
    rcases List.mem_cons.mp hmem with rfl | hmem
    · omega
    · have := h.below position hmem
      omega
  apart := by
    intro early late hlt hlate hearly hnot
    rw [List.mem_cons, not_or] at hearly hnot
    exact h.apart early late hlt (by omega) hearly.2 hnot.2

/-- The next position is passed over, a period after every other such. -/
theorem Sparse.pass (h : Sparse period taken used)
    (hfar : ∀ early, early < taken → early ∉ used → period ≤ taken - early) :
    Sparse period (taken + 1) used where
  descending := h.descending
  below := fun position hmem => Nat.lt_succ_of_lt (h.below position hmem)
  apart := by
    intro early late hlt hlate hearly hnot
    rcases Nat.lt_succ_iff_lt_or_eq.mp hlate with hlate | rfl
    · exact h.apart early late hlt hlate hearly hnot
    · exact hfar early hlt hearly

/-- Fewer than `period` consecutive positions in use span less than `period`. -/
theorem Sparse.window {window : List Nat}
    (h : Sparse period taken used) (hwindow : window <:+: used)
    (hlength : window.length < period) {late early : Nat} (hlate : late ∈ window)
    (hearly : early ∈ window) (hlt : early < late) : late - early < period := by
  by_contra hspan
  obtain ⟨newer, older, rfl⟩ := hwindow
  have hsorted := h.descending
  simp only [List.pairwise_append, List.mem_append] at hsorted
  -- Of the `period` positions after `early`, at most one was passed over.
  set span := Finset.Ioc early (early + period)
  have hpassed : (span.filter (· ∉ newer ++ window ++ older)).card ≤ 1 := by
    rw [Finset.card_le_one]
    intro a ha b hb
    rw [Finset.mem_filter, Finset.mem_Ioc] at ha hb
    have htaken := h.below late (by simp [hlate])
    rcases lt_trichotomy a b with hab | hab | hab
    · have := h.apart a b hab (by omega) ha.2 hb.2
      omega
    · exact hab
    · have := h.apart b a hab (by omega) hb.2 ha.2
      omega
  -- The others are in the window, and are not its `early`.
  have hinside : span.filter (· ∈ newer ++ window ++ older) ⊆ window.toFinset.erase early := by
    intro a ha
    rw [Finset.mem_filter, Finset.mem_Ioc] at ha
    obtain ⟨⟨hgt, hle⟩, hmem⟩ := ha
    rw [Finset.mem_erase, List.mem_toFinset]
    refine ⟨by omega, ?_⟩
    rw [List.mem_append, List.mem_append] at hmem
    rcases hmem with (hnew | hin) | hold
    · have := hsorted.1.2.2 a hnew late hlate
      omega
    · exact hin
    · have := hsorted.2.2 early (Or.inr hearly) a hold
      omega
  have hcard : (span.filter (· ∈ newer ++ window ++ older)).card < window.length := by
    calc
      (span.filter (· ∈ newer ++ window ++ older)).card
          ≤ (window.toFinset.erase early).card := Finset.card_le_card hinside
      _ < window.toFinset.card := Finset.card_erase_lt_of_mem (List.mem_toFinset.mpr hearly)
      _ ≤ window.length := List.toFinset_card_le window
  have htotal := Finset.card_filter_add_card_filter_not (s := span)
    (· ∈ newer ++ window ++ older)
  rw [Nat.card_Ioc] at htotal
  omega

/-- No number comes back among fewer than `period` consecutive ones in use. -/
theorem Sparse.nodup {window : List Nat} (h : Sparse period taken used) (hwindow : window <:+: used)
    (hlength : window.length < period) : (window.map (ticket period first)).Nodup := by
  have hsorted : window.Pairwise (· > ·) := h.descending.sublist hwindow.sublist
  rw [List.Nodup, List.pairwise_map]
  apply hsorted.imp_of_mem
  intro late early hlate hearly hlt heq
  have hspan := h.window hwindow hlength hlate hearly hlt
  have := period_le_of_ticket_eq heq.symm hlt
  omega

/-- Where no position is passed over, a whole period of numbers is distinct. -/
theorem nodup_of_all_used {window : List Nat}
    (hwindow : window <:+: (List.range taken).map (ticket period first))
    (hlength : window.length ≤ period) : window.Nodup := by
  obtain ⟨older, newer, heq⟩ := hwindow
  obtain ⟨front, back, hfront, hfrontMap, -⟩ := List.map_eq_append_iff.mp heq.symm
  obtain ⟨skipped, positions, rfl, -, rfl⟩ := List.map_eq_append_iff.mp hfrontMap
  rw [List.range_eq_range'] at hfront
  obtain ⟨upto, -, hinner, -⟩ := List.range'_eq_append_iff.mp hfront
  obtain ⟨before, hbefore, -, hpositions⟩ := List.range'_eq_append_iff.mp hinner.symm
  rw [List.length_map, hpositions, List.length_range'] at hlength
  rw [List.Nodup, List.pairwise_map, hpositions]
  apply (List.pairwise_lt_range' (s := 0 + before * 1) (n := upto - before)).imp_of_mem
  intro early late hearly hlate hlt heq
  rw [List.mem_range'_1] at hearly hlate
  have := period_le_of_ticket_eq heq hlt
  omega

end Library.RoundRobin
