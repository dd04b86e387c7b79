import VivaGenicam.Stream.Resend

/-!
The gaps of a block as a map from packet ids: what is remembered of each
missing packet. The gaps are kept in order, apart from each other and below the
frontier, and each operation on them is a pointwise one on the map.
-/

namespace VivaGenicam.Stream

/-- What is remembered of a missing packet. -/
structure Pending where
  requests : Nat
  due : Option Instant
deriving DecidableEq, Repr

namespace Gap

def pending (gap : Gap) : Pending where
  requests := gap.requests
  due := gap.due

def ids (gap : Gap) : List Nat := List.range' gap.first gap.len

theorem contains_iff (gap : Gap) (id : Nat) :
    gap.contains id = true ↔ gap.first ≤ id ∧ id ≤ gap.last := by
  simp [contains]

theorem mem_ids {gap : Gap} (h : gap.first ≤ gap.last) (id : Nat) :
    id ∈ gap.ids ↔ gap.contains id = true := by
  rw [ids, List.mem_range'_1, contains_iff, len]
  omega

end Gap

def pendingOf (gaps : List Gap) (id : Nat) : Option Pending :=
  (gaps.find? (·.contains id)).map Gap.pending

@[simp] theorem pendingOf_nil (id : Nat) : pendingOf [] id = none := rfl

theorem pendingOf_cons (gap : Gap) (rest : List Gap) (id : Nat) :
    pendingOf (gap :: rest) id =
      if gap.contains id = true then some gap.pending else pendingOf rest id := by
  unfold pendingOf
  rw [List.find?_cons]
  cases gap.contains id <;> rfl

theorem pendingOf_append (front back : List Gap) (id : Nat) :
    pendingOf (front ++ back) id = (pendingOf front id).or (pendingOf back id) := by
  unfold pendingOf
  rw [List.find?_append, Option.map_or]

/-- Runs of ids in order, apart from each other, all below `frontier`. -/
structure Ordered (gaps : List Gap) (frontier : Nat) : Prop where
  nonempty : ∀ gap ∈ gaps, gap.first ≤ gap.last
  below : ∀ gap ∈ gaps, gap.last < frontier
  apart : gaps.Pairwise fun first second => first.last < second.first

variable {id : Nat}

namespace Ordered

variable {gap : Gap} {gaps rest : List Gap} {frontier : Nat}

theorem nil (frontier : Nat) : Ordered [] frontier := ⟨by simp, by simp, List.Pairwise.nil⟩

theorem cons_iff : Ordered (gap :: rest) frontier ↔
    gap.first ≤ gap.last ∧ gap.last < frontier ∧ (∀ other ∈ rest, gap.last < other.first) ∧
      Ordered rest frontier := by
  constructor
  · rintro ⟨hnonempty, hbelow, hapart⟩
    rw [List.pairwise_cons] at hapart
    exact ⟨hnonempty gap (by simp), hbelow gap (by simp), hapart.1,
      fun other h => hnonempty other (by simp [h]), fun other h => hbelow other (by simp [h]),
      hapart.2⟩
  · rintro ⟨hnonempty, hbelow, hapart, hrest⟩
    exact ⟨List.forall_mem_cons.mpr ⟨hnonempty, hrest.nonempty⟩,
      List.forall_mem_cons.mpr ⟨hbelow, hrest.below⟩, hrest.apart.cons hapart⟩

theorem mono (h : Ordered gaps frontier) {higher : Nat} (hle : frontier ≤ higher) :
    Ordered gaps higher :=
  ⟨h.nonempty, fun gap hgap => (h.below gap hgap).trans_le hle, h.apart⟩

theorem pendingOf_before (hbefore : ∀ other ∈ gaps, id < other.first) :
    pendingOf gaps id = none := by
  unfold pendingOf
  rw [Option.map_eq_none_iff, List.find?_eq_none]
  intro other hother
  have := hbefore other hother
  rw [Gap.contains_iff]
  omega

theorem pendingOf_beyond (h : Ordered gaps frontier) (hid : frontier ≤ id) :
    pendingOf gaps id = none := by
  unfold pendingOf
  rw [Option.map_eq_none_iff, List.find?_eq_none]
  intro other hother
  have := h.below other hother
  rw [Gap.contains_iff]
  omega

end Ordered

/-- Every gap of `after` lies within one of `gaps`. -/
def Carved (gaps after : List Gap) : Prop :=
  ∀ piece ∈ after, ∃ gap ∈ gaps, gap.first ≤ piece.first ∧ piece.last ≤ gap.last

namespace Ordered

variable {gap : Gap} {gaps rest after : List Gap} {frontier : Nat}

theorem cons_carved (h : Ordered (gap :: rest) frontier) (hcarved : Carved rest after)
    (hafter : Ordered after frontier) : Ordered (gap :: after) frontier := by
  obtain ⟨hnonempty, hbelow, hapart, -⟩ := cons_iff.mp h
  refine cons_iff.mpr ⟨hnonempty, hbelow, fun piece hpiece => ?_, hafter⟩
  obtain ⟨other, hother, hfirst, -⟩ := hcarved piece hpiece
  exact (hapart other hother).trans_le hfirst

theorem retimed (h : Ordered (gap :: rest) frontier) (requests : Nat) (due : Option Instant) :
    Ordered ({ gap with requests, due } :: rest) frontier :=
  have ⟨hnonempty, hbelow, hapart, hrest⟩ := cons_iff.mp h
  cons_iff.mpr ⟨hnonempty, hbelow, hapart, hrest⟩

theorem rest_before (h : Ordered (gap :: rest) frontier) (hid : id ≤ gap.last) :
    pendingOf rest id = none := by
  obtain ⟨-, -, hapart, -⟩ := cons_iff.mp h
  exact pendingOf_before fun other hother => hid.trans_lt (hapart other hother)

end Ordered

theorem Ordered.pendingOf_mem {gaps : List Gap} {frontier : Nat} (h : Ordered gaps frontier)
    {gap : Gap} (hgap : gap ∈ gaps) (hid : gap.contains id = true) :
    pendingOf gaps id = some gap.pending := by
  induction gaps with
  | nil => cases hgap
  | cons first rest ih =>
    obtain ⟨-, -, hapart, hrest⟩ := cons_iff.mp h
    rw [pendingOf_cons]
    rcases List.mem_cons.mp hgap with rfl | hgap
    · rw [if_pos hid]
    · rw [Gap.contains_iff] at hid
      have := hapart gap hgap
      rw [if_neg (by rw [Gap.contains_iff]; omega)]
      exact ih hrest hgap

theorem exists_gap {gaps : List Gap} {pending : Pending} (h : pendingOf gaps id = some pending) :
    ∃ gap ∈ gaps, gap.contains id = true ∧ gap.pending = pending := by
  unfold pendingOf at h
  obtain ⟨gap, hfind, rfl⟩ := Option.map_eq_some_iff.mp h
  exact ⟨gap, List.mem_of_find?_eq_some hfind, by simpa using List.find?_some hfind, rfl⟩

namespace Gap

theorem without_cases (gap : Gap) (hid : gap.contains id = true) :
    (gap.first = id ∧ gap.last = id ∧ gap.without id = []) ∨
    (gap.first = id ∧ id < gap.last ∧ gap.without id = [{ gap with first := id + 1 }]) ∨
    (gap.first < id ∧ gap.last = id ∧ gap.without id = [{ gap with last := id - 1 }]) ∨
    (gap.first < id ∧ id < gap.last ∧
      gap.without id = [{ gap with last := id - 1 }, { gap with first := id + 1 }]) := by
  rw [contains_iff] at hid
  unfold without
  split <;> rename_i hfirst hlast <;> simp only [beq_iff_eq, beq_eq_false_iff_ne] at hfirst hlast
  · exact .inl ⟨hfirst.symm, hlast.symm, rfl⟩
  · exact .inr (.inl ⟨hfirst.symm, by omega, rfl⟩)
  · exact .inr (.inr (.inl ⟨by omega, hlast.symm, rfl⟩))
  · exact .inr (.inr (.inr ⟨by omega, by omega, rfl⟩))

theorem without_pending (gap : Gap) (hid : gap.contains id = true) (other : Nat) :
    pendingOf (gap.without id) other =
      if other ≠ id ∧ gap.contains other = true then some gap.pending else none := by
  have hpos : gap.first < id → id - 1 < id := by omega
  rcases gap.without_cases hid with ⟨hfirst, hlast, heq⟩ | ⟨hfirst, hlast, heq⟩ |
    ⟨hfirst, hlast, heq⟩ | ⟨hfirst, hlast, heq⟩ <;> rw [heq] <;>
    simp only [pendingOf_cons, pendingOf_nil, contains_iff] <;> grind [pending]

theorem without_ordered (gap : Gap) (hid : gap.contains id = true) {frontier : Nat}
    (hbelow : gap.last < frontier) : Ordered (gap.without id) frontier := by
  rcases gap.without_cases hid with ⟨hfirst, hlast, heq⟩ | ⟨hfirst, hlast, heq⟩ |
    ⟨hfirst, hlast, heq⟩ | ⟨hfirst, hlast, heq⟩ <;> rw [heq]
  · exact .nil _
  · exact Ordered.cons_iff.mpr ⟨hlast, hbelow, by simp, .nil _⟩
  · exact Ordered.cons_iff.mpr ⟨by dsimp only; omega, by dsimp only; omega, by simp, .nil _⟩
  · refine Ordered.cons_iff.mpr ⟨by dsimp only; omega, by dsimp only; omega, ?_,
      Ordered.cons_iff.mpr ⟨hlast, hbelow, by simp, .nil _⟩⟩
    simp only [List.mem_singleton, forall_eq]
    omega

theorem without_carved (gap : Gap) (hid : gap.contains id = true) :
    Carved [gap] (gap.without id) := by
  intro piece hpiece
  rw [contains_iff] at hid
  refine ⟨gap, by simp, ?_⟩
  rcases gap.without_cases (by rwa [contains_iff]) with ⟨hfirst, hlast, heq⟩ |
    ⟨hfirst, hlast, heq⟩ | ⟨hfirst, hlast, heq⟩ | ⟨hfirst, hlast, heq⟩ <;> rw [heq] at hpiece <;>
    grind

end Gap

theorem Carved.refl (gaps : List Gap) : Carved gaps gaps :=
  fun gap hgap => ⟨gap, hgap, le_rfl, le_rfl⟩

theorem Carved.append {front front' back back' : List Gap} (hfront : Carved front front')
    (hback : Carved back back') : Carved (front ++ back) (front' ++ back') := by
  intro piece hpiece
  rcases List.mem_append.mp hpiece with h | h
  · obtain ⟨gap, hgap, hwithin⟩ := hfront piece h
    exact ⟨gap, List.mem_append_left _ hgap, hwithin⟩
  · obtain ⟨gap, hgap, hwithin⟩ := hback piece h
    exact ⟨gap, List.mem_append_right _ hgap, hwithin⟩

theorem Ordered.append {front back : List Gap} {frontier : Nat} (hfront : Ordered front frontier)
    (hback : Ordered back frontier)
    (hapart : ∀ first ∈ front, ∀ second ∈ back, first.last < second.first) :
    Ordered (front ++ back) frontier where
  nonempty := fun gap hgap => (List.mem_append.mp hgap).elim (hfront.nonempty gap)
    (hback.nonempty gap)
  below := fun gap hgap => (List.mem_append.mp hgap).elim (hfront.below gap) (hback.below gap)
  apart := List.pairwise_append.mpr ⟨hfront.apart, hback.apart, hapart⟩

theorem removeFrom_carved (id : Nat) (gaps : List Gap) : Carved gaps (removeFrom id gaps).2 := by
  induction gaps with
  | nil => exact .refl []
  | cons gap rest ih =>
    unfold removeFrom
    split
    · rename_i hid
      exact Carved.append (gap.without_carved hid) (.refl rest)
    · exact Carved.append (.refl [gap]) ih

theorem removeFrom_spec (id : Nat) {gaps : List Gap} {frontier : Nat}
    (h : Ordered gaps frontier) :
    (removeFrom id gaps).1.map Gap.pending = pendingOf gaps id ∧
      Ordered (removeFrom id gaps).2 frontier ∧
      ∀ other, pendingOf (removeFrom id gaps).2 other =
        if other = id then none else pendingOf gaps other := by
  induction gaps with
  | nil => exact ⟨rfl, h, by simp [removeFrom]⟩
  | cons gap rest ih =>
    obtain ⟨hnonempty, hbelow, hapart, hrest⟩ := Ordered.cons_iff.mp h
    unfold removeFrom
    split
    · rename_i hid
      refine ⟨?_, ?_, fun other => ?_⟩
      · rw [pendingOf_cons, if_pos hid]
        rfl
      · refine (gap.without_ordered hid hbelow).append hrest fun first hfirst second hsecond => ?_
        obtain ⟨whole, hwhole, -, hlast⟩ := gap.without_carved hid first hfirst
        rw [List.mem_singleton] at hwhole
        subst hwhole
        exact hlast.trans_lt (hapart second hsecond)
      · dsimp only
        rw [pendingOf_append, gap.without_pending hid, pendingOf_cons]
        by_cases hother : other = id
        · subst hother
          rw [if_neg (by simp), if_pos rfl]
          exact h.rest_before ((gap.contains_iff other).mp hid).2
        · rw [if_neg hother]
          by_cases hin : gap.contains other = true
          · simp [hother, hin]
          · simp [hin]
    · rename_i hid
      obtain ⟨hremoved, hordered, hmap⟩ := ih hrest
      refine ⟨?_, h.cons_carved (removeFrom_carved id rest) hordered, fun other => ?_⟩
      · rw [pendingOf_cons, if_neg hid]
        exact hremoved
      · dsimp only
        rw [pendingOf_cons, pendingOf_cons, hmap]
        by_cases hother : other = id
        · subst hother
          simp [hid]
        · simp [hother]

/-! ### Nothing from an id on is missing -/

/-- The gaps once a trailer of id `id` came. -/
def cutAt (id : Nat) (gaps : List Gap) : List Gap :=
  trimLast id (gaps.filter fun gap => decide (gap.first < id))

theorem cutAt_nil_of_le {gaps : List Gap} (h : ∀ gap ∈ gaps, id ≤ gap.first) :
    cutAt id gaps = [] := by
  have hnone : (gaps.filter fun gap => decide (gap.first < id)) = [] := by
    rw [List.filter_eq_nil_iff]
    intro gap hgap
    have := h gap hgap
    simpa using this
  rw [cutAt, hnone]
  rfl

theorem cutAt_cons {gap : Gap} {rest : List Gap} {frontier : Nat}
    (h : Ordered (gap :: rest) frontier) (hid : gap.first < id) :
    cutAt id (gap :: rest) = { gap with last := min gap.last (id - 1) } :: cutAt id rest := by
  obtain ⟨-, -, hapart, -⟩ := Ordered.cons_iff.mp h
  unfold cutAt
  rw [List.filter_cons_of_pos (by simpa using hid)]
  cases hrest : rest.filter fun gap => decide (gap.first < id) with
  | nil => rfl
  | cons next more =>
    have hnext : next ∈ rest.filter fun gap => decide (gap.first < id) := by simp [hrest]
    rw [List.mem_filter, decide_eq_true_eq] at hnext
    have := hapart next hnext.1
    simp only [trimLast]
    rw [min_eq_left (by omega)]

theorem cutAt_carved {gaps : List Gap} {frontier : Nat} (h : Ordered gaps frontier) :
    Carved gaps (cutAt id gaps) := by
  induction gaps with
  | nil => exact .refl []
  | cons gap rest ih =>
    obtain ⟨hnonempty, hbelow, hapart, hrest⟩ := Ordered.cons_iff.mp h
    by_cases hid : gap.first < id
    · rw [cutAt_cons h hid]
      refine @Carved.append [gap] [_] _ _ (fun piece hpiece => ?_) (ih hrest)
      rw [List.mem_singleton] at hpiece
      subst hpiece
      exact ⟨gap, by simp, le_rfl, min_le_left _ _⟩
    · rw [cutAt_nil_of_le]
      · exact nofun
      · intro other hother
        rcases List.mem_cons.mp hother with rfl | hother
        · omega
        · have := hapart other hother
          omega

theorem cutAt_spec (id : Nat) {gaps : List Gap} {frontier : Nat} (h : Ordered gaps frontier) :
    Ordered (cutAt id gaps) frontier ∧ (∀ gap ∈ cutAt id gaps, gap.last < id) ∧
      ∀ other, pendingOf (cutAt id gaps) other =
        if other < id then pendingOf gaps other else none := by
  induction gaps with
  | nil => exact ⟨h, nofun, fun other => by split <;> rfl⟩
  | cons gap rest ih =>
    obtain ⟨hnonempty, hbelow, hapart, hrest⟩ := Ordered.cons_iff.mp h
    obtain ⟨hordered, hbefore, hmap⟩ := ih hrest
    by_cases hid : gap.first < id
    · rw [cutAt_cons h hid]
      refine ⟨Ordered.cons_iff.mpr ⟨?_, ?_, ?_, hordered⟩, ?_, fun other => ?_⟩
      · dsimp only
        omega
      · exact (min_le_left _ _).trans_lt hbelow
      · intro piece hpiece
        obtain ⟨whole, hwhole, hfirst, -⟩ := cutAt_carved hrest piece hpiece
        exact (min_le_left _ _).trans_lt ((hapart whole hwhole).trans_le hfirst)
      · exact List.forall_mem_cons.mpr ⟨by dsimp only; omega, hbefore⟩
      · rw [pendingOf_cons, pendingOf_cons, hmap]
        simp only [Gap.contains_iff]
        grind [Gap.pending]
    · have hlate : ∀ other ∈ gap :: rest, id ≤ other.first := by
        intro other hother
        rcases List.mem_cons.mp hother with rfl | hother
        · omega
        · have := hapart other hother
          omega
      rw [cutAt_nil_of_le hlate]
      refine ⟨.nil _, nofun, fun other => ?_⟩
      split
      · rename_i hother
        exact (Ordered.pendingOf_before fun gap hgap => hother.trans_le (hlate gap hgap)).symm
      · rfl

/-! ### Every id up to one is no longer missing -/

theorem closeThrough_carved (id : Nat) (gaps : List Gap) : Carved gaps (closeThrough id gaps).2 := by
  induction gaps with
  | nil => exact .refl []
  | cons gap rest ih =>
    unfold closeThrough
    dsimp only
    split
    · exact Carved.append (.refl [gap]) ih
    · rename_i hfirst
      split
      · intro piece hpiece
        obtain ⟨whole, hwhole, hwithin⟩ := ih piece hpiece
        exact ⟨whole, List.mem_cons_of_mem _ hwhole, hwithin⟩
      · refine @Carved.append [gap] [_] _ _ (fun piece hpiece => ?_) ih
        rw [List.mem_singleton] at hpiece
        subst hpiece
        exact ⟨gap, by simp, by dsimp only; omega, le_rfl⟩

theorem closeThrough_spec (id : Nat) {gaps : List Gap} {frontier : Nat}
    (h : Ordered gaps frontier) :
    Ordered (closeThrough id gaps).2 frontier ∧
      ∀ other, pendingOf (closeThrough id gaps).2 other =
        if other ≤ id then none else pendingOf gaps other := by
  induction gaps with
  | nil => exact ⟨h, fun other => by split <;> rfl⟩
  | cons gap rest ih =>
    obtain ⟨hnonempty, hbelow, hapart, hrest⟩ := Ordered.cons_iff.mp h
    obtain ⟨hordered, hmap⟩ := ih hrest
    have hbefore : ∀ other, other ≤ gap.last → pendingOf rest other = none :=
      fun other hother => h.rest_before hother
    unfold closeThrough
    dsimp only
    split
    · rename_i hlate
      refine ⟨h.cons_carved (closeThrough_carved id rest) hordered, fun other => ?_⟩
      rw [pendingOf_cons, pendingOf_cons, hmap]
      simp only [Gap.contains_iff]
      grind
    · rename_i hearly
      split
      · refine ⟨hordered, fun other => ?_⟩
        rw [pendingOf_cons, hmap]
        simp only [Gap.contains_iff]
        grind
      · rename_i hlast
        refine ⟨Ordered.cons_iff.mpr ⟨by dsimp only; omega, hbelow, fun piece hpiece => ?_,
          hordered⟩, fun other => ?_⟩
        · obtain ⟨whole, hwhole, hfirst, -⟩ := closeThrough_carved id rest piece hpiece
          exact (hapart whole hwhole).trans_le hfirst
        · rw [pendingOf_cons, pendingOf_cons, hmap]
          simp only [Gap.contains_iff]
          grind [Gap.pending]

def missingIds (gaps : List Gap) : List Nat := gaps.flatMap Gap.ids

theorem mem_missingIds {gaps : List Gap} {frontier : Nat} (h : Ordered gaps frontier) (id : Nat) :
    id ∈ missingIds gaps ↔ (pendingOf gaps id).isSome = true := by
  induction gaps with
  | nil => simp [missingIds]
  | cons gap rest ih =>
    obtain ⟨hnonempty, -, -, hrest⟩ := Ordered.cons_iff.mp h
    rw [missingIds, List.flatMap_cons, List.mem_append, Gap.mem_ids hnonempty, pendingOf_cons]
    split
    · rename_i hid
      simp [hid]
    · rename_i hid
      simp only [hid, false_or, Bool.false_eq_true]
      exact ih hrest

theorem missingIds_nodup {gaps : List Gap} {frontier : Nat} (h : Ordered gaps frontier) :
    (missingIds gaps).Nodup := by
  induction gaps with
  | nil => exact List.nodup_nil
  | cons gap rest ih =>
    obtain ⟨hnonempty, -, -, hrest⟩ := Ordered.cons_iff.mp h
    rw [missingIds, List.flatMap_cons]
    refine List.Nodup.append List.nodup_range' (ih hrest) fun id hid hid' => ?_
    have hpending := (mem_missingIds hrest id).mp hid'
    rw [h.rest_before] at hpending
    · cases hpending
    · exact ((gap.contains_iff id).mp ((Gap.mem_ids hnonempty id).mp hid)).2

theorem length_range'_filter_le (first count bound : Nat) :
    ((List.range' first count).filter fun i => decide (i ≤ bound)).length =
      min count (bound + 1 - first) := by
  induction count generalizing first with
  | zero => simp
  | succ count ih =>
    rw [List.range'_succ, List.filter_cons]
    split
    · rename_i hle
      simp only [decide_eq_true_eq] at hle
      rw [List.length_cons, ih]
      omega
    · rename_i hgt
      simp only [decide_eq_true_eq] at hgt
      rw [ih]
      omega

theorem closeThrough_count (id : Nat) {gaps : List Gap} {frontier : Nat}
    (h : Ordered gaps frontier) (asked : Nat → Bool)
    (hasked : ∀ gap ∈ gaps, ∀ i, gap.contains i = true → (asked i = true ↔ 0 < gap.requests)) :
    (closeThrough id gaps).1 =
      ((missingIds gaps).filter fun i => decide (i ≤ id) && asked i).length := by
  induction gaps with
  | nil => rfl
  | cons gap rest ih =>
    obtain ⟨hnonempty, -, -, hrest⟩ := Ordered.cons_iff.mp h
    have hrestCount := ih hrest fun other hother => hasked other (List.mem_cons_of_mem _ hother)
    have hown : (gap.ids.filter fun i => decide (i ≤ id) && asked i).length =
        if 0 < gap.requests then min gap.len (id + 1 - gap.first) else 0 := by
      have hsame : ∀ i ∈ gap.ids, asked i = decide (0 < gap.requests) := fun i hi => by
        rw [Bool.eq_iff_iff, decide_eq_true_eq]
        exact hasked gap (by simp) i ((Gap.mem_ids hnonempty i).mp hi)
      split
      · rename_i hpos
        rw [← length_range'_filter_le]
        refine congrArg List.length (List.filter_congr fun i hi => ?_)
        rw [hsame i hi, decide_eq_true hpos, Bool.and_true]
      · rename_i hzero
        rw [List.length_eq_zero_iff, List.filter_eq_nil_iff]
        intro i hi
        rw [hsame i hi, decide_eq_false hzero, Bool.and_false]
        exact Bool.false_ne_true
    have hclosed : (closeThrough id (gap :: rest)).1 =
        if gap.first > id then (closeThrough id rest).1
        else if gap.requests > 0 then
          min gap.last id - gap.first + 1 + (closeThrough id rest).1
        else (closeThrough id rest).1 := by
      rw [closeThrough]
      dsimp only
      split
      · rfl
      · split <;> rfl
    rw [missingIds, List.flatMap_cons, List.filter_append, List.length_append, hown,
      ← missingIds, ← hrestCount, hclosed, Gap.len]
    split_ifs <;> omega

def namedIds (requests : List ResendRequest) : List Nat :=
  requests.flatMap fun request =>
    List.range' request.first (request.last - request.first + 1)

/-- What is remembered of a packet once it was asked for at `now`. -/
def Pending.again (pending : Pending) (config : ResendConfig) (now : Instant) : Pending where
  requests := pending.requests + 1
  due :=
    if pending.requests + 1 < config.maxRequests then some (now + config.retryInterval) else none

theorem dueGaps_carved (now : Instant) (config : ResendConfig) (budget : Nat)
    (block : Nat × Bool) (gaps : List Gap) (asked : Nat) :
    Carved gaps (dueGaps now config budget block gaps asked).gaps := by
  induction gaps generalizing asked with
  | nil => exact .refl []
  | cons gap rest ih =>
    unfold dueGaps
    split
    · exact Carved.append (.refl [gap]) (ih asked)
    · split
      · exact .refl _
      · refine @Carved.append [gap] [_] _ _ (fun piece hpiece => ?_) (ih _)
        rw [List.mem_singleton] at hpiece
        subst hpiece
        exact ⟨gap, by simp, le_rfl, le_rfl⟩

/-- A pass asks for packets that are due and changes nothing of the others. It
asks for no more than the budget allows, and counts as newly requested those
not asked for before. -/
structure DuePass.Spec (now : Instant) (config : ResendConfig) (budget : Nat) (gaps : List Gap)
    (asked : Nat) (pass : DuePass) : Prop where
  map : ∀ id, pendingOf pass.gaps id =
    if id ∈ namedIds pass.requests then (pendingOf gaps id).map (·.again config now)
    else pendingOf gaps id
  due : ∀ id ∈ namedIds pass.requests, ∃ pending, pendingOf gaps id = some pending ∧
    ∃ due ∈ pending.due, due ≤ now
  nodup : (namedIds pass.requests).Nodup
  asked_eq : pass.asked = asked + (namedIds pass.requests).length
  asked_le : namedIds pass.requests ≠ [] → pass.asked ≤ budget
  newly_eq : pass.done.newlyRequested = ((namedIds pass.requests).filter fun id =>
    decide ((pendingOf gaps id).map (·.requests) = some 0)).length

theorem dueGaps_spec (now : Instant) (config : ResendConfig) (budget : Nat) (block : Nat × Bool)
    {gaps : List Gap} {frontier : Nat} (h : Ordered gaps frontier) (asked : Nat) :
    Ordered (dueGaps now config budget block gaps asked).gaps frontier ∧
      (dueGaps now config budget block gaps asked).Spec now config budget gaps asked := by
  induction gaps generalizing asked with
  | nil =>
    refine ⟨h, ?_⟩
    constructor <;> simp [dueGaps, namedIds]
  | cons gap rest ih =>
    obtain ⟨hnonempty, hbelow, -, hrest⟩ := Ordered.cons_iff.mp h
    have hother : ∀ {asked id}, gap.contains id = true →
        id ∉ namedIds (dueGaps now config budget block rest asked).requests := by
      intro asked id hid hnamed
      obtain ⟨pending, hpending, -⟩ := (ih hrest asked).2.due id hnamed
      rw [h.rest_before ((gap.contains_iff id).mp hid).2] at hpending
      cases hpending
    have hrestMap : ∀ {asked id}, id ∈ namedIds (dueGaps now config budget block rest
        asked).requests → pendingOf (gap :: rest) id = pendingOf rest id := by
      intro asked id hnamed
      rw [pendingOf_cons, if_neg fun hid => hother hid hnamed]
    unfold dueGaps
    split
    · obtain ⟨hordered, hspec⟩ := ih hrest asked
      refine ⟨h.cons_carved (dueGaps_carved _ _ _ _ _ _) hordered, ?_⟩
      exact
        { map := by
            intro id
            rw [pendingOf_cons, hspec.map]
            by_cases hid : gap.contains id = true
            · rw [if_pos hid, if_neg (hother hid), pendingOf_cons, if_pos hid]
            · rw [if_neg hid, pendingOf_cons, if_neg hid]
          due := fun id hid => by
            rw [hrestMap hid]
            exact hspec.due id hid
          nodup := hspec.nodup
          asked_eq := hspec.asked_eq
          asked_le := hspec.asked_le
          newly_eq := by
            refine hspec.newly_eq.trans (congrArg List.length (List.filter_congr fun id hid => ?_))
            rw [hrestMap hid] }
    · rename_i hdue
      split
      · refine ⟨h, ?_⟩
        constructor <;> simp [namedIds]
      · rename_i hbudget
        obtain ⟨hordered, hspec⟩ := ih hrest (asked + gap.len)
        have hown : ∀ id, id ∈ gap.ids ↔ gap.contains id = true := Gap.mem_ids hnonempty
        have hgapDue : ∃ due ∈ gap.due, due ≤ now := by
          simpa [Option.any_eq_true] using hdue
        have hother := @hother (asked + gap.len)
        have hrestMap := @hrestMap (asked + gap.len)
        dsimp only
        refine ⟨(h.cons_carved (dueGaps_carved _ _ _ _ _ _) hordered).retimed _ _, ?_⟩
        generalize dueGaps now config budget block rest (asked + gap.len) = pass at *
        have hnamed : namedIds
            ({ blockId := block.1, first := gap.first, last := gap.last, extendedIds := block.2 } ::
              pass.requests) = gap.ids ++ namedIds pass.requests := List.flatMap_cons
        have hlength : gap.ids.length = gap.len := List.length_range'
        constructor
        · intro id
          dsimp only
          simp only [hnamed, List.mem_append, hown, pendingOf_cons, hspec.map]
          by_cases hid : gap.contains id = true
          · have hmem : gap.contains id = true ∨ id ∈ namedIds pass.requests := .inl hid
            rw [if_pos (by simpa [Gap.contains] using hid), if_pos hmem, if_pos hid]
            rfl
          · rw [if_neg (by simpa [Gap.contains] using hid), if_neg hid]
            simp only [hid, Bool.false_eq_true, false_or]
        · intro id hid
          dsimp only at hid
          rw [hnamed, List.mem_append, hown] at hid
          rcases hid with hid | hid
          · exact ⟨gap.pending, by rw [pendingOf_cons, if_pos hid], hgapDue⟩
          · rw [hrestMap hid]
            exact hspec.due id hid
        · dsimp only
          rw [hnamed]
          refine List.Nodup.append List.nodup_range' hspec.nodup fun id hid hid' => ?_
          exact hother ((hown id).mp hid) hid'
        · dsimp only
          rw [hnamed, List.length_append, hlength, hspec.asked_eq, Nat.add_assoc]
        · intro _
          dsimp only
          by_cases hmore : namedIds pass.requests = []
          · rw [hspec.asked_eq, hmore]
            simpa using hbudget
          · exact hspec.asked_le hmore
        · dsimp only
          rw [hnamed, List.filter_append, List.length_append, hspec.newly_eq]
          congr 1
          · have hsame : ∀ id ∈ gap.ids, (pendingOf (gap :: rest) id).map (·.requests) =
                some gap.requests := fun id hid => by
              rw [pendingOf_cons, if_pos ((hown id).mp hid)]
              rfl
            split
            · rename_i hzero
              rw [List.filter_eq_self.mpr, hlength]
              exact fun id hid => by rw [hsame id hid, hzero]; rfl
            · rename_i hpos
              rw [eq_comm, List.length_eq_zero_iff, List.filter_eq_nil_iff]
              exact fun id hid => by simpa [hsame id hid] using hpos
          · refine congrArg List.length (List.filter_congr fun id hid => ?_)
            rw [hrestMap hid]

end VivaGenicam.Stream
