import VivaGenicam.Genapi.StronglyConnected

/-!
The order a restore writes its features in: the components of the dependency graph, each
once all that it depends on is written, and of those that are ready the one whose first
member comes first in the document.
-/

namespace VivaGenicam.Genapi

def componentOf (components : List (List Nat)) : Nat → Nat :=
  components.zipIdx.foldl (fun table entry =>
    entry.1.foldl (fun table v => Function.update table v entry.2) table) fun _ => 0

/-- The edges between components, each once in ascending order, and how many lead into each. -/
structure Condensation where
  indegree : Nat → Nat
  successors : Nat → List Nat

namespace Condensation

def link (condensation : Condensation) (source target : Nat) : Condensation :=
  if source ≠ target ∧ target ∉ condensation.successors source then
    { indegree := Function.update condensation.indegree target (condensation.indegree target + 1)
      successors := Function.update condensation.successors source
        ((condensation.successors source).orderedInsert (· ≤ ·) target) }
  else condensation

end Condensation

def condense (graph : Successors) (table : Nat → Nat) : Condensation :=
  (List.range graph.count).foldl (fun condensation p =>
    (graph.of p).foldl (fun condensation f => condensation.link (table p) (table f)) condensation)
    ⟨fun _ => 0, fun _ => []⟩

/-- The order of the heap, whose least entry is taken first. -/
def Precedes (left right : Nat × Nat) : Prop :=
  left.1 < right.1 ∨ left.1 = right.1 ∧ left.2 ≤ right.2

instance : DecidableRel Precedes := fun _ _ => inferInstanceAs (Decidable (_ ∨ _ ∧ _))

/-- The heap of ready components, in the order they are taken, and what is written so far. -/
structure Emission where
  ready : List (Nat × Nat)
  indegree : Nat → Nat
  order : List Nat

section Order

variable (components : List (List Nat))

def members (c : Nat) : List Nat := components.getD c []

def first (c : Nat) : Nat := (members components c).headD 0

namespace Emission

def release (emission : Emission) (next : Nat) : Emission :=
  let left := emission.indegree next - 1
  { emission with
    indegree := Function.update emission.indegree next left
    ready := if left = 0 then
        emission.ready.orderedInsert Precedes (first components next, next)
      else emission.ready }

def step (successors : Nat → List Nat) (emission : Emission) : Emission :=
  match emission.ready with
  | [] => emission
  | (_, c) :: rest =>
    (successors c).foldl (release components)
      { emission with ready := rest, order := emission.order ++ members components c }

/-- The loop: one component a turn, until none is ready. -/
def emit (successors : Nat → List Nat) : Nat → Emission → Emission
  | 0, emission => emission
  | fuel + 1, emission =>
    if emission.ready = [] then emission
    else emit successors fuel (emission.step components successors)

end Emission

/-- The components nothing leads into, in a heap. -/
def initialReady (indegree : Nat → Nat) : List (Nat × Nat) :=
  ((List.range components.length).filter fun c => indegree c = 0).foldr
    (fun c heap => heap.orderedInsert Precedes (first components c, c)) []

def emission (graph : Successors) : Emission :=
  let condensation := condense graph (componentOf components)
  Emission.emit components condensation.successors components.length
    ⟨initialReady components condensation.indegree, condensation.indegree, []⟩

end Order

def restoreOrder (graph : Successors) : List Nat :=
  (emission (stronglyConnected graph) graph).order

theorem foldl_update {members : List Nat} (table : Nat → Nat) (c v : Nat) :
    members.foldl (fun table v => Function.update table v c) table v =
      if v ∈ members then c else table v := by
  induction members generalizing table with
  | nil => simp
  | cons w members ih =>
    rw [List.foldl_cons, ih]
    by_cases hmem : v ∈ members
    · simp [hmem]
    · by_cases hv : v = w
      · simp [hv]
      · simp [hmem, hv]

variable {c v : Nat}

theorem foldl_componentOf {entries : List (List Nat × Nat)} {table : Nat → Nat}
    (honly : ∀ entry ∈ entries, v ∈ entry.1 → entry.2 = c)
    (h : (∃ entry ∈ entries, v ∈ entry.1) ∨ table v = c) :
    entries.foldl (fun table entry =>
      entry.1.foldl (fun table v => Function.update table v entry.2) table) table v = c := by
  induction entries generalizing table with
  | nil =>
    rcases h with ⟨entry, hentry, -⟩ | h
    · cases hentry
    · exact h
  | cons entry rest ih =>
    rw [List.foldl_cons]
    refine ih (fun later hlater => honly later (List.mem_cons_of_mem _ hlater)) ?_
    rw [foldl_update]
    by_cases hv : v ∈ entry.1
    · rw [if_pos hv]
      exact Or.inr (honly entry (List.mem_cons_self ..) hv)
    · rw [if_neg hv]
      rcases h with ⟨found, hfound, hmem⟩ | h
      · rcases List.mem_cons.mp hfound with rfl | hfound
        · exact absurd hmem hv
        · exact Or.inl ⟨found, hfound, hmem⟩
      · exact Or.inr h

variable {d : Nat}

section Table

variable {components : List (List Nat)}

theorem mem_members :
    v ∈ members components c ↔ ∃ block, components[c]? = some block ∧ v ∈ block := by
  unfold members
  rw [List.getD_eq_getElem?_getD]
  cases components[c]? with
  | none => simp
  | some block => simp

theorem lt_of_mem_members (h : v ∈ members components c) : c < components.length := by
  obtain ⟨block, hblock, -⟩ := mem_members.mp h
  exact (List.getElem?_eq_some_iff.mp hblock).1

theorem members_unique (hnodup : components.flatten.Nodup)
    (hc : v ∈ members components c) (hd : v ∈ members components d) : c = d := by
  obtain ⟨block, hblock, hv⟩ := mem_members.mp hc
  obtain ⟨other, hother, hv'⟩ := mem_members.mp hd
  obtain ⟨hclt, rfl⟩ := List.getElem?_eq_some_iff.mp hblock
  obtain ⟨hdlt, rfl⟩ := List.getElem?_eq_some_iff.mp hother
  have hdisjoint := List.pairwise_iff_getElem.mp (List.nodup_flatten.mp hnodup).2
  rcases Nat.lt_trichotomy c d with hlt | heq | hlt
  · exact absurd hv' (List.disjoint_left.mp (hdisjoint c d hclt hdlt hlt) hv)
  · exact heq
  · exact absurd hv (List.disjoint_left.mp (hdisjoint d c hdlt hclt hlt) hv')

theorem componentOf_eq (hnodup : components.flatten.Nodup)
    (h : v ∈ members components c) : componentOf components v = c := by
  unfold componentOf
  refine foldl_componentOf ?_ ?_
  · rintro ⟨block, d⟩ hentry hv
    refine members_unique hnodup (mem_members.mpr ⟨block, ?_, hv⟩) h
    exact List.mem_zipIdx_iff_getElem?.mp hentry
  · obtain ⟨block, hblock, hv⟩ := mem_members.mp h
    exact Or.inl ⟨(block, c), List.mem_zipIdx_iff_getElem?.mpr hblock, hv⟩

end Table

/-- The condensation of the edges between components met so far. -/
structure Condensation.Linked (count : Nat) (edges : List (Nat × Nat))
    (condensation : Condensation) : Prop where
  mem : ∀ source target, target ∈ condensation.successors source ↔
    source ≠ target ∧ (source, target) ∈ edges
  nodup : ∀ source, (condensation.successors source).Nodup
  indegree : ∀ target, condensation.indegree target =
    ((Finset.range count).filter fun source => target ∈ condensation.successors source).card

variable {count : Nat}

theorem Condensation.Linked.link {edges : List (Nat × Nat)}
    {condensation : Condensation} (h : condensation.Linked count edges) {source : Nat}
    (hsource : source < count) (target : Nat) :
    (condensation.link source target).Linked count (edges ++ [(source, target)]) := by
  unfold Condensation.link
  split
  · rename_i hnew
    obtain ⟨hne, hnew⟩ := hnew
    have hmem : ∀ left right, right ∈ Function.update condensation.successors source
        ((condensation.successors source).orderedInsert (· ≤ ·) target) left ↔
          right ∈ condensation.successors left ∨ left = source ∧ right = target := by
      intro left right
      by_cases hleft : left = source
      · rw [hleft, Function.update_self, List.mem_orderedInsert]
        tauto
      · rw [Function.update_of_ne hleft]
        tauto
    constructor
    · intro left right
      rw [hmem, h.mem, List.mem_append, List.mem_singleton, Prod.mk.injEq]
      constructor
      · rintro (⟨hdiffer, hedge⟩ | ⟨rfl, rfl⟩)
        · exact ⟨hdiffer, Or.inl hedge⟩
        · exact ⟨hne, Or.inr ⟨rfl, rfl⟩⟩
      · rintro ⟨hdiffer, hedge | hlast⟩
        · exact Or.inl ⟨hdiffer, hedge⟩
        · exact Or.inr hlast
    · intro left
      dsimp only
      by_cases hleft : left = source
      · rw [hleft, Function.update_self, (List.perm_orderedInsert (· ≤ ·) ..).nodup_iff]
        exact List.nodup_cons.mpr ⟨hnew, h.nodup source⟩
      · rw [Function.update_of_ne hleft]
        exact h.nodup left
    · intro right
      dsimp only
      by_cases hright : right = target
      · have hinsert : ((Finset.range count).filter fun left => right ∈ Function.update
            condensation.successors source
              ((condensation.successors source).orderedInsert (· ≤ ·) target) left) =
            insert source ((Finset.range count).filter fun left =>
              right ∈ condensation.successors left) := by
          ext left
          simp only [Finset.mem_filter, Finset.mem_insert, Finset.mem_range, hmem]
          constructor
          · rintro ⟨hlt, hold | ⟨rfl, -⟩⟩
            · exact Or.inr ⟨hlt, hold⟩
            · exact Or.inl rfl
          · rintro (rfl | ⟨hlt, hold⟩)
            · exact ⟨hsource, Or.inr ⟨rfl, hright⟩⟩
            · exact ⟨hlt, Or.inl hold⟩
        rw [hinsert, Finset.card_insert_of_notMem, hright, Function.update_self, h.indegree target]
        rw [Finset.mem_filter, hright]
        exact fun hold => hnew hold.2
      · rw [Function.update_of_ne hright, h.indegree right]
        congr 1
        ext left
        simp only [Finset.mem_filter, hmem, hright, and_false, or_false]
  · rename_i hold
    refine ⟨fun left right => ?_, h.nodup, h.indegree⟩
    rw [h.mem, List.mem_append, List.mem_singleton, Prod.mk.injEq]
    constructor
    · exact fun hedge => ⟨hedge.1, Or.inl hedge.2⟩
    · rintro ⟨hdiffer, hedge | ⟨rfl, rfl⟩⟩
      · exact ⟨hdiffer, hedge⟩
      · refine ((h.mem left right).mp ?_)
        by_contra hnew
        exact hold ⟨hdiffer, hnew⟩

theorem Condensation.Linked.foldl {count : Nat} {edges : List (Nat × Nat)}
    {condensation : Condensation} (h : condensation.Linked count edges)
    {more : List (Nat × Nat)} (hinside : ∀ edge ∈ more, edge.1 < count) :
    (more.foldl (fun condensation edge => condensation.link edge.1 edge.2)
      condensation).Linked count (edges ++ more) := by
  induction more generalizing edges condensation with
  | nil => simpa using h
  | cons edge more ih =>
    have hnext := ih (h.link (hinside edge (List.mem_cons_self ..)) edge.2)
      fun later hlater => hinside later (List.mem_cons_of_mem _ hlater)
    rwa [List.append_assoc, List.singleton_append] at hnext

/-- The edges of the graph, as edges between components. -/
def Successors.linksOf (graph : Successors) (table : Nat → Nat) : List (Nat × Nat) :=
  (List.range graph.count).flatMap fun p => (graph.of p).map fun f => (table p, table f)

theorem condense_linked (graph : Successors) {table : Nat → Nat}
    (htable : ∀ p < graph.count, table p < count) :
    (condense graph table).Linked count (graph.linksOf table) := by
  have hempty : (⟨fun _ => 0, fun _ => []⟩ : Condensation).Linked count [] :=
    ⟨by simp, by simp, by simp⟩
  have hfold := @Condensation.Linked.foldl _ _ _ hempty (graph.linksOf table) (by
    intro edge hedge
    obtain ⟨p, hp, hmem⟩ := List.mem_flatMap.mp hedge
    obtain ⟨f, -, rfl⟩ := List.mem_map.mp hmem
    exact htable p (List.mem_range.mp hp))
  unfold Successors.linksOf at hfold ⊢
  rw [List.foldl_flatMap, List.nil_append] at hfold
  simp only [List.foldl_map] at hfold
  exact hfold

instance : Std.Total Precedes where
  total left right := by
    unfold Precedes
    omega

instance : IsTrans (Nat × Nat) Precedes where
  trans left middle right := by
    unfold Precedes
    omega

variable {front : List Nat}

section Loop

variable {components : List (List Nat)} {successors : Nat → List Nat}

theorem Emission.foldl_release (emission : Emission) {nexts : List Nat} (hnodup : nexts.Nodup)
    (hsorted : emission.ready.Pairwise Precedes) (hready : emission.ready.Nodup)
    (hnew : ∀ d ∈ nexts, ∀ x, (x, d) ∉ emission.ready) :
    let released := nexts.foldl (Emission.release components) emission
    released.order = emission.order ∧
      (∀ d, released.indegree d =
        if d ∈ nexts then emission.indegree d - 1 else emission.indegree d) ∧
      released.ready.Pairwise Precedes ∧ released.ready.Nodup ∧
      ∀ x d, (x, d) ∈ released.ready ↔ (x, d) ∈ emission.ready ∨
        d ∈ nexts ∧ emission.indegree d - 1 = 0 ∧ x = first components d := by
  induction nexts generalizing emission with
  | nil => exact ⟨rfl, by simp, hsorted, hready, by simp⟩
  | cons next nexts ih =>
    obtain ⟨hnext, hnodup⟩ := List.nodup_cons.mp hnodup
    have hmem : ∀ x d, (x, d) ∈ (emission.release components next).ready ↔
        (x, d) ∈ emission.ready ∨
          d = next ∧ emission.indegree next - 1 = 0 ∧ x = first components next := by
      intro x d
      unfold Emission.release
      dsimp only
      split
      · rename_i hzero
        rw [List.mem_orderedInsert, Prod.mk.injEq]
        tauto
      · rename_i hmore
        tauto
    have hstep : (emission.release components next).ready.Pairwise Precedes ∧
        (emission.release components next).ready.Nodup := by
      unfold Emission.release
      dsimp only
      split
      · refine ⟨hsorted.orderedInsert _ _, ?_⟩
        rw [(List.perm_orderedInsert Precedes ..).nodup_iff]
        exact List.nodup_cons.mpr ⟨hnew next (List.mem_cons_self ..) _, hready⟩
      · exact ⟨hsorted, hready⟩
    have hfresh : ∀ d ∈ nexts, ∀ x, (x, d) ∉ (emission.release components next).ready := by
      intro d hd x hin
      rcases (hmem x d).mp hin with hin | ⟨rfl, -⟩
      · exact hnew d (List.mem_cons_of_mem _ hd) x hin
      · exact hnext hd
    obtain ⟨horder, hindegree, hpairwise, hnodup', hall⟩ :=
      ih (emission.release components next) hnodup hstep.1 hstep.2 hfresh
    have hother : ∀ d, (emission.release components next).indegree d =
        if d = next then emission.indegree next - 1 else emission.indegree d := by
      intro d
      unfold Emission.release
      dsimp only
      rw [Function.update_apply]
    rw [List.foldl_cons]
    refine ⟨horder, fun d => ?_, hpairwise, hnodup', fun x d => ?_⟩
    · rw [hindegree, hother]
      by_cases hd : d = next
      · subst hd
        rw [if_neg hnext, if_pos rfl, if_pos (List.mem_cons_self ..)]
      · rw [if_neg hd]
        simp only [List.mem_cons, hd, false_or]
    · rw [hall, hmem, hother]
      by_cases hd : d = next
      · subst hd
        simp only [hnext, false_and, or_false, List.mem_cons_self, true_and]
      · simp only [hd, false_and, or_false, if_false, List.mem_cons, false_or]

/-- How many components that lead to `d` are still to be written. -/
def waiting (count : Nat) (successors : Nat → List Nat) (done : List Nat) (d : Nat) : Nat :=
  ((Finset.range count).filter fun c => d ∈ successors c ∧ c ∉ done).card

variable {done : List Nat}

theorem waiting_eq_zero :
    waiting count successors done d = 0 ↔ ∀ c < count, d ∈ successors c → c ∈ done := by
  unfold waiting
  rw [Finset.card_eq_zero, Finset.filter_eq_empty_iff]
  simp only [Finset.mem_range, not_and, not_not]

theorem waiting_append (hc : c < count) (hdone : c ∉ done)
    (d : Nat) : waiting count successors (done ++ [c]) d =
      if d ∈ successors c then waiting count successors done d - 1
      else waiting count successors done d := by
  unfold waiting
  split
  · rename_i hd
    rw [← Finset.card_erase_of_mem (Finset.mem_filter.mpr ⟨Finset.mem_range.mpr hc, hd, hdone⟩)]
    congr 1
    ext source
    simp only [Finset.mem_filter, Finset.mem_erase, Finset.mem_range, List.mem_append,
      List.mem_singleton]
    tauto
  · rename_i hd
    congr 1
    ext source
    simp only [Finset.mem_filter, Finset.mem_range, List.mem_append, List.mem_singleton]
    constructor
    · rintro ⟨hlt, hmem, hnot⟩
      exact ⟨hlt, hmem, fun hin => hnot (Or.inl hin)⟩
    · rintro ⟨hlt, hmem, hnot⟩
      refine ⟨hlt, hmem, ?_⟩
      rintro (hin | rfl)
      · exact hnot hin
      · exact hd hmem

/-- Each component is written once nothing leads to it any more, before the others of which
that is true. -/
def Chosen (components : List (List Nat)) (successors : Nat → List Nat) (done : List Nat) : Prop :=
  ∀ front c back, done = front ++ c :: back →
    waiting components.length successors front c = 0 ∧
      ∀ d < components.length, d ∉ front → waiting components.length successors front d = 0 →
        first components c ≤ first components d

/-- The loop after the components `done`. -/
structure Emission.Holds (components : List (List Nat)) (successors : Nat → List Nat)
    (emission : Emission) (done : List Nat) : Prop where
  order : emission.order = done.flatMap (members components)
  nodup : done.Nodup
  inside : ∀ c ∈ done, c < components.length
  indegree : ∀ d, emission.indegree d = waiting components.length successors done d
  sorted : emission.ready.Pairwise Precedes
  readyNodup : emission.ready.Nodup
  ready : ∀ x c, (x, c) ∈ emission.ready ↔ c < components.length ∧ c ∉ done ∧
    waiting components.length successors done c = 0 ∧ x = first components c
  chosen : Chosen components successors done

theorem Emission.Holds.pred_mem {emission : Emission}
    (h : emission.Holds components successors done) (hd : d ∈ done)
    (hc : c < components.length) (hedge : d ∈ successors c) : c ∈ done := by
  obtain ⟨front, back, rfl⟩ := List.append_of_mem hd
  have := waiting_eq_zero.mp (h.chosen front d back rfl).1 c hc hedge
  exact List.mem_append_left _ this

theorem append_singleton_cut {back : List Nat} (h : done ++ [c] = front ++ d :: back) :
    (front = done ∧ d = c ∧ back = []) ∨ ∃ rest, done = front ++ d :: rest := by
  rcases List.eq_nil_or_concat back with rfl | ⟨rest, last, rfl⟩
  · obtain ⟨rfl, heq⟩ := List.append_inj' h rfl
    exact Or.inl ⟨rfl, (List.cons.inj heq).1.symm, rfl⟩
  · refine Or.inr ⟨rest, ?_⟩
    rw [List.concat_eq_append, ← List.cons_append, ← List.append_assoc] at h
    exact (List.append_inj' h rfl).1

/-- The edges between components: within the list, each once, and no loops. -/
structure Acyclic (count : Nat) (successors : Nat → List Nat) (rank : Nat → Nat) : Prop where
  nodup : ∀ c, (successors c).Nodup
  inside : ∀ c, ∀ d ∈ successors c, d < count
  rank_lt : ∀ c, ∀ d ∈ successors c, rank c < rank d

variable {rank : Nat → Nat} (hacyclic : Acyclic components.length successors rank)

include hacyclic

theorem Emission.Holds.step {emission : Emission} {done : List Nat}
    (h : emission.Holds components successors done) (hready : emission.ready ≠ []) :
    ∃ c, (emission.step components successors).Holds components successors (done ++ [c]) := by
  obtain ⟨⟨x, c⟩, rest, hcons⟩ := List.exists_cons_of_ne_nil hready
  obtain ⟨hc, hnot, hzero, rfl⟩ := (h.ready x c).mp (hcons ▸ List.mem_cons_self ..)
  have hsorted := h.sorted
  have hnodup := h.readyNodup
  rw [hcons, List.pairwise_cons] at hsorted
  rw [hcons, List.nodup_cons] at hnodup
  have hrest : ∀ y d, (y, d) ∈ rest ↔ (d < components.length ∧ d ∉ done ∧
      waiting components.length successors done d = 0 ∧ y = first components d) ∧ d ≠ c := by
    intro y d
    rw [← h.ready, hcons, List.mem_cons, Prod.mk.injEq]
    constructor
    · intro hin
      refine ⟨Or.inr hin, ?_⟩
      rintro rfl
      obtain ⟨-, -, -, rfl⟩ := (h.ready y d).mp (hcons ▸ List.mem_cons_of_mem _ hin)
      exact hnodup.1 hin
    · rintro ⟨⟨-, rfl⟩ | hin, hne⟩
      · exact absurd rfl hne
      · exact hin
  have hfresh : ∀ d ∈ successors c, ∀ y, (y, d) ∉ rest := by
    intro d hd y hin
    exact hnot (waiting_eq_zero.mp ((hrest y d).mp hin).1.2.2.1 c hc hd)
  obtain ⟨horder, hindegree, hsorted', hnodup', hmem⟩ := @Emission.foldl_release components
    { emission with ready := rest, order := emission.order ++ members components c }
    (successors c) (hacyclic.nodup c) hsorted.2 hnodup.2 hfresh
  refine ⟨c, ?_⟩
  unfold Emission.step
  rw [hcons]
  dsimp only at horder hindegree hmem ⊢
  constructor
  · rw [horder, h.order, List.flatMap_append, List.flatMap_singleton]
  · rw [List.nodup_append]
    refine ⟨h.nodup, List.nodup_singleton c, ?_⟩
    rintro d hd e he rfl
    rw [List.mem_singleton.mp he] at hd
    exact hnot hd
  · intro d hd
    rcases List.mem_append.mp hd with hd | hd
    · exact h.inside d hd
    · exact List.mem_singleton.mp hd ▸ hc
  · intro d
    rw [hindegree, waiting_append hc hnot, h.indegree]
  · exact hsorted'
  · exact hnodup'
  · intro y d
    rw [hmem, hrest, waiting_append hc hnot, h.indegree, List.mem_append, List.mem_singleton]
    constructor
    · rintro (⟨⟨hd, hout, hwait, rfl⟩, hne⟩ | ⟨hd, hwait, rfl⟩)
      · have : d ∉ successors c := fun hedge => hnot (waiting_eq_zero.mp hwait c hc hedge)
        rw [if_neg this]
        exact ⟨hd, by tauto, hwait, rfl⟩
      · rw [if_pos hd]
        refine ⟨hacyclic.inside c d hd, ?_, hwait, rfl⟩
        rintro (hin | rfl)
        · exact hnot (h.pred_mem hin hc hd)
        · exact Nat.lt_irrefl _ (hacyclic.rank_lt d d hd)
    · rintro ⟨hd, hout, hwait, rfl⟩
      rw [not_or] at hout
      by_cases hedge : d ∈ successors c
      · rw [if_pos hedge] at hwait
        exact Or.inr ⟨hedge, hwait, rfl⟩
      · rw [if_neg hedge] at hwait
        exact Or.inl ⟨⟨hd, hout.1, hwait, rfl⟩, hout.2⟩
  · intro front d back hcut
    rcases append_singleton_cut hcut with ⟨rfl, rfl, -⟩ | ⟨later, hdone⟩
    · refine ⟨hzero, fun e he hout hwait => ?_⟩
      by_cases hsame : e = d
      · rw [hsame]
      · have hin := (hrest (first components e) e).mpr ⟨⟨he, hout, hwait, rfl⟩, hsame⟩
        rcases hsorted.1 _ hin with hlt | ⟨heq, -⟩
        · exact hlt.le
        · exact heq.le
    · exact h.chosen front d later hdone

theorem Emission.Holds.complete {emission : Emission}
    (h : emission.Holds components successors done) (hready : emission.ready = []) :
    ∀ c < components.length, c ∈ done := by
  -- Of two unwritten components where one leads to the other, the first has the lower rank.
  have hrank : ∀ k c, rank c = k → c < components.length → c ∈ done := by
    intro k
    induction k using Nat.strong_induction_on with
    | _ k ih =>
      intro c hk hc
      by_contra hnot
      have hwait : waiting components.length successors done c ≠ 0 := by
        intro hzero
        have := (h.ready (first components c) c).mpr ⟨hc, hnot, hzero, rfl⟩
        rw [hready] at this
        cases this
      refine hwait (waiting_eq_zero.mpr fun d hd hedge => ?_)
      exact ih (rank d) (hk ▸ hacyclic.rank_lt d c hedge) d rfl hd
  exact fun c hc => hrank (rank c) c rfl hc

theorem Emission.Holds.emit {emission : Emission} {fuel : Nat}
    (h : emission.Holds components successors done)
    (hfuel : components.length ≤ done.length + fuel) :
    ∃ all, (emission.emit components successors fuel).ready = [] ∧
      (emission.emit components successors fuel).Holds components successors all ∧
      ∀ c < components.length, c ∈ all := by
  induction fuel generalizing emission done with
  | zero =>
    have hall : ∀ c < components.length, c ∈ done := by
      intro c hc
      have hsubset : done ⊆ List.range components.length :=
        fun d hd => List.mem_range.mpr (h.inside d hd)
      have hperm := (List.subperm_of_subset h.nodup hsubset).perm_of_length_le
        (by rw [List.length_range]; exact hfuel)
      exact hperm.mem_iff.mpr (List.mem_range.mpr hc)
    refine ⟨done, ?_, h, hall⟩
    refine List.eq_nil_iff_forall_not_mem.mpr ?_
    rintro ⟨x, c⟩ hin
    obtain ⟨hc, hnot, -⟩ := (h.ready x c).mp hin
    exact hnot (hall c hc)
  | succ fuel ih =>
    unfold Emission.emit
    split
    · rename_i hready
      exact ⟨done, hready, h, h.complete hacyclic hready⟩
    · rename_i hready
      obtain ⟨c, hstep⟩ := h.step hacyclic hready
      exact ih hstep (by simp only [List.length_append, List.length_singleton]; omega)

end Loop

section Graph

variable {graph : Successors} {components : List (List Nat)}
  (hcomponents : Components graph components)

include hcomponents

theorem Components.nodup : components.flatten.Nodup :=
  hcomponents.perm.nodup_iff.mpr List.nodup_range

theorem Components.members_component (hc : c < components.length) :
    Search.Component graph (members components c) := by
  have hblock : members components c = components[c] := List.getD_eq_getElem _ _ hc
  rw [hblock]
  exact hcomponents.component _ (List.getElem_mem hc)

theorem Components.near {w : Nat} (hv : v ∈ members components c) :
    w ∈ members components c ↔ graph.Mutual v w := by
  obtain ⟨-, u, -, hu⟩ := hcomponents.members_component (lt_of_mem_members hv)
  rw [hu] at hv ⊢
  exact ⟨fun hw => hv.symm.trans hw, fun hw => hv.trans hw⟩

theorem Components.lt_of_mem (hv : v ∈ members components c) : v < graph.count := by
  obtain ⟨block, hblock, hmem⟩ := mem_members.mp hv
  exact List.mem_range.mp (hcomponents.perm.mem_iff.mp
    (List.mem_flatten.mpr ⟨block, List.mem_of_getElem? hblock, hmem⟩))

theorem Components.mem_componentOf (hv : v < graph.count) :
    v ∈ members components (componentOf components v) := by
  have hmem := hcomponents.perm.mem_iff.mpr (List.mem_range.mpr hv)
  obtain ⟨block, hblock, hin⟩ := List.mem_flatten.mp hmem
  obtain ⟨c, hc, rfl⟩ := List.getElem_of_mem hblock
  have hin : v ∈ members components c :=
    mem_members.mpr ⟨_, List.getElem?_eq_getElem hc, hin⟩
  rwa [componentOf_eq hcomponents.nodup hin]

theorem Components.componentOf_lt (hv : v < graph.count) :
    componentOf components v < components.length :=
  lt_of_mem_members (hcomponents.mem_componentOf hv)

theorem Components.first_mem (hc : c < components.length) :
    first components c ∈ members components c := by
  obtain ⟨-, u, -, hu⟩ := hcomponents.members_component hc
  have hmem : u ∈ members components c := (hu u).mpr (.refl u)
  unfold first
  cases hblock : members components c with
  | nil =>
    rw [hblock] at hmem
    cases hmem
  | cons v rest => exact List.mem_cons_self ..

theorem Components.mem_condense :
    d ∈ (condense graph (componentOf components)).successors c ↔
      c ≠ d ∧ ∃ p f, f ∈ graph.of p ∧ p ∈ members components c ∧ f ∈ members components d := by
  have hlinked := condense_linked graph fun p hp => hcomponents.componentOf_lt hp
  rw [hlinked.mem]
  refine and_congr_right fun _ => ?_
  unfold Successors.linksOf
  simp only [List.mem_flatMap, List.mem_range, List.mem_map, Prod.mk.injEq]
  constructor
  · rintro ⟨p, hp, f, hf, rfl, rfl⟩
    exact ⟨p, f, hf, hcomponents.mem_componentOf hp,
      hcomponents.mem_componentOf (graph.of_mem hf).2⟩
  · rintro ⟨p, f, hf, hc, hd⟩
    exact ⟨p, (graph.of_mem hf).1, f, hf, componentOf_eq hcomponents.nodup hc,
      componentOf_eq hcomponents.nodup hd⟩

open Classical in
/-- How many vertices reach the component: more with each edge. -/
noncomputable def rankOf (graph : Successors) (components : List (List Nat)) (c : Nat) : Nat :=
  ((Finset.range graph.count).filter fun v => graph.Reaches v (first components c)).card

theorem Components.acyclic : Acyclic components.length
    (condense graph (componentOf components)).successors (rankOf graph components) where
  nodup := (condense_linked graph fun p hp => hcomponents.componentOf_lt hp).nodup
  inside c d hd := by
    obtain ⟨-, p, f, -, -, hf⟩ := hcomponents.mem_condense.mp hd
    exact lt_of_mem_members hf
  rank_lt c d hd := by
    classical
    obtain ⟨hne, p, f, hedge, hp, hf⟩ := hcomponents.mem_condense.mp hd
    have hfirst := hcomponents.first_mem (lt_of_mem_members hp)
    have hlast := hcomponents.first_mem (lt_of_mem_members hf)
    have hover : graph.Reaches (first components c) (first components d) :=
      ((hcomponents.near hfirst).mp hp).1.trans
        ((Relation.ReflTransGen.single hedge).trans ((hcomponents.near hf).mp hlast).1)
    have hback : ¬graph.Reaches (first components d) (first components c) := by
      intro hreach
      exact hne (members_unique hcomponents.nodup
        ((hcomponents.near hfirst).mpr ⟨hover, hreach⟩) hlast)
    refine Finset.card_lt_card ((Finset.ssubset_iff_of_subset ?_).mpr ⟨first components d, ?_, ?_⟩)
    · intro v hv
      rw [Finset.mem_filter] at hv ⊢
      exact ⟨hv.1, hv.2.trans hover⟩
    · exact Finset.mem_filter.mpr ⟨Finset.mem_range.mpr (hcomponents.lt_of_mem hlast), .refl⟩
    · exact fun hin => hback (Finset.mem_filter.mp hin).2

theorem Components.initial : (⟨initialReady components
      (condense graph (componentOf components)).indegree,
      (condense graph (componentOf components)).indegree, []⟩ : Emission).Holds components
        (condense graph (componentOf components)).successors [] := by
  have hlinked := condense_linked graph fun p hp => hcomponents.componentOf_lt hp
  have hwaiting : ∀ d, (condense graph (componentOf components)).indegree d =
      waiting components.length (condense graph (componentOf components)).successors [] d := by
    intro d
    rw [hlinked.indegree]
    simp only [waiting, List.not_mem_nil, not_false_eq_true, and_true]
  have hheap : ∀ found : List Nat, found.Nodup →
      let heap := found.foldr
        (fun c heap => heap.orderedInsert Precedes (first components c, c)) []
      heap.Pairwise Precedes ∧ heap.Nodup ∧
        ∀ x c, (x, c) ∈ heap ↔ c ∈ found ∧ x = first components c := by
    intro found hfound
    induction found with
    | nil => simp
    | cons c found ih =>
      obtain ⟨hnot, hfound⟩ := List.nodup_cons.mp hfound
      obtain ⟨hsorted, hnodup, hmem⟩ := ih hfound
      dsimp only [List.foldr_cons]
      refine ⟨hsorted.orderedInsert _ _, ?_, fun x d => ?_⟩
      · rw [(List.perm_orderedInsert Precedes ..).nodup_iff]
        exact List.nodup_cons.mpr ⟨fun hin => hnot ((hmem _ _).mp hin).1, hnodup⟩
      · rw [List.mem_orderedInsert, hmem, Prod.mk.injEq, List.mem_cons]
        constructor
        · rintro (⟨rfl, rfl⟩ | ⟨hd, rfl⟩)
          · exact ⟨Or.inl rfl, rfl⟩
          · exact ⟨Or.inr hd, rfl⟩
        · rintro ⟨rfl | hd, rfl⟩
          · exact Or.inl ⟨rfl, rfl⟩
          · exact Or.inr ⟨hd, rfl⟩
  obtain ⟨hsorted, hnodup, hmem⟩ := hheap ((List.range components.length).filter fun c =>
    (condense graph (componentOf components)).indegree c = 0) (List.nodup_range.filter _)
  constructor
  · rfl
  · exact .nil
  · exact fun c hc => absurd hc List.not_mem_nil
  · exact hwaiting
  · exact hsorted
  · exact hnodup
  · intro x c
    refine (hmem x c).trans ?_
    rw [List.mem_filter, List.mem_range, decide_eq_true_iff, hwaiting]
    simp only [List.not_mem_nil, not_false_eq_true, true_and, and_assoc]
  · intro front c back hcut
    exact absurd hcut.symm (by simp)

end Graph

/-- All that reaches a member of the block is in it or written. -/
def Ready (graph : Successors) (done : List (List Nat)) (block : List Nat) : Prop :=
  ∀ f ∈ block, ∀ p, graph.Reaches p f → p ∈ done.flatten ∨ p ∈ block

/-- An order of the features: component by component, and each the ready one that comes first
in the document. -/
structure Restores (graph : Successors) (order : List Nat) : Prop where
  perm : order.Perm (List.range graph.count)
  before : ∀ p f, p < graph.count → graph.Reaches p f → ¬graph.Reaches f p → [p, f].Sublist order
  blocks : ∃ blocks : List (List Nat), order = blocks.flatten ∧
    blocks.Perm (stronglyConnected graph) ∧
    ∀ done block rest, blocks = done ++ block :: rest →
      Ready graph done block ∧
        ∀ other ∈ rest, Ready graph done other → block.headD 0 < other.headD 0

section Restored

variable {graph : Successors} {components : List (List Nat)}
  (hcomponents : Components graph components)

include hcomponents

theorem Emission.Holds.ready_block {emission : Emission} {all back : List Nat}
    (h : emission.Holds components (condense graph (componentOf components)).successors all)
    (hall : all = front ++ c :: back) :
    Ready graph (front.map (members components)) (members components c) := by
  have hc : c < components.length := h.inside c (hall ▸ by simp)
  -- Whatever leads into a component of the front, or into the block, is in the front.
  have hpred : ∀ d, d = c ∨ d ∈ front → ∀ e,
      d ∈ (condense graph (componentOf components)).successors e → e ∈ front := by
    rintro d hd e hedge
    obtain ⟨-, p, f, -, hp, -⟩ := hcomponents.mem_condense.mp hedge
    have he := lt_of_mem_members hp
    rcases hd with rfl | hd
    · exact waiting_eq_zero.mp (h.chosen front d back hall).1 e he hedge
    · obtain ⟨early, late, rfl⟩ := List.append_of_mem hd
      have hcut : all = early ++ d :: (late ++ c :: back) := by rw [hall]; simp
      exact List.mem_append_left _ (waiting_eq_zero.mp (h.chosen early d _ hcut).1 e he hedge)
  intro f hf p hreach
  have hturn : p ∈ members components c ∨ ∃ d ∈ front, p ∈ members components d := by
    induction hreach using Relation.ReflTransGen.head_induction_on with
    | refl => exact Or.inl hf
    | @head p q hedge _ ih =>
      have hp := hcomponents.mem_componentOf (graph.of_mem hedge).1
      have hq : ∃ d, (d = c ∨ d ∈ front) ∧ q ∈ members components d := by
        rcases ih with hq | ⟨d, hd, hq⟩
        · exact ⟨c, Or.inl rfl, hq⟩
        · exact ⟨d, Or.inr hd, hq⟩
      obtain ⟨d, hd, hq⟩ := hq
      by_cases hsame : componentOf components p = d
      · rw [hsame] at hp
        rcases hd with rfl | hd
        · exact Or.inl hp
        · exact Or.inr ⟨d, hd, hp⟩
      · exact Or.inr ⟨_, hpred d hd _ (hcomponents.mem_condense.mpr ⟨hsame, p, q, hedge, hp, hq⟩),
          hp⟩
  rcases hturn with hp | ⟨d, hd, hp⟩
  · exact Or.inr hp
  · exact Or.inl (List.mem_flatten.mpr ⟨_, List.mem_map_of_mem hd, hp⟩)

theorem Ready.waiting (h : Ready graph (front.map (members components)) (members components d)) :
    waiting components.length (condense graph (componentOf components)).successors front d = 0 := by
  refine waiting_eq_zero.mpr fun c _ hedge => ?_
  obtain ⟨hne, p, f, hedge, hp, hf⟩ := hcomponents.mem_condense.mp hedge
  rcases h f hf p (.single hedge) with hin | hin
  · obtain ⟨block, hblock, hin⟩ := List.mem_flatten.mp hin
    obtain ⟨e, he, rfl⟩ := List.mem_map.mp hblock
    rwa [members_unique hcomponents.nodup hp hin]
  · exact absurd (members_unique hcomponents.nodup hp hin) hne

theorem Emission.Holds.restores {emission : Emission} {all : List Nat}
    (h : emission.Holds components (condense graph (componentOf components)).successors all)
    (hcomplete : ∀ c < components.length, c ∈ all) (hgraph : components = stronglyConnected graph) :
    Restores graph emission.order := by
  have hperm : all.Perm (List.range components.length) :=
    (List.perm_ext_iff_of_nodup h.nodup List.nodup_range).mpr fun c =>
      ⟨fun hc => List.mem_range.mpr (h.inside c hc), fun hc => hcomplete c (List.mem_range.mp hc)⟩
  have hrange : (List.range components.length).map (members components) = components := by
    refine List.ext_getElem (by simp) fun c hc _ => ?_
    rw [List.getElem_map, List.getElem_range]
    exact List.getD_eq_getElem _ _ _
  have horder : emission.order = (all.map (members components)).flatten := by
    rw [h.order, List.flatMap_def]
  have hblocks : (all.map (members components)).Perm components := by
    have := hperm.map (members components)
    rwa [hrange] at this
  have hchosen : ∀ done block rest, all.map (members components) = done ++ block :: rest →
      Ready graph done block ∧
        ∀ other ∈ rest, Ready graph done other → block.headD 0 < other.headD 0 := by
    intro done block rest hcut
    obtain ⟨front, tail, hall, rfl, htail⟩ := List.map_eq_append_iff.mp hcut
    obtain ⟨c, back, rfl, rfl, rfl⟩ := List.map_eq_cons_iff.mp htail
    refine ⟨h.ready_block hcomponents hall, fun other hother hready => ?_⟩
    obtain ⟨d, hd, rfl⟩ := List.mem_map.mp hother
    have hnodup := h.nodup
    rw [hall, List.nodup_append, List.nodup_cons] at hnodup
    have hdlt : d < components.length := h.inside d (hall ▸ by simp [hd])
    have hclt : c < components.length := h.inside c (hall ▸ by simp)
    have hfront : d ∉ front := fun hin => hnodup.2.2 d hin d (List.mem_cons_of_mem _ hd) rfl
    have hle := (h.chosen front c back hall).2 d hdlt hfront (hready.waiting hcomponents)
    refine lt_of_le_of_ne hle fun heq => hnodup.2.1.1 ?_
    have hmem := hcomponents.first_mem hclt
    rw [show first components c = first components d from heq] at hmem
    rwa [members_unique hcomponents.nodup hmem (hcomponents.first_mem hdlt)]
  refine ⟨?_, ?_, _, horder, hgraph ▸ hblocks, hchosen⟩
  · rw [horder]
    exact hblocks.flatten.trans hcomponents.perm
  · intro p f hp hreach hback
    have hf := hcomponents.mem_componentOf (hreach.lt hp)
    set d := componentOf components f with hd
    obtain ⟨front, back, hall⟩ := List.append_of_mem (hcomplete d (lt_of_mem_members hf))
    have hready := h.ready_block hcomponents hall f hf p hreach
    rw [horder, hall, List.map_append, List.flatten_append, List.map_cons, List.flatten_cons]
    rcases hready with hin | hin
    · exact (List.singleton_sublist.mpr hin).append
        (List.singleton_sublist.mpr (List.mem_append_left _ hf))
    · exact absurd ((hcomponents.near hf).mp hin).1 hback

end Restored

theorem restoreOrder_spec (graph : Successors) :
    (emission (stronglyConnected graph) graph).ready = [] ∧ Restores graph (restoreOrder graph) := by
  have hcomponents := (stronglyConnected_spec graph).2
  obtain ⟨all, hready, hholds, hcomplete⟩ :=
    hcomponents.initial.emit hcomponents.acyclic (Nat.le_add_left _ _)
  exact ⟨hready, hholds.restores hcomponents hcomplete rfl⟩

example : restoreOrder ⟨[[], [2], [1], [1]], by decide, by decide⟩ = [0, 3, 1, 2] := by decide

end VivaGenicam.Genapi
