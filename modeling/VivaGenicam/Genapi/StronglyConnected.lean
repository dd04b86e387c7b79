import Mathlib.Data.List.GetD
import Mathlib.Tactic

/-!
Strongly connected components of the features a restore writes, by a depth-first search
that keeps its own stack of calls. The proof reads that stack of calls beside the stack of
open vertices: it cuts the open vertices into one segment for each call, and the members of
a segment reach one another.
-/

namespace VivaGenicam.Genapi

/-- For each feature the features its write can change, each once in ascending order. -/
structure Successors where
  targets : List (List Nat)
  ascending : ∀ row ∈ targets, row.Pairwise (· < ·)
  inside : ∀ row ∈ targets, ∀ f ∈ row, f < targets.length

namespace Successors

variable (graph : Successors)

def count : Nat := graph.targets.length

def of (p : Nat) : List Nat := graph.targets.getD p []

variable {p f : Nat}

theorem of_mem (h : f ∈ graph.of p) : p < graph.count ∧ f < graph.count := by
  unfold of at h
  rcases Nat.lt_or_ge p graph.targets.length with hp | hp
  · rw [List.getD_eq_getElem _ _ hp] at h
    exact ⟨hp, graph.inside _ (List.getElem_mem hp) f h⟩
  · rw [List.getD_eq_default _ _ hp] at h
    cases h

/-- A write of `p` can change `f`, at once or through others. -/
def Reaches : Nat → Nat → Prop := Relation.ReflTransGen fun p f => f ∈ graph.of p

def Mutual (p f : Nat) : Prop := graph.Reaches p f ∧ graph.Reaches f p

variable {graph}

theorem Reaches.lt (h : graph.Reaches p f) (hp : p < graph.count) :
    f < graph.count := by
  induction h with
  | refl => exact hp
  | tail _ hedge _ => exact (graph.of_mem hedge).2

theorem Mutual.refl (p : Nat) : graph.Mutual p p := ⟨.refl, .refl⟩

theorem Mutual.symm (h : graph.Mutual p f) : graph.Mutual f p := ⟨h.2, h.1⟩

theorem Mutual.trans {q : Nat} (h : graph.Mutual p q) (hnext : graph.Mutual q f) :
    graph.Mutual p f := ⟨h.1.trans hnext.1, hnext.2.trans h.2⟩

theorem Reaches.closed {vertices : Nat → Prop} {p f : Nat}
    (hclosed : ∀ v, vertices v → ∀ w ∈ graph.of v, vertices w) (h : graph.Reaches p f)
    (hp : vertices p) : vertices f := by
  induction h with
  | refl => exact hp
  | tail _ hedge ih => exact hclosed _ ih _ hedge

end Successors

/-- The vectors and stacks of `strongly_connected`; `call` and `stack` have their top first. -/
structure Search where
  index : Nat → Option Nat
  low : Nat → Nat
  onStack : Nat → Bool
  stack : List Nat
  nextIndex : Nat
  components : List (List Nat)
  call : List (Nat × Nat)

/-- The vertices down to `v`, and what is left below it. -/
def popUntil (v : Nat) : List Nat → List Nat × List Nat
  | [] => ([], [])
  | w :: stack =>
    if w = v then ([w], stack)
    else
      let (members, rest) := popUntil v stack
      (w :: members, rest)

namespace Search

def start : Search := ⟨fun _ => none, fun _ => 0, fun _ => false, [], 0, [], []⟩

/-- Number `w` and call it. -/
def enter (search : Search) (w : Nat) : Search :=
  { search with
    index := Function.update search.index w (some search.nextIndex)
    low := Function.update search.low w search.nextIndex
    onStack := Function.update search.onStack w true
    stack := w :: search.stack
    nextIndex := search.nextIndex + 1
    call := (w, 0) :: search.call }

/-- Take `v` and what is above it off the stack, as a component. -/
def close (search : Search) (v : Nat) : Search :=
  let (members, rest) := popUntil v search.stack
  { search with
    onStack := fun w => if w ∈ members then false else search.onStack w
    stack := rest
    components := search.components ++ [members.insertionSort (· ≤ ·)] }

/-- Return from the call of `v`, whose edges are through. -/
def leave (search : Search) (v : Nat) (call : List (Nat × Nat)) : Search :=
  let returned : Search :=
    { search with
      call := call
      low := match call with
        | (parent, _) :: _ =>
          Function.update search.low parent (min (search.low parent) (search.low v))
        | [] => search.low }
  if some (returned.low v) = returned.index v then returned.close v else returned

def step (graph : Successors) (search : Search) : Search :=
  match search.call with
  | [] => search
  | (v, edge) :: call =>
    match (graph.of v)[edge]? with
    | some w =>
      let advanced : Search := { search with call := (v, edge + 1) :: call }
      match search.index w with
      | none => advanced.enter w
      | some number =>
        if search.onStack w then
          { advanced with low := Function.update search.low v (min (search.low v) number) }
        else advanced
    | none => search.leave v call

/-- The inner loop: turns until no call is left. -/
def calls (graph : Successors) : Nat → Search → Search
  | 0, search => search
  | fuel + 1, search => if search.call = [] then search else calls graph fuel (search.step graph)

end Search

/-- The turns that one search of the whole graph takes. -/
def Successors.turns (graph : Successors) : Nat :=
  ∑ v ∈ Finset.range graph.count, ((graph.of v).length + 1)

/-- The search from `root`, unless it has been seen. -/
def Search.visit (graph : Successors) (search : Search) (root : Nat) : Search :=
  if search.index root = none then (search.enter root).calls graph graph.turns else search

def searchAll (graph : Successors) : Search :=
  (List.range graph.count).foldl (Search.visit graph) Search.start

def stronglyConnected (graph : Successors) : List (List Nat) := (searchAll graph).components

/-- The turns that the vertices without a number take. -/
def Successors.unseen (graph : Successors) (index : Nat → Option Nat) : Nat :=
  ∑ v ∈ (Finset.range graph.count).filter fun v => index v = none, ((graph.of v).length + 1)

/-- The turns ahead: an edge or a return each. -/
def Search.ahead (graph : Successors) (search : Search) : Nat :=
  graph.unseen search.index +
    (search.call.map fun frame => (graph.of frame.1).length - frame.2 + 1).sum

/-- A call, and the open vertices above its own that were numbered after it and before the
next call's. -/
structure Segment where
  vertex : Nat
  edge : Nat
  others : List Nat

def Segment.vertices (segment : Segment) : List Nat := segment.others ++ [segment.vertex]

def stackOf (segments : List Segment) : List Nat := segments.flatMap Segment.vertices

namespace Search

variable (graph : Successors) (search : Search)

def number (v : Nat) : Nat := (search.index v).getD 0

def Closed (v : Nat) : Prop := v ∈ search.components.flatten

/-- An explored edge's target: closed, or open and numbered from `low` on. -/
def Settled (low w : Nat) : Prop := search.Closed w ∨ w ∈ search.stack ∧ low ≤ search.number w

/-- What holds of a segment and those below it. -/
structure Sound (segment : Segment) (below : List Segment) : Prop where
  called : ∀ parent ∈ below.head?, segment.vertex ∈ graph.of parent.vertex
  near : ∀ x ∈ segment.others, graph.Mutual segment.vertex x
  others : ∀ x ∈ segment.others, ∀ w ∈ graph.of x, search.Settled (search.low segment.vertex) w
  explored : ∀ w ∈ (graph.of segment.vertex).take segment.edge,
    search.Settled (search.low segment.vertex) w
  low_le : search.low segment.vertex ≤ search.number segment.vertex
  low_reached : ∃ z ∈ stackOf (segment :: below), search.number z = search.low segment.vertex ∧
    graph.Reaches segment.vertex z

def Chained : List Segment → Prop
  | [] => True
  | segment :: below => search.Sound graph segment below ∧ Chained below

/-- A component: the vertices that reach one of them and are reached from it, ascending. -/
def Component (graph : Successors) (members : List Nat) : Prop :=
  members.Pairwise (· < ·) ∧ ∃ v < graph.count, ∀ w, w ∈ members ↔ graph.Mutual v w

structure Invariant (segments : List Segment) : Prop where
  call : search.call = segments.map fun segment => (segment.vertex, segment.edge)
  stack : search.stack = stackOf segments
  onStack : ∀ v, search.onStack v = true ↔ v ∈ search.stack
  ordered : search.stack.Pairwise fun above under => search.number under < search.number above
  indexed : ∀ v, search.index v ≠ none ↔ v ∈ search.stack ∨ search.Closed v
  fresh : ∀ v number, search.index v = some number → number < search.nextIndex
  inside : ∀ v, search.index v ≠ none → v < graph.count
  apart : ∀ v ∈ search.stack, ¬search.Closed v
  closed : ∀ v, search.Closed v → ∀ w ∈ graph.of v, search.Closed w
  nodup : search.components.flatten.Nodup
  component : ∀ members ∈ search.components, Component graph members
  chained : search.Chained graph segments

end Search

variable {segments : List Segment} {z : Nat}

section Segments

variable {graph : Successors} {search next : Search} {segment : Segment} {below : List Segment}

@[simp] theorem stackOf_cons (segment : Segment) (below : List Segment) :
    stackOf (segment :: below) = segment.others ++ segment.vertex :: stackOf below := by
  simp [stackOf, Segment.vertices]

theorem mem_vertices {segment : Segment} {x : Nat} :
    x ∈ segment.vertices ↔ x ∈ segment.others ∨ x = segment.vertex := by
  simp [Segment.vertices]

theorem Search.Settled.mono {low lower w : Nat} (h : search.Settled low w) (hle : lower ≤ low) :
    search.Settled lower w := by
  rcases h with hclosed | ⟨hopen, hnumber⟩
  · exact Or.inl hclosed
  · exact Or.inr ⟨hopen, hle.trans hnumber⟩

theorem Search.Sound.mono (h : search.Sound graph segment below)
    (hlow : next.low segment.vertex = search.low segment.vertex)
    (hnumber : ∀ z ∈ stackOf (segment :: below), next.number z = search.number z)
    (hsettled : ∀ low w, search.Settled low w → next.Settled low w) :
    next.Sound graph segment below where
  called := h.called
  near := h.near
  others x hx w hw := by
    rw [hlow]
    exact hsettled _ _ (h.others x hx w hw)
  explored w hw := by
    rw [hlow]
    exact hsettled _ _ (h.explored w hw)
  low_le := by
    rw [hlow, hnumber _ (by simp)]
    exact h.low_le
  low_reached := by
    obtain ⟨z, hz, heq, hreach⟩ := h.low_reached
    exact ⟨z, hz, by rw [hlow, hnumber z hz, heq], hreach⟩

theorem Search.Chained.mono (h : search.Chained graph segments)
    (hlow : ∀ segment ∈ segments, next.low segment.vertex = search.low segment.vertex)
    (hnumber : ∀ z ∈ stackOf segments, next.number z = search.number z)
    (hsettled : ∀ low w, search.Settled low w → next.Settled low w) :
    next.Chained graph segments := by
  induction segments with
  | nil => trivial
  | cons segment below ih =>
    refine ⟨h.1.mono (hlow _ (List.mem_cons_self ..)) hnumber hsettled, ih h.2 ?_ ?_⟩
    · exact fun later hmem => hlow later (List.mem_cons_of_mem _ hmem)
    · intro z hz
      exact hnumber z (by simp [hz])

theorem Search.Sound.explore {v edge w : Nat} {others : List Nat}
    (h : search.Sound graph ⟨v, edge, others⟩ below) (hedge : (graph.of v)[edge]? = some w)
    (hsettled : search.Settled (search.low v) w) :
    search.Sound graph ⟨v, edge + 1, others⟩ below where
  called := h.called
  near := h.near
  others := h.others
  explored x hx := by
    dsimp only at hx
    rw [List.take_add_one, hedge, Option.toList_some, List.mem_append, List.mem_singleton] at hx
    rcases hx with hx | rfl
    · exact h.explored x hx
    · exact hsettled
  low_le := h.low_le
  low_reached := h.low_reached

theorem Search.Sound.lower (h : search.Sound graph segment below)
    (hz : z ∈ stackOf (segment :: below)) (hreach : graph.Reaches segment.vertex z)
    (hlow : next.low segment.vertex = min (search.low segment.vertex) (search.number z))
    (hnumber : next.number = search.number)
    (hsettled : ∀ low w, search.Settled low w → next.Settled low w) :
    next.Sound graph segment below where
  called := h.called
  near := h.near
  others x hx w hw := by
    rw [hlow]
    exact hsettled _ _ ((h.others x hx w hw).mono (Nat.min_le_left ..))
  explored w hw := by
    rw [hlow]
    exact hsettled _ _ ((h.explored w hw).mono (Nat.min_le_left ..))
  low_le := by
    rw [hlow, hnumber]
    exact (Nat.min_le_left ..).trans h.low_le
  low_reached := by
    rw [hlow, hnumber]
    rcases Nat.le_total (search.low segment.vertex) (search.number z) with hle | hle
    · rw [Nat.min_eq_left hle]
      exact h.low_reached
    · rw [Nat.min_eq_right hle]
      exact ⟨z, hz, rfl, hreach⟩

theorem Search.Chained.reaches (h : search.Chained graph (segment :: below))
    (hz : z ∈ stackOf (segment :: below)) : graph.Reaches z segment.vertex := by
  induction below generalizing segment with
  | nil =>
    rw [stackOf_cons, List.mem_append, List.mem_cons] at hz
    rcases hz with hz | rfl | hz
    · exact (h.1.near z hz).2
    · exact .refl
    · cases hz
  | cons parent below ih =>
    rw [stackOf_cons, List.mem_append, List.mem_cons] at hz
    rcases hz with hz | rfl | hz
    · exact (h.1.near z hz).2
    · exact .refl
    · exact (ih h.2 hz).tail (h.1.called parent rfl)

end Segments

theorem popUntil_append {v : Nat} {above : List Nat} (rest : List Nat) (h : v ∉ above) :
    popUntil v (above ++ v :: rest) = (above ++ [v], rest) := by
  induction above with
  | nil => simp [popUntil]
  | cons w above ih =>
    rw [List.mem_cons, not_or] at h
    rw [List.cons_append, popUntil, if_neg (Ne.symm h.1), ih h.2]
    rfl

section Turns

variable {graph : Successors} {search : Search} {below : List Segment} {v edge w : Nat}
  {others : List Nat}

theorem Search.Invariant.index_eq (h : search.Invariant graph segments) (hw : w ∈ search.stack) :
    search.index w = some (search.number w) := by
  have hindexed := (h.indexed w).mpr (Or.inl hw)
  obtain ⟨number, hnumber⟩ := Option.ne_none_iff_exists'.mp hindexed
  rw [Search.number, hnumber]
  rfl

theorem Search.Invariant.vertex_mem (h : search.Invariant graph (⟨v, edge, others⟩ :: below)) :
    v ∈ search.stack := by
  rw [h.stack, stackOf_cons]
  simp

theorem Search.Invariant.below_lt (h : search.Invariant graph (⟨v, edge, others⟩ :: below))
    (hz : z ∈ stackOf below) : search.number z < search.number v := by
  have hordered := h.ordered
  rw [h.stack, stackOf_cons, List.pairwise_append, List.pairwise_cons] at hordered
  exact hordered.2.1.1 z hz

theorem Search.Invariant.above_lt (h : search.Invariant graph (⟨v, edge, others⟩ :: below))
    (hz : z ∈ others) : search.number v < search.number z := by
  have hordered := h.ordered
  rw [h.stack, stackOf_cons, List.pairwise_append] at hordered
  exact hordered.2.2 z hz v (List.mem_cons_self ..)

theorem vertex_mem_stackOf {segment : Segment}
    (h : segment ∈ segments) : segment.vertex ∈ stackOf segments :=
  List.mem_flatMap.mpr ⟨segment, h, mem_vertices.mpr (Or.inr rfl)⟩

theorem Search.Invariant.below_ne (h : search.Invariant graph (⟨v, edge, others⟩ :: below))
    {segment : Segment} (hmem : segment ∈ below) : segment.vertex ≠ v := by
  intro heq
  have := h.below_lt (vertex_mem_stackOf hmem)
  rw [heq] at this
  exact Nat.lt_irrefl _ this

theorem Search.Invariant.meet_open (h : search.Invariant graph (⟨v, edge, others⟩ :: below))
    (hedge : (graph.of v)[edge]? = some w) (hw : w ∈ search.stack) :
    { search with
        call := (v, edge + 1) :: below.map fun segment => (segment.vertex, segment.edge)
        low := Function.update search.low v (min (search.low v) (search.number w)) :
      Search }.Invariant graph (⟨v, edge + 1, others⟩ :: below) where
  call := rfl
  stack := h.stack
  onStack := h.onStack
  ordered := h.ordered
  indexed := h.indexed
  fresh := h.fresh
  inside := h.inside
  apart := h.apart
  closed := h.closed
  nodup := h.nodup
  component := h.component
  chained := by
    have hopen : w ∈ stackOf (⟨v, edge, others⟩ :: below) := h.stack ▸ hw
    have hlow : Function.update search.low v (min (search.low v) (search.number w)) v =
        min (search.low v) (search.number w) := Function.update_self ..
    refine ⟨Search.Sound.explore ?_ hedge ?_, h.chained.2.mono ?_ (fun _ _ => rfl)
      fun _ _ hs => hs⟩
    · exact h.chained.1.lower hopen (.single (List.mem_of_getElem? hedge)) hlow rfl
        fun _ _ hs => hs
    · exact Or.inr ⟨hw, hlow.le.trans (Nat.min_le_right ..)⟩
    · exact fun segment hmem => Function.update_of_ne (h.below_ne hmem) ..

theorem Search.Invariant.meet_closed (h : search.Invariant graph (⟨v, edge, others⟩ :: below))
    (hedge : (graph.of v)[edge]? = some w) (hw : search.Closed w) :
    { search with
        call := (v, edge + 1) :: below.map fun segment => (segment.vertex, segment.edge) :
      Search }.Invariant graph (⟨v, edge + 1, others⟩ :: below) where
  call := rfl
  stack := h.stack
  onStack := h.onStack
  ordered := h.ordered
  indexed := h.indexed
  fresh := h.fresh
  inside := h.inside
  apart := h.apart
  closed := h.closed
  nodup := h.nodup
  component := h.component
  chained := by
    refine ⟨Search.Sound.explore ?_ hedge (Or.inl hw), h.chained.2.mono (fun _ _ => rfl)
      (fun _ _ => rfl) fun _ _ hs => hs⟩
    exact h.chained.1.mono rfl (fun _ _ => rfl) fun _ _ hs => hs

theorem Search.Invariant.enter_spec
    (h : search.Invariant graph segments) (hw : search.index w = none) :
    (search.enter w).number w = search.nextIndex ∧
      (∀ z, search.index z ≠ none → (search.enter w).number z = search.number z ∧ z ≠ w) ∧
      (∀ low x, search.Settled low x → (search.enter w).Settled low x) := by
  have hold : ∀ z, search.index z ≠ none →
      (search.enter w).number z = search.number z ∧ z ≠ w := by
    intro z hz
    have hne : z ≠ w := by
      rintro rfl
      exact hz hw
    refine ⟨?_, hne⟩
    unfold Search.number Search.enter
    dsimp only
    rw [Function.update_of_ne hne]
  refine ⟨?_, hold, ?_⟩
  · unfold Search.number Search.enter
    dsimp only
    rw [Function.update_self]
    rfl
  · rintro low x (hclosed | ⟨hopen, hnumber⟩)
    · exact Or.inl hclosed
    · refine Or.inr ⟨List.mem_cons_of_mem _ hopen, ?_⟩
      rw [(hold x ((h.indexed x).mpr (Or.inl hopen))).1]
      exact hnumber

theorem Search.Invariant.number_lt (h : search.Invariant graph segments)
    (hz : search.index z ≠ none) : search.number z < search.nextIndex := by
  obtain ⟨number, hnumber⟩ := Option.ne_none_iff_exists'.mp hz
  have := h.fresh z number hnumber
  rwa [Search.number, hnumber]

theorem Search.Invariant.enter {called : List Segment}
    (h : search.Invariant graph segments) (hw : search.index w = none) (hinside : w < graph.count)
    (hstack : stackOf called = stackOf segments)
    (hedge : ∀ parent ∈ called.head?, w ∈ graph.of parent.vertex)
    (hchained : (search.enter w).Chained graph called) :
    ({ search with call := called.map fun segment => (segment.vertex, segment.edge) :
      Search }.enter w).Invariant graph (⟨w, 0, []⟩ :: called) := by
  obtain ⟨hnumber, hold, -⟩ := h.enter_spec hw
  have hunseen : w ∉ search.stack ∧ ¬search.Closed w := by
    constructor
    · exact fun hmem => (h.indexed w).mpr (Or.inl hmem) hw
    · exact fun hmem => (h.indexed w).mpr (Or.inr hmem) hw
  have hindex : ∀ z, Function.update search.index w (some search.nextIndex) z ≠ none ↔
      z = w ∨ search.index z ≠ none := by
    intro z
    by_cases hz : z = w
    · rw [hz, Function.update_self]
      simp
    · rw [Function.update_of_ne hz]
      simp [hz]
  constructor
  · rfl
  · change w :: search.stack = _
    rw [stackOf_cons, List.nil_append, hstack, h.stack]
  · intro z
    change Function.update search.onStack w true z = true ↔ z ∈ w :: search.stack
    by_cases hz : z = w
    · rw [hz, Function.update_self]
      simp
    · rw [Function.update_of_ne hz, h.onStack z, List.mem_cons, or_iff_right hz]
  · change List.Pairwise (fun above under =>
      (search.enter w).number under < (search.enter w).number above) (w :: search.stack)
    rw [List.pairwise_cons]
    constructor
    · intro z hz
      have hz := (h.indexed z).mpr (Or.inl hz)
      rw [(hold z hz).1, hnumber]
      exact h.number_lt hz
    · refine h.ordered.imp_of_mem fun hz hz' hlt => ?_
      rw [(hold _ ((h.indexed _).mpr (Or.inl hz))).1, (hold _ ((h.indexed _).mpr (Or.inl hz'))).1]
      exact hlt
  · intro z
    change Function.update search.index w (some search.nextIndex) z ≠ none ↔
      z ∈ w :: search.stack ∨ search.Closed z
    rw [hindex, h.indexed, List.mem_cons, or_assoc]
  · intro z number
    change Function.update search.index w (some search.nextIndex) z = some number →
      number < search.nextIndex + 1
    by_cases hz : z = w
    · rw [hz, Function.update_self, Option.some.injEq]
      omega
    · rw [Function.update_of_ne hz]
      intro heq
      have := h.fresh z number heq
      omega
  · intro z hz
    change Function.update search.index w (some search.nextIndex) z ≠ none at hz
    rcases (hindex z).mp hz with rfl | hz
    · exact hinside
    · exact h.inside z hz
  · intro z hz
    rcases List.mem_cons.mp hz with rfl | hz
    · exact hunseen.2
    · exact h.apart z hz
  · exact h.closed
  · exact h.nodup
  · exact h.component
  · refine ⟨?_, hchained.mono (fun _ _ => rfl) (fun _ _ => rfl) fun _ _ hs => hs⟩
    have hlow : ({ search with call := called.map fun segment => (segment.vertex, segment.edge) :
        Search }.enter w).low w = search.nextIndex := Function.update_self ..
    constructor
    · exact hedge
    · intro x hx
      cases hx
    · intro x hx
      cases hx
    · intro x hx
      rw [List.take_zero] at hx
      cases hx
    · exact (hlow.trans hnumber.symm).le
    · exact ⟨w, by simp, hnumber.trans hlow.symm, .refl⟩

theorem Search.Invariant.enter_root (h : search.Invariant graph []) (hw : search.index w = none)
    (hinside : w < graph.count) : (search.enter w).Invariant graph [⟨w, 0, []⟩] := by
  have hentered := h.enter hw hinside rfl (by simp) trivial
  have hcall : search.call = [] := h.call
  have heq : { search with call := ([] : List Segment).map fun segment =>
      (segment.vertex, segment.edge) } = search := by
    cases search
    cases hcall
    rfl
  rwa [heq] at hentered

theorem Search.Invariant.meet_unseen (h : search.Invariant graph (⟨v, edge, others⟩ :: below))
    (hedge : (graph.of v)[edge]? = some w) (hw : search.index w = none) :
    ({ search with
        call := (v, edge + 1) :: below.map fun segment => (segment.vertex, segment.edge) :
      Search }.enter w).Invariant graph (⟨w, 0, []⟩ :: ⟨v, edge + 1, others⟩ :: below) := by
  obtain ⟨hnumber, hold, hsettled⟩ := h.enter_spec hw
  have hmem := List.mem_of_getElem? hedge
  have hindexed : ∀ z ∈ stackOf (⟨v, edge, others⟩ :: below), search.index z ≠ none :=
    fun z hz => (h.indexed z).mpr (Or.inl (h.stack ▸ hz))
  have hlow : ∀ z ∈ stackOf (⟨v, edge, others⟩ :: below), (search.enter w).low z = search.low z :=
    fun z hz => Function.update_of_ne (hold z (hindexed z hz)).2 ..
  have hv : v ∈ stackOf (⟨v, edge, others⟩ :: below) := h.stack ▸ h.vertex_mem
  have hchained : (search.enter w).Chained graph (⟨v, edge + 1, others⟩ :: below) := by
    refine ⟨Search.Sound.explore ?_ hedge (Or.inr ⟨List.mem_cons_self .., ?_⟩), ?_⟩
    · exact h.chained.1.mono (hlow v hv) (fun z hz => (hold z (hindexed z hz)).1) hsettled
    · rw [hlow v hv, hnumber]
      exact h.chained.1.low_le.trans (h.number_lt (hindexed v hv)).le
    · refine h.chained.2.mono (fun segment hmem => hlow _ ?_)
        (fun z hz => (hold z (hindexed z ?_)).1) hsettled
      · rw [stackOf_cons]
        exact List.mem_append_right _ (List.mem_cons_of_mem _ (vertex_mem_stackOf hmem))
      · rw [stackOf_cons]
        exact List.mem_append_right _ (List.mem_cons_of_mem _ hz)
  refine h.enter hw (graph.of_mem hmem).2 (by simp) (fun parent hparent => ?_) hchained
  cases hparent
  exact hmem

theorem take_of_done {targets : List Nat} (hdone : targets[edge]? = none) :
    targets.take edge = targets :=
  List.take_of_length_le (List.getElem?_eq_none_iff.mp hdone)

theorem Search.Sound.vertices (h : search.Sound graph ⟨v, edge, others⟩ below)
    (hdone : (graph.of v)[edge]? = none) :
    ∀ x ∈ others ++ [v], ∀ w ∈ graph.of x, search.Settled (search.low v) w := by
  intro x hx w hw
  rcases List.mem_append.mp hx with hx | hx
  · exact h.others x hx w hw
  · obtain rfl := List.mem_singleton.mp hx
    exact h.explored w (by rwa [take_of_done hdone])

theorem Search.Sound.mutual_vertices (h : search.Sound graph ⟨v, edge, others⟩ below) :
    ∀ x ∈ others ++ [v], graph.Mutual v x := by
  intro x hx
  rcases List.mem_append.mp hx with hx | hx
  · exact h.near x hx
  · obtain rfl := List.mem_singleton.mp hx
    exact .refl x

theorem Search.Invariant.segment_closed (h : search.Invariant graph (⟨v, edge, others⟩ :: below))
    (hdone : (graph.of v)[edge]? = none) (hlow : search.low v = search.number v) :
    (∀ x ∈ others ++ [v], ∀ w ∈ graph.of x, w ∈ others ++ [v] ∨ search.Closed w) ∧
      ∀ w, w ∈ others ++ [v] ↔ graph.Mutual v w := by
  have hedges : ∀ x ∈ others ++ [v], ∀ w ∈ graph.of x, w ∈ others ++ [v] ∨ search.Closed w := by
    intro x hx w hw
    rcases h.chained.1.vertices hdone x hx w hw with hclosed | ⟨hopen, hnumber⟩
    · exact Or.inr hclosed
    · rw [h.stack, stackOf_cons, ← List.singleton_append, ← List.append_assoc] at hopen
      rcases List.mem_append.mp hopen with hmem | hbelow
      · exact Or.inl hmem
      · have := h.below_lt hbelow
        omega
  refine ⟨hedges, fun w => ⟨h.chained.1.mutual_vertices w, fun hmutual => ?_⟩⟩
  have hreached : w ∈ others ++ [v] ∨ search.Closed w := by
    refine @Successors.Reaches.closed graph (fun x => x ∈ others ++ [v] ∨ search.Closed x) v w ?_
      hmutual.1 (Or.inl (List.mem_append_right _ (List.mem_singleton_self v)))
    rintro x (hx | hx) y hy
    · exact hedges x hx y hy
    · exact Or.inr (h.closed x hx y hy)
  rcases hreached with hmem | hclosed
  · exact hmem
  · exact absurd (hmutual.2.closed h.closed hclosed) (h.apart v h.vertex_mem)

theorem Search.Invariant.close (h : search.Invariant graph (⟨v, edge, others⟩ :: below))
    (hdone : (graph.of v)[edge]? = none) (hlow : search.low v = search.number v) :
    ({ search with call := below.map fun segment => (segment.vertex, segment.edge) :
      Search }.close v).Invariant graph below := by
  obtain ⟨hedges, hmembers⟩ := h.segment_closed hdone hlow
  have hv : v ∉ others := fun hmem => Nat.lt_irrefl _ (h.above_lt hmem)
  have hstack : search.stack = (others ++ [v]) ++ stackOf below := by
    rw [h.stack, stackOf_cons, List.append_assoc, List.singleton_append]
  have hpop : popUntil v search.stack = (others ++ [v], stackOf below) := by
    rw [h.stack, stackOf_cons]
    exact popUntil_append _ hv
  have hperm := List.perm_insertionSort (· ≤ ·) (others ++ [v])
  set sorted := (others ++ [v]).insertionSort (· ≤ ·) with hsorted
  have hmem : ∀ x, x ∈ sorted ↔ x ∈ others ++ [v] := fun x => hperm.mem_iff
  have hopenNodup : ((others ++ [v]) ++ stackOf below).Nodup := by
    rw [← hstack]
    refine h.ordered.imp fun hlt heq => ?_
    rw [heq] at hlt
    exact Nat.lt_irrefl _ hlt
  obtain ⟨hnodup, -, hdisjoint⟩ := List.nodup_append.mp hopenNodup
  have hnext : { search with call := below.map fun segment => (segment.vertex, segment.edge) :
      Search }.close v =
      { search with
        call := below.map fun segment => (segment.vertex, segment.edge)
        onStack := fun w => if w ∈ others ++ [v] then false else search.onStack w
        stack := stackOf below
        components := search.components ++ [sorted] } := by
    unfold Search.close
    dsimp only
    rw [hpop]
  have hclosed : ∀ x, x ∈ (search.components ++ [sorted]).flatten ↔
      search.Closed x ∨ x ∈ others ++ [v] := by
    intro x
    simp only [List.flatten_append, List.flatten_cons, List.flatten_nil, List.append_nil,
      List.mem_append, hmem]
    rfl
  rw [hnext]
  constructor
  · rfl
  · rfl
  · intro x
    dsimp only
    have hx : search.onStack x = true ↔ x ∈ (others ++ [v]) ++ stackOf below := hstack ▸ h.onStack x
    by_cases hmem : x ∈ others ++ [v]
    · rw [if_pos hmem]
      exact iff_of_false (by decide) fun hbelow => hdisjoint x hmem x hbelow rfl
    · rw [if_neg hmem, hx, List.mem_append, or_iff_right hmem]
  · have := h.ordered
    rw [hstack, List.pairwise_append] at this
    exact this.2.1
  · intro x
    change search.index x ≠ none ↔ x ∈ stackOf below ∨ x ∈ (search.components ++ [sorted]).flatten
    rw [hclosed, h.indexed, hstack, List.mem_append]
    tauto
  · exact h.fresh
  · exact h.inside
  · intro x hx hin
    rcases (hclosed x).mp hin with hin | hin
    · exact h.apart x (by rw [hstack]; exact List.mem_append_right _ hx) hin
    · exact hdisjoint x hin x hx rfl
  · intro x hx w hw
    refine (hclosed w).mpr ?_
    rcases (hclosed x).mp hx with hx | hx
    · exact Or.inl (h.closed x hx w hw)
    · exact (hedges x hx w hw).symm
  · change ((search.components ++ [sorted]).flatten).Nodup
    rw [List.flatten_append, List.flatten_cons, List.flatten_nil, List.append_nil,
      List.nodup_append]
    refine ⟨h.nodup, hperm.nodup_iff.mpr hnodup, ?_⟩
    rintro x hx y hy rfl
    refine h.apart x ?_ hx
    rw [hstack]
    exact List.mem_append_left _ ((hmem x).mp hy)
  · intro members hmembersMem
    rcases List.mem_append.mp hmembersMem with hold | hlast
    · exact h.component members hold
    · obtain rfl := List.mem_singleton.mp hlast
      refine ⟨?_, v, h.inside v ((h.indexed v).mpr (Or.inl h.vertex_mem)), fun w => ?_⟩
      · have hle := List.pairwise_insertionSort (· ≤ ·) (others ++ [v])
        have hdistinct : sorted.Pairwise (· ≠ ·) := hperm.nodup_iff.mpr hnodup
        exact (hle.and hdistinct).imp fun hboth => lt_of_le_of_ne hboth.1 hboth.2
      · rw [hmem, hmembers]
  · refine h.chained.2.mono (fun _ _ => rfl) (fun _ _ => rfl) ?_
    rintro low w (hw | ⟨hw, hnumber⟩)
    · exact Or.inl ((hclosed w).mpr (Or.inl hw))
    · rw [hstack] at hw
      rcases List.mem_append.mp hw with hw | hw
      · exact Or.inl ((hclosed w).mpr (Or.inr hw))
      · exact Or.inr ⟨hw, hnumber⟩

theorem Search.Invariant.merge {parent : Segment}
    (h : search.Invariant graph (⟨v, edge, others⟩ :: parent :: below))
    (hdone : (graph.of v)[edge]? = none) (hlow : search.low v < search.number v) :
    { search with
        call := (parent :: below).map fun segment => (segment.vertex, segment.edge)
        low := Function.update search.low parent.vertex
          (min (search.low parent.vertex) (search.low v)) :
      Search }.Invariant graph
        (⟨parent.vertex, parent.edge, (others ++ [v]) ++ parent.others⟩ :: below) := by
  have hchained := h.chained
  obtain ⟨hv, hp, hbelow⟩ := h.chained
  have hedge : v ∈ graph.of parent.vertex := hv.called parent rfl
  have hmerged : stackOf (⟨parent.vertex, parent.edge, (others ++ [v]) ++ parent.others⟩ :: below) =
      stackOf (⟨v, edge, others⟩ :: parent :: below) := by
    simp
  -- The low vertex lies below, and what lies below reaches the parent.
  obtain ⟨z, hz, hznumber, hzreach⟩ := hv.low_reached
  dsimp only at hznumber hzreach
  have hzbelow : z ∈ stackOf (parent :: below) := by
    rw [stackOf_cons, List.mem_append, List.mem_cons] at hz
    rcases hz with hz | rfl | hz
    · have := h.above_lt hz
      omega
    · omega
    · exact hz
  have hback : graph.Mutual parent.vertex v :=
    ⟨.single hedge, hzreach.trans (Search.Chained.reaches h.chained.2 hzbelow)⟩
  have hsame : Function.update search.low parent.vertex
      (min (search.low parent.vertex) (search.low v)) parent.vertex =
        min (search.low parent.vertex) (search.low v) := Function.update_self ..
  constructor
  · rfl
  · exact h.stack.trans hmerged.symm
  · exact h.onStack
  · exact h.ordered
  · exact h.indexed
  · exact h.fresh
  · exact h.inside
  · exact h.apart
  · exact h.closed
  · exact h.nodup
  · exact h.component
  · refine ⟨?_, hbelow.mono (fun segment hmem => ?_) (fun _ _ => rfl) fun _ _ hs => hs⟩
    · constructor
      · exact hp.called
      · intro x hx
        rcases List.mem_append.mp hx with hx | hx
        · exact hback.trans (hv.mutual_vertices x hx)
        · exact hp.near x hx
      · intro x hx w hw
        change search.Settled (Function.update search.low parent.vertex
          (min (search.low parent.vertex) (search.low v)) parent.vertex) w
        rw [hsame]
        rcases List.mem_append.mp hx with hx | hx
        · exact (hv.vertices hdone x hx w hw).mono (Nat.min_le_right ..)
        · exact (hp.others x hx w hw).mono (Nat.min_le_left ..)
      · intro w hw
        change search.Settled (Function.update search.low parent.vertex
          (min (search.low parent.vertex) (search.low v)) parent.vertex) w
        rw [hsame]
        exact (hp.explored w hw).mono (Nat.min_le_left ..)
      · exact hsame.le.trans ((Nat.min_le_left ..).trans hp.low_le)
      · change ∃ z ∈ _, search.number z = Function.update search.low parent.vertex
          (min (search.low parent.vertex) (search.low v)) parent.vertex ∧ _
        rw [hsame, hmerged]
        rcases Nat.le_total (search.low parent.vertex) (search.low v) with hle | hle
        · obtain ⟨y, hy, hynumber, hyreach⟩ := hp.low_reached
          rw [Nat.min_eq_left hle]
          refine ⟨y, ?_, hynumber, hyreach⟩
          rw [stackOf_cons]
          exact List.mem_append_right _ (List.mem_cons_of_mem _ hy)
        · rw [Nat.min_eq_right hle]
          exact ⟨z, hz, hznumber, hzreach.head hedge⟩
    · refine Function.update_of_ne ?_ ..
      intro heq
      have hordered := h.ordered
      rw [h.stack, stackOf_cons, stackOf_cons, List.pairwise_append, List.pairwise_cons,
        List.pairwise_append, List.pairwise_cons] at hordered
      have := hordered.2.1.2.2.1.1 _ (vertex_mem_stackOf hmem)
      rw [heq] at this
      exact Nat.lt_irrefl _ this

theorem Search.Invariant.leave (h : search.Invariant graph (⟨v, edge, others⟩ :: below))
    (hdone : (graph.of v)[edge]? = none) :
    ∃ segments, (search.leave v
      (below.map fun segment => (segment.vertex, segment.edge))).Invariant graph segments := by
  have hindex := h.index_eq h.vertex_mem
  have hle := h.chained.1.low_le
  rcases Nat.lt_or_eq_of_le hle with hlow | hlow
  · cases below with
    | nil =>
      -- The low of a root is its own number: nothing is open below it.
      obtain ⟨z, hz, hznumber, -⟩ := h.chained.1.low_reached
      rw [stackOf_cons, List.mem_append, List.mem_cons] at hz
      rcases hz with hz | rfl | hz
      · have := h.above_lt hz
        dsimp only at hznumber hlow
        omega
      · dsimp only at hznumber hlow
        omega
      · cases hz
    | cons parent below =>
      refine ⟨⟨parent.vertex, parent.edge, (others ++ [v]) ++ parent.others⟩ :: below, ?_⟩
      have hmerge := h.merge hdone hlow
      have hne : v ≠ parent.vertex := Ne.symm (h.below_ne (List.mem_cons_self ..))
      simp only [Search.leave, List.map_cons]
      rw [if_neg]
      · exact hmerge
      · rw [Function.update_of_ne hne, hindex, Option.some.injEq]
        exact hlow.ne
  · have hsame : search.leave v (below.map fun segment => (segment.vertex, segment.edge)) =
        { search with call := below.map fun segment => (segment.vertex, segment.edge) :
          Search }.close v := by
      cases below with
      | nil =>
        simp only [Search.leave, List.map_nil]
        rw [if_pos (by rw [hindex]; exact congrArg some hlow)]
      | cons parent below =>
        have hparent : search.low parent.vertex ≤ search.low v := by
          have := h.chained.2.1.low_le
          have := h.below_lt (vertex_mem_stackOf (List.mem_cons_self ..) :
            parent.vertex ∈ stackOf (parent :: below))
          dsimp only at hlow
          omega
        simp only [Search.leave, List.map_cons]
        rw [Nat.min_eq_left hparent, Function.update_eq_self,
          if_pos (by rw [hindex]; exact congrArg some hlow)]
    exact ⟨below, hsame ▸ h.close hdone hlow⟩

theorem Search.Invariant.step {segments : List Segment} (h : search.Invariant graph segments) :
    ∃ segments, (search.step graph).Invariant graph segments := by
  cases segments with
  | nil =>
    have hcall : search.call = [] := h.call
    refine ⟨[], ?_⟩
    unfold Search.step
    rwa [hcall]
  | cons segment below =>
    obtain ⟨v, edge, others⟩ := segment
    have hcall : search.call =
        (v, edge) :: below.map fun segment => (segment.vertex, segment.edge) := h.call
    unfold Search.step
    rw [hcall]
    dsimp only
    cases hedge : (graph.of v)[edge]? with
    | none => exact h.leave hedge
    | some w =>
      dsimp only
      cases hindex : search.index w with
      | none => exact ⟨_, h.meet_unseen hedge hindex⟩
      | some number =>
        dsimp only
        have hseen := (h.indexed w).mp (by rw [hindex]; exact Option.some_ne_none _)
        split
        · rename_i hopen
          have hnumber : search.number w = number := by rw [Search.number, hindex]; rfl
          exact ⟨_, hnumber ▸ h.meet_open hedge ((h.onStack w).mp hopen)⟩
        · rename_i hopen
          have hclosed := hseen.resolve_left fun hmem => hopen ((h.onStack w).mpr hmem)
          exact ⟨_, h.meet_closed hedge hclosed⟩

theorem unseen_update (index : Nat → Option Nat) (number : Nat) (hw : index w = none)
    (hinside : w < graph.count) :
    graph.unseen (Function.update index w (some number)) + ((graph.of w).length + 1) =
      graph.unseen index := by
  have hfilter : ((Finset.range graph.count).filter fun v =>
      Function.update index w (some number) v = none) =
      ((Finset.range graph.count).filter fun v => index v = none).erase w := by
    ext v
    simp only [Finset.mem_filter, Finset.mem_erase, Finset.mem_range]
    by_cases hv : v = w
    · simp [hv]
    · simp [hv]
  unfold Successors.unseen
  rw [hfilter]
  exact Finset.sum_erase_add _ _ (Finset.mem_filter.mpr ⟨Finset.mem_range.mpr hinside, hw⟩)

theorem Search.leave_frame (search : Search) (v : Nat) (rest : List (Nat × Nat)) :
    (search.leave v rest).call = rest ∧ (search.leave v rest).index = search.index := by
  cases rest with
  | nil =>
    simp only [Search.leave]
    split
    · exact ⟨rfl, rfl⟩
    · exact ⟨rfl, rfl⟩
  | cons frame rest =>
    obtain ⟨parent, position⟩ := frame
    simp only [Search.leave]
    split
    · exact ⟨rfl, rfl⟩
    · exact ⟨rfl, rfl⟩

theorem Search.Invariant.ahead_step
    (h : search.Invariant graph segments) (hcall : search.call ≠ []) :
    (search.step graph).ahead graph < search.ahead graph := by
  cases segments with
  | nil => exact absurd h.call hcall
  | cons segment below =>
    obtain ⟨v, edge, others⟩ := segment
    have hcall : search.call =
        (v, edge) :: below.map fun segment => (segment.vertex, segment.edge) := h.call
    generalize below.map (fun segment => (segment.vertex, segment.edge)) = rest at hcall
    have hahead : search.ahead graph = graph.unseen search.index +
          ((graph.of v).length - edge + 1 +
            (rest.map fun frame => (graph.of frame.1).length - frame.2 + 1).sum) := by
      rw [Search.ahead, hcall, List.map_cons, List.sum_cons]
    rw [hahead]
    unfold Search.step
    rw [hcall]
    dsimp only
    cases hedge : (graph.of v)[edge]? with
    | none =>
      obtain ⟨hrest, hindex⟩ := search.leave_frame v rest
      dsimp only
      rw [Search.ahead, hrest, hindex]
      omega
    | some w =>
      obtain ⟨hlt, -⟩ := List.getElem?_eq_some_iff.mp hedge
      dsimp only
      cases hindex : search.index w with
      | none =>
        have hsum := @unseen_update graph w search.index search.nextIndex hindex
          (graph.of_mem (List.mem_of_getElem? hedge)).2
        simp only [Search.ahead, Search.enter, List.map_cons, List.sum_cons]
        omega
      | some number =>
        dsimp only
        split
        · simp only [Search.ahead, List.map_cons, List.sum_cons]
          omega
        · simp only [Search.ahead, List.map_cons, List.sum_cons]
          omega

theorem Search.Invariant.calls (h : search.Invariant graph segments)
    {fuel : Nat} (hfuel : search.ahead graph ≤ fuel) :
    (search.calls graph fuel).Invariant graph [] := by
  induction fuel generalizing search segments with
  | zero =>
    cases segments with
    | nil => exact h
    | cons segment below =>
      have hcall := h.call
      rw [Search.ahead, hcall, List.map_cons, List.map_cons, List.sum_cons] at hfuel
      omega
  | succ fuel ih =>
    unfold Search.calls
    split
    · rename_i hcall
      cases segments with
      | nil => exact h
      | cons segment below =>
        have := h.call
        rw [hcall] at this
        cases this
    · rename_i hcall
      obtain ⟨segments, hstep⟩ := h.step
      have := h.ahead_step hcall
      exact ih hstep (by omega)

theorem Search.Invariant.start : Search.start.Invariant graph [] where
  call := rfl
  stack := rfl
  onStack v := by simp [Search.start]
  ordered := .nil
  indexed v := by simp [Search.start, Search.Closed]
  fresh v number heq := by cases heq
  inside v hv := absurd rfl hv
  apart v hv := by cases hv
  closed v hv := by cases hv
  nodup := .nil
  component members hmem := by cases hmem
  chained := trivial

theorem Search.Invariant.visit (h : search.Invariant graph []) {root : Nat}
    (hroot : root < graph.count) :
    (search.visit graph root).Invariant graph [] := by
  unfold Search.visit
  split
  · rename_i hunseen
    refine (h.enter_root hunseen hroot).calls ?_
    have hcall : search.call = [] := h.call
    have hsum := @unseen_update graph root search.index search.nextIndex hunseen hroot
    have hle : graph.unseen search.index ≤ graph.turns :=
      Finset.sum_le_sum_of_subset (Finset.filter_subset _ _)
    simp only [Search.ahead, Search.enter, hcall, List.map_cons, List.map_nil, List.sum_cons,
      List.sum_nil]
    omega
  · exact h

theorem Search.index_enter (h : search.index z ≠ none ∨ z = w) :
    (search.enter w).index z ≠ none := by
  unfold Search.enter
  dsimp only
  by_cases hz : z = w
  · rw [hz, Function.update_self]
    exact Option.some_ne_none _
  · rw [Function.update_of_ne hz]
    exact h.resolve_right hz

theorem Search.index_step (h : search.index z ≠ none) :
    (search.step graph).index z ≠ none := by
  unfold Search.step
  split
  · exact h
  · rename_i v edge rest hcall
    split
    · split
      · exact Search.index_enter (Or.inl h)
      · split
        · exact h
        · exact h
    · rw [(search.leave_frame v rest).2]
      exact h

theorem Search.index_calls (fuel : Nat) (h : search.index z ≠ none) :
    (search.calls graph fuel).index z ≠ none := by
  induction fuel generalizing search with
  | zero => exact h
  | succ fuel ih =>
    unfold Search.calls
    split
    · exact h
    · exact ih (Search.index_step h)

theorem Search.index_visit {root : Nat} (h : search.index z ≠ none ∨ z = root) :
    (search.visit graph root).index z ≠ none := by
  unfold Search.visit
  split
  · exact Search.index_calls _ (Search.index_enter h)
  · rename_i hroot
    rcases h with h | rfl
    · exact h
    · exact hroot

end Turns

section Components

variable (graph : Successors)

theorem searchUpTo_spec {roots : Nat} (hroots : roots ≤ graph.count) :
    ((List.range roots).foldl (Search.visit graph) Search.start).Invariant graph [] ∧
      ∀ v < roots, ((List.range roots).foldl (Search.visit graph) Search.start).index v ≠ none := by
  induction roots with
  | zero => exact ⟨.start, fun v hv => absurd hv (Nat.not_lt_zero v)⟩
  | succ roots ih =>
    obtain ⟨hinvariant, hseen⟩ := ih (by omega)
    rw [List.range_succ, List.foldl_append, List.foldl_cons, List.foldl_nil]
    refine ⟨hinvariant.visit (by omega), fun v hv => Search.index_visit ?_⟩
    rcases Nat.lt_succ_iff_lt_or_eq.mp hv with hlt | heq
    · exact Or.inl (hseen v hlt)
    · exact Or.inr heq

/-- The components of a graph: each vertex in one, and each the vertices that reach one
another. -/
structure Components (components : List (List Nat)) : Prop where
  perm : components.flatten.Perm (List.range graph.count)
  component : ∀ members ∈ components, Search.Component graph members

theorem stronglyConnected_spec :
    (∀ roots ≤ graph.count,
        ((List.range roots).foldl (Search.visit graph) Search.start).call = []) ∧
      Components graph (stronglyConnected graph) := by
  refine ⟨fun roots hroots => (searchUpTo_spec graph hroots).1.call, ?_⟩
  obtain ⟨hinvariant, hseen⟩ := searchUpTo_spec graph (Nat.le_refl graph.count)
  refine ⟨(List.perm_ext_iff_of_nodup hinvariant.nodup List.nodup_range).mpr fun v => ?_,
    hinvariant.component⟩
  rw [List.mem_range]
  constructor
  · exact fun hv => hinvariant.inside v ((hinvariant.indexed v).mpr (Or.inr hv))
  · intro hv
    refine ((hinvariant.indexed v).mp (hseen v hv)).resolve_left ?_
    rw [hinvariant.stack]
    exact List.not_mem_nil

end Components

end VivaGenicam.Genapi
