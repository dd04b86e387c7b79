import VivaGenicam.Genapi.NodeMap
import VivaGenicam.Genapi.RestoreOrder
import Mathlib.Data.Char
import Mathlib.Data.List.Lex

/-!
The persistence plan: which features a configuration holds and the order a restore writes
them in. A write of one feature can change another through what depends on the nodes the
first is written through; the plan cuts these dependencies at the features it holds.
-/

namespace VivaGenicam.GenapiXml

/-! ## The nodes a declaration refers to -/

def AddressTerm.nodes : AddressTerm → List Text
  | .fixed _ => []
  | .node name => [name]
  | .index factor (.node stride) => [factor, stride]
  | .index factor _ => [factor]

def Addressing.referencedNodes (addressing : Addressing) : List Text :=
  addressing.terms.flatMap AddressTerm.nodes ++ addressing.pLength.toList

def PredicateRefs.references (predicates : PredicateRefs) : List Text :=
  predicates.pIsImplemented.toList ++ predicates.pIsAvailable.toList ++
    predicates.pIsLocked.toList

def IndexedValue.referencedNodes {α : Type} (table : IndexedValue α) : List Text :=
  table.index :: table.valueNodes

end VivaGenicam.GenapiXml

namespace VivaGenicam.Genapi

open GenapiXml Library

def EnumValueSrc.node : EnumValueSrc → Option Text
  | .literal _ => none
  | .fromNode provider => some provider

def CommandValueSrc.node : CommandValueSrc → Option Text
  | .literal _ => none
  | .fromNode provider => some provider

/-- The nodes a kind of node reads beside its address and its predicates. -/
def Node.operands : Node → List Text
  | .integer node =>
    node.pvalue.toList ++ node.pMin.toList ++ node.pMax.toList ++ node.pInc.toList ++
      (node.indexed.map IndexedValue.referencedNodes).getD []
  | .float node =>
    node.pvalue.toList ++ node.pMin.toList ++ node.pMax.toList ++
      (node.indexed.map IndexedValue.referencedNodes).getD []
  | .enumeration node =>
    node.pvalue.toList ++ node.entries.flatMap fun entry =>
      entry.value.node.toList ++ entry.predicates.references
  | .boolean node => node.pvalue.toList
  | .command node => node.pvalue.toList ++ node.commandValue.node.toList
  | .category _ => []
  | .swissKnife node => node.vars.map (·.provider)
  | .converter node => (node.varsTo ++ node.varsFrom).map (·.provider) ++ [node.pValue]
  | .intConverter node => (node.varsTo ++ node.varsFrom).map (·.provider) ++ [node.pValue]
  | .string node => node.pvalue.toList
  | .register _ => []

/-- A node that was built, with the `<pInvalidator>` nodes its declaration named. -/
structure Built where
  node : Node
  invalidators : List Text

/-- What `build_node` registers: the node is stale once one of these changes, and what it
selects is once the node does. -/
def Built.dependents (built : Built) : List (Text × Text) :=
  ((built.node.addressing.map Addressing.referencedNodes).getD [] ++ built.node.operands ++
      built.node.predicates.references ++ built.invalidators).map (·, built.node.name) ++
    built.node.selected.map (built.node.name, ·)

/-- The nodes by name: in the order their names first come up, and each as built last. -/
def nodesOf (built : List Built) : List (Text × Node) :=
  (built.map (·.node.name)).eraseDups.filterMap fun name =>
    (built.reverse.find? fun entry => entry.node.name = name).map fun entry => (name, entry.node)

variable (built : List Built)

theorem nodesOf_named : ∀ entry ∈ nodesOf built, entry.2.name = entry.1 := by
  intro entry hentry
  obtain ⟨name, -, hfound⟩ := List.mem_filterMap.mp hentry
  obtain ⟨found, hfind, rfl⟩ := Option.map_eq_some_iff.mp hfound
  simpa using List.find?_some hfind

namespace NodeMap

/-- Each selector is linked to the nodes behind what it selects. -/
def selectedLinks (map : NodeMap) : List (Text × Text) :=
  map.nodes.flatMap fun entry => entry.2.selected.flatMap fun feature =>
    match map.node feature with
    | some (.command _) => []
    | _ => ((map.valueReach feature).drop 1).map (entry.2.name, ·)

def ofBuilt (built : List Built) (ports : List (Text × PortKind))
    (modes : List (Text × CachingMode)) (viaPolled : List Text)
    (polled : List (Text × PollKind × Nat)) : NodeMap :=
  let registered := built.flatMap Built.dependents
  let unlinked := ofNodes (nodesOf built) (nodesOf_named built) registered ports modes viaPolled
    polled
  ofNodes (nodesOf built) (nodesOf_named built) (registered ++ unlinked.selectedLinks) ports modes
    viaPolled polled

variable (map : NodeMap)

def nodeNames : List Text := map.nodes.map (·.1)

/-- The nodes whose value or state may change when `name` is written. -/
def invalidatedBy (name : Text) : List Text :=
  if map.node name = none then []
  else
    ((Closure.reach Closure.stack map.dependentsOf (map.dependents.map (·.1))
      (map.valueReach name)).filter (· ≠ name)).insertionSort (· ≤ ·)

end NodeMap

def Node.persists (node : Node) : Bool :=
  node.nodeMeta.streamable && match node with
    | .category _ | .command _ => false
    | _ => true

namespace NodeMap

variable (map : NodeMap)

/-- The features in the plan, in document order. -/
def planNames : List Text :=
  map.nodeNames.filter fun name => ((map.node name).map Node.persists).getD false

/-- What a write of `name` can change up to the next planned features. -/
def planReach (name : Text) : List Text :=
  Closure.reach Closure.stack
    (fun current => (map.dependentsOf current).filter (· ∉ map.planNames))
    (map.dependents.map (·.1)) (map.valueReach name)

/-- For each planned feature the planned ones that its write can change. -/
def planSuccessors : Successors where
  targets := map.planNames.mapIdx fun p name =>
    (List.range map.planNames.length).filter fun f =>
      f ≠ p ∧ ∃ current ∈ map.planReach name, map.planNames.getD f [] ∈ map.dependentsOf current
  ascending row hrow := by
    obtain ⟨p, hp, rfl⟩ := List.mem_mapIdx.mp hrow
    exact List.pairwise_lt_range.filter _
  inside row hrow f hf := by
    obtain ⟨p, hp, rfl⟩ := List.mem_mapIdx.mp hrow
    rw [List.length_mapIdx]
    exact List.mem_range.mp (List.mem_filter.mp hf).1

/-- The nodes whose `<pSelected>` names `name`, in document order. -/
def selectorsOf (name : Text) : List Text :=
  map.nodeNames.filter fun candidate => name ∈ ((map.node candidate).map (·.selected)).getD []

def selectedBy (name : Text) : List Text := ((map.node name).map (·.selected)).getD []

/-- Whether one node selects another, directly or through others. -/
def selects (outer inner : Text) : Bool :=
  (Closure.reach Closure.stack map.selectedBy map.nodeNames [outer]).any fun current =>
    inner ∈ map.selectedBy current

/-- The selectors of a feature and theirs in turn, a selector before those it selects. -/
def selectorsOutermostFirst (name : Text) : List Text :=
  let found := Closure.reach Closure.stack
    (fun selector => (map.selectorsOf selector).filter (· ≠ name))
    (map.nodes.flatMap fun entry => entry.2.selected) ((map.selectorsOf name).filter (· ≠ name))
  let selectors := map.nodeNames.filter (· ∈ found)
  let depth (selector : Text) : Nat :=
    (selectors.filter fun outer => outer ≠ selector ∧ map.selects outer selector).length
  selectors.insertionSort fun a b => depth a ≤ depth b

structure PlannedFeature where
  name : Text
  selectors : List Text
  after : List Text

def persistencePlan : List PlannedFeature :=
  (restoreOrder map.planSuccessors).map fun i =>
    { name := map.planNames.getD i []
      selectors := map.selectorsOutermostFirst (map.planNames.getD i [])
      after := ((List.range map.planNames.length).filter fun p =>
        i ∈ map.planSuccessors.of p).map fun p => map.planNames.getD p [] }

/-- What depends on a node, directly or through others. -/
def Stale (name dependent : Text) : Prop :=
  Relation.ReflTransGen (fun a b => (a, b) ∈ map.dependents) name dependent

variable {map} {name : Text}

theorem mem_invalidatedBy {f : Text} :
    f ∈ map.invalidatedBy name ↔ map.node name ≠ none ∧ f ≠ name ∧
      ∃ reached ∈ map.valueReach name, map.Stale reached f := by
  unfold invalidatedBy
  split
  · rename_i hnone
    simp [hnone]
  · rename_i hsome
    rw [List.mem_insertionSort, List.mem_filter, decide_eq_true_iff,
      Closure.mem_reach Closure.stack_pushes fun a ha => dependentsOf_eq_nil ha]
    unfold Closure.Reaches Stale
    simp only [mem_dependentsOf, hsome, ne_eq, not_false_eq_true, true_and]
    exact and_comm

/-- Each node is stale once one it may take its value from changes. -/
def ValueLinked (map : NodeMap) : Prop :=
  ∀ name, ∀ provider ∈ map.providersOf name, (provider, name) ∈ map.dependents

theorem ValueLinked.stale (h : map.ValueLinked) {f : Text} (hf : f ∈ map.valueReach name) :
    map.Stale f name := by
  unfold valueReach at hf
  rw [Closure.mem_reach Closure.queue_pushes fun a ha => providersOf_eq_nil ha] at hf
  obtain ⟨start, hstart, hreach⟩ := hf
  obtain rfl := List.mem_singleton.mp hstart
  induction hreach with
  | refl => exact .refl
  | tail _ hprovider ih => exact .head (h _ _ hprovider) ih

theorem valueProviders_subset (node : Node) : node.valueProviders ⊆ node.operands := by
  intro provider hprovider
  unfold Node.valueProviders at hprovider
  cases node with
  | integer node =>
    simp only [Node.valueProvider, List.mem_append] at hprovider
    simp only [Node.operands, List.mem_append]
    rcases hprovider with hvalue | hindexed
    · exact Or.inl (Or.inl (Or.inl (Or.inl hvalue)))
    · cases htable : node.indexed with
      | none => simp [htable] at hindexed
      | some table =>
        rw [htable] at hindexed
        exact Or.inr (List.mem_cons_of_mem _ hindexed)
  | float node =>
    simp only [Node.valueProvider, List.mem_append] at hprovider
    simp only [Node.operands, List.mem_append]
    rcases hprovider with hvalue | hindexed
    · exact Or.inl (Or.inl (Or.inl hvalue))
    · cases htable : node.indexed with
      | none => simp [htable] at hindexed
      | some table =>
        rw [htable] at hindexed
        exact Or.inr (List.mem_cons_of_mem _ hindexed)
  | enumeration node =>
    simp only [Node.valueProvider, List.append_nil] at hprovider
    exact List.mem_append_left _ hprovider
  | boolean node => simpa [Node.valueProvider, Node.operands] using hprovider
  | command node =>
    simp only [Node.valueProvider, List.append_nil] at hprovider
    exact List.mem_append_left _ hprovider
  | category node => simp [Node.valueProvider] at hprovider
  | swissKnife node => simp [Node.valueProvider] at hprovider
  | converter node =>
    simp only [Node.valueProvider, List.append_nil] at hprovider
    exact List.mem_append_right _ hprovider
  | intConverter node =>
    simp only [Node.valueProvider, List.append_nil] at hprovider
    exact List.mem_append_right _ hprovider
  | string node => simpa [Node.valueProvider, Node.operands] using hprovider
  | register node => simp [Node.valueProvider] at hprovider

theorem node_ofBuilt {built : List Built} {ports : List (Text × PortKind)}
    {modes : List (Text × CachingMode)} {viaPolled : List Text}
    {polled : List (Text × PollKind × Nat)} {node : Node}
    (h : (ofBuilt built ports modes viaPolled polled).node name = some node) :
    node.name = name ∧ ∃ entry ∈ built, entry.node = node := by
  have hmem := mem_nodes_of_node h
  obtain ⟨key, -, hfound⟩ := List.mem_filterMap.mp hmem
  obtain ⟨found, hfind, heq⟩ := Option.map_eq_some_iff.mp hfound
  cases heq
  refine ⟨by simpa using List.find?_some hfind, found, ?_, rfl⟩
  exact List.mem_reverse.mp (List.mem_of_find?_eq_some hfind)

theorem valueLinked_ofBuilt (ports : List (Text × PortKind))
    (modes : List (Text × CachingMode)) (viaPolled : List Text)
    (polled : List (Text × PollKind × Nat)) :
    (ofBuilt built ports modes viaPolled polled).ValueLinked := by
  intro name provider hprovider
  unfold providersOf at hprovider
  cases hnode : (ofBuilt built ports modes viaPolled polled).node name with
  | none =>
    rw [hnode] at hprovider
    cases hprovider
  | some node =>
    rw [hnode] at hprovider
    obtain ⟨rfl, entry, hentry, rfl⟩ := node_ofBuilt hnode
    have hoperand := valueProviders_subset entry.node hprovider
    refine List.mem_append_left _ (List.mem_append_left _
      (List.mem_flatMap.mpr ⟨entry, hentry, List.mem_append_left _ ?_⟩))
    refine List.mem_map.mpr ⟨provider, ?_, rfl⟩
    simp only [List.mem_append, hoperand, or_true, true_or]

theorem nodup_eraseDups (names : List Text) : names.eraseDups.Nodup := by
  induction hlength : names.length using Nat.strong_induction_on generalizing names with
  | _ n ih =>
    cases names with
    | nil => simp
    | cons name rest =>
      rw [List.eraseDups_cons, List.nodup_cons]
      refine ⟨by simp [List.mem_eraseDups], ih _ ?_ _ rfl⟩
      have := List.length_filter_le (fun other => !other == name) rest
      rw [List.length_cons] at hlength
      omega

theorem nodeNames_nodup (ports : List (Text × PortKind))
    (modes : List (Text × CachingMode)) (viaPolled : List Text)
    (polled : List (Text × PollKind × Nat)) :
    (ofBuilt built ports modes viaPolled polled).nodeNames.Nodup := by
  have hkeys : (nodesOf built).map (·.1) =
      (built.map (·.node.name)).eraseDups.filter fun name =>
        (built.reverse.find? fun entry => entry.node.name = name).isSome := by
    unfold nodesOf
    induction (built.map (·.node.name)).eraseDups with
    | nil => rfl
    | cons name names ih =>
      cases hfind : built.reverse.find? fun entry => entry.node.name = name with
      | none => simp only [List.filterMap_cons, hfind, Option.map_none, ih, List.filter_cons,
          Option.isSome_none, Bool.false_eq_true, if_false]
      | some entry => simp only [List.filterMap_cons, hfind, Option.map_some, List.map_cons, ih,
          List.filter_cons, Option.isSome_some, if_true]
  change ((nodesOf built).map (·.1)).Nodup
  rw [hkeys]
  exact (nodup_eraseDups _).filter _

theorem getD_planNames {i : Nat} (hi : i < map.planNames.length) :
    map.planNames.getD i [] = map.planNames[i] := List.getD_eq_getElem _ _ hi

variable {f p : Nat}

theorem mem_planSuccessors : f ∈ map.planSuccessors.of p ↔
    p < map.planNames.length ∧ f < map.planNames.length ∧ f ≠ p ∧
      ∃ current ∈ map.planReach (map.planNames.getD p []),
        map.planNames.getD f [] ∈ map.dependentsOf current := by
  unfold Successors.of planSuccessors
  dsimp only
  rcases Nat.lt_or_ge p map.planNames.length with hp | hp
  · rw [List.getD_eq_getElem _ _ (by rwa [List.length_mapIdx]), List.getElem_mapIdx,
      List.mem_filter, List.mem_range, decide_eq_true_iff, getD_planNames hp]
    simp only [hp, true_and]
  · rw [List.getD_eq_default _ _ (by rwa [List.length_mapIdx])]
    simp [Nat.not_lt.mpr hp]

theorem mem_planReach {x : Text} : x ∈ map.planReach name ↔
    ∃ start ∈ map.valueReach name, Relation.ReflTransGen
      (fun a b => (a, b) ∈ map.dependents ∧ b ∉ map.planNames) start x := by
  unfold planReach
  rw [Closure.mem_reach Closure.stack_pushes fun a ha => by rw [dependentsOf_eq_nil ha]; rfl]
  unfold Closure.Reaches
  simp only [List.mem_filter, mem_dependentsOf, decide_eq_true_iff]

theorem reached_from_plan (hp : p < map.planNames.length) {start x : Text}
    (hstart : start ∈ map.valueReach (map.planNames.getD p [])) (h : map.Stale start x) :
    ∃ g < map.planNames.length, map.planSuccessors.Reaches p g ∧
      x ∈ map.planReach (map.planNames.getD g []) := by
  induction h with
  | refl => exact ⟨p, hp, .refl, mem_planReach.mpr ⟨start, hstart, .refl⟩⟩
  | @tail x y _ hdepends ih =>
    obtain ⟨g, hg, hreach, hx⟩ := ih
    by_cases hplanned : y ∈ map.planNames
    · obtain ⟨h, hlt, rfl⟩ := List.getElem_of_mem hplanned
      rw [← getD_planNames hlt] at hdepends ⊢
      have hself : map.planNames.getD h [] ∈ map.planReach (map.planNames.getD h []) :=
        mem_planReach.mpr ⟨_, map.mem_valueReach_self _, .refl⟩
      by_cases hsame : h = g
      · exact ⟨g, hg, hreach, hsame ▸ hself⟩
      · exact ⟨h, hlt, hreach.tail (mem_planSuccessors.mpr
          ⟨hg, hlt, hsame, x, hx, mem_dependentsOf.mpr hdepends⟩), hself⟩
    · obtain ⟨first, hfirst, hpath⟩ := mem_planReach.mp hx
      exact ⟨g, hg, hreach, mem_planReach.mpr ⟨first, hfirst, hpath.tail ⟨hdepends, hplanned⟩⟩⟩

theorem node_of_mem_planNames (h : name ∈ map.planNames) : map.node name ≠ none := by
  intro hnone
  have := (List.mem_filter.mp h).2
  rw [hnone] at this
  cases this

theorem getD_mem_planNames {i : Nat} (hi : i < map.planNames.length) :
    map.planNames.getD i [] ∈ map.planNames := by
  rw [getD_planNames hi]
  exact List.getElem_mem hi

theorem reaches_of_invalidated (hlinked : map.ValueLinked)
    (hp : p < map.planNames.length) (hf : f < map.planNames.length)
    (h : map.planNames.getD f [] ∈ map.invalidatedBy (map.planNames.getD p []))
    (hback : map.planNames.getD p [] ∉ map.invalidatedBy (map.planNames.getD f [])) :
    map.planSuccessors.Reaches p f := by
  obtain ⟨-, hne, start, hstart, hstale⟩ := mem_invalidatedBy.mp h
  rcases Relation.ReflTransGen.cases_tail hstale with rfl | ⟨x, hbefore, hdepends⟩
  · -- `f` is among the nodes that `p` takes its value from.
    refine absurd (mem_invalidatedBy.mpr ⟨node_of_mem_planNames (getD_mem_planNames hf),
      Ne.symm hne, _, map.mem_valueReach_self _, hlinked.stale hstart⟩) hback
  · obtain ⟨g, hg, hreach, hx⟩ := reached_from_plan hp hstart hbefore
    by_cases hsame : f = g
    · exact hsame ▸ hreach
    · exact hreach.tail (mem_planSuccessors.mpr
        ⟨hg, hf, hsame, x, hx, mem_dependentsOf.mpr hdepends⟩)

theorem invalidated_of_edge (hnodup : map.planNames.Nodup) (h : f ∈ map.planSuccessors.of p) :
    map.planNames.getD f [] ∈ map.invalidatedBy (map.planNames.getD p []) := by
  obtain ⟨hp, hf, hne, current, hcurrent, hdepends⟩ := mem_planSuccessors.mp h
  obtain ⟨start, hstart, hpath⟩ := mem_planReach.mp hcurrent
  refine mem_invalidatedBy.mpr ⟨node_of_mem_planNames (getD_mem_planNames hp), ?_, start, hstart,
    (Relation.ReflTransGen.mono (fun _ _ hstep => hstep.1) _ _ hpath).tail
      (mem_dependentsOf.mp hdepends)⟩
  rw [getD_planNames hf, getD_planNames hp]
  exact fun heq => hne ((List.Nodup.getElem_inj_iff hnodup).mp heq)

/-- Planned features lead from one to another, each written by what can change the next. -/
def LeadsTo (map : NodeMap) : Text → Text → Prop :=
  Relation.TransGen fun a b => b ∈ map.planNames ∧ b ∈ map.invalidatedBy a

theorem leadsTo_of_reaches (hnodup : map.planNames.Nodup) (hne : f ≠ p)
    (h : map.planSuccessors.Reaches p f) :
    map.LeadsTo (map.planNames.getD p []) (map.planNames.getD f []) := by
  have hstep : ∀ {a b}, b ∈ map.planSuccessors.of a →
      map.planNames.getD b [] ∈ map.planNames ∧
        map.planNames.getD b [] ∈ map.invalidatedBy (map.planNames.getD a []) := by
    intro a b hedge
    exact ⟨getD_mem_planNames (mem_planSuccessors.mp hedge).2.1, invalidated_of_edge hnodup hedge⟩
  rcases Relation.reflTransGen_iff_eq_or_transGen.mp h with heq | hpath
  · exact absurd heq hne
  · exact Relation.TransGen.lift (fun i => map.planNames.getD i []) (fun _ _ hedge => hstep hedge)
      _ _ hpath

theorem names_persistencePlan :
    map.persistencePlan.map (·.name) =
      (restoreOrder map.planSuccessors).map fun i => map.planNames.getD i [] := by
  unfold persistencePlan
  rw [List.map_map]
  rfl

theorem count_planSuccessors : map.planSuccessors.count = map.planNames.length :=
  List.length_mapIdx

theorem persistencePlan_perm : (map.persistencePlan.map (·.name)).Perm map.planNames := by
  have hperm := (restoreOrder_spec map.planSuccessors).2.perm.map fun i => map.planNames.getD i []
  rw [names_persistencePlan]
  refine hperm.trans (List.Perm.of_eq ?_)
  rw [count_planSuccessors]
  refine List.ext_getElem (by simp) fun i hi _ => ?_
  rw [List.getElem_map, List.getElem_range]
  exact List.getD_eq_getElem _ _ _

theorem persistencePlan_before (hlinked : map.ValueLinked) (hnodup : map.planNames.Nodup)
    {p f : Text} (hp : p ∈ map.planNames) (hf : f ∈ map.planNames)
    (h : f ∈ map.invalidatedBy p) (hback : ¬map.LeadsTo f p) :
    [p, f].Sublist (map.persistencePlan.map (·.name)) := by
  obtain ⟨i, hi, rfl⟩ := List.getElem_of_mem hp
  obtain ⟨j, hj, rfl⟩ := List.getElem_of_mem hf
  rw [← getD_planNames hi, ← getD_planNames hj] at h hback
  have hne : i ≠ j := by
    rintro rfl
    exact (mem_invalidatedBy.mp h).2.1 rfl
  have hnot : map.planNames.getD i [] ∉ map.invalidatedBy (map.planNames.getD j []) :=
    fun hin => hback (.single ⟨getD_mem_planNames hi, hin⟩)
  have hreach := reaches_of_invalidated hlinked hi hj h hnot
  have hback' : ¬map.planSuccessors.Reaches j i :=
    fun hin => hback (leadsTo_of_reaches hnodup hne hin)
  have hbefore := (restoreOrder_spec map.planSuccessors).2.before i j
    (count_planSuccessors.symm ▸ hi) hreach hback'
  rw [names_persistencePlan, ← getD_planNames hi, ← getD_planNames hj]
  exact hbefore.map fun i => map.planNames.getD i []

end NodeMap

/-- Dependencies and the order of a restore. On every graph the search ends with the strongly
connected components and the loop with an order that takes them one by one, each the ready
one that comes first; and in every map the plan puts a feature before those its write can
change, except where these lead back to it through features of the plan. -/
theorem restore_order_respects_dependencies :
    (∀ graph : Successors,
      (∀ roots ≤ graph.count,
        ((List.range roots).foldl (Search.visit graph) Search.start).call = []) ∧
      Components graph (stronglyConnected graph) ∧
      (emission (stronglyConnected graph) graph).ready = [] ∧
      Restores graph (restoreOrder graph)) ∧
    ∀ (built : List Built) (ports : List (Text × PortKind)) (modes : List (Text × CachingMode))
      (viaPolled : List Text) (polled : List (Text × PollKind × Nat)),
      let map := NodeMap.ofBuilt built ports modes viaPolled polled
      (map.persistencePlan.map (·.name)).Perm map.planNames ∧
      ∀ p ∈ map.planNames, ∀ f ∈ map.planNames, f ∈ map.invalidatedBy p → ¬map.LeadsTo f p →
        [p, f].Sublist (map.persistencePlan.map (·.name)) := by
  refine ⟨fun graph => ⟨(stronglyConnected_spec graph).1, (stronglyConnected_spec graph).2,
    (restoreOrder_spec graph).1, (restoreOrder_spec graph).2⟩, fun built ports modes viaPolled
      polled => ⟨NodeMap.persistencePlan_perm, fun p hp f hf h hback => ?_⟩⟩
  exact NodeMap.persistencePlan_before
    (NodeMap.valueLinked_ofBuilt built ports modes viaPolled polled)
    ((NodeMap.nodeNames_nodup built ports modes viaPolled polled).filter _) hp hf h hback

/-- An integer that takes its value from another node or holds one. -/
def counter (name : Text) (streamable : Bool) (pMin pvalue : Option Text) : Built where
  invalidators := []
  node := .integer {
    name
    nodeMeta :=
      { visibility := .beginner, description := none, tooltip := none, displayName := none,
        representation := none, imposedAccess := none, streamable, cachable := none,
        pollingTimeMs := none, ignored := [] }
    addressing := none
    access := .rw
    min := none
    max := none
    inc := none
    bitfield := none
    sign := .signed
    byteOrder := .little
    selected := []
    pvalue
    pMax := none
    pMin
    pInc := none
    value := if pvalue = none then some 0 else none
    indexed := none
    predicates := {} }

/-- `F` bounds `Q` and is bounded by `P`, which the counter behind `Q` bounds. -/
def boundedCounters : List Built :=
  [counter (lit "F") true (some (lit "P")) none,
    counter (lit "Q") true (some (lit "F")) (some (lit "R")),
    counter (lit "P") true (some (lit "R")) none,
    counter (lit "R") false none none]

/-- In a cycle of three a feature can follow one that its write changes, though the other's
write leaves it alone. -/
theorem restore_order_follows_the_document_in_cycles :
    ¬∀ (built : List Built) (ports : List (Text × PortKind)) (modes : List (Text × CachingMode))
      (viaPolled : List Text) (polled : List (Text × PollKind × Nat)),
      let map := NodeMap.ofBuilt built ports modes viaPolled polled
      ∀ p ∈ map.planNames, ∀ f ∈ map.planNames, f ∈ map.invalidatedBy p →
        p ∉ map.invalidatedBy f → [p, f].Sublist (map.persistencePlan.map (·.name)) := by
  intro hclaim
  have hbefore := hclaim boundedCounters [] [] [] [] (lit "P") (by decide) (lit "F") (by decide)
    (by decide) (by decide)
  have hplan : (NodeMap.ofBuilt boundedCounters [] [] [] []).persistencePlan.map (·.name) =
      [lit "F", lit "Q", lit "P"] := rfl
  rw [hplan] at hbefore
  exact absurd hbefore (by decide)

end VivaGenicam.Genapi
