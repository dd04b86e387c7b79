import VivaGenicam.Genapi.Nodes
import VivaGenicam.Library.Closure

/-!
What a node map knows without asking a device: its nodes, which of them a change
makes stale, its ports, and how each node's value may be kept.
-/

namespace VivaGenicam.Genapi

open GenapiXml Library

def Node.addressing : Node → Option Addressing
  | .integer node => node.addressing
  | .float node => node.addressing
  | .enumeration node => node.addressing
  | .boolean node => node.addressing
  | .string node => node.addressing
  | .register node => some node.addressing
  | _ => none

/-- What a polling time polls: a value, a command until it is done, or an
enumeration while its entry clears itself. -/
inductive PollKind where
  | value
  | command
  | selfClearing
deriving DecidableEq

/-- Whether registers on the port read attached data and not the device. -/
def PortKind.holdsData : PortKind → Bool
  | .device => false
  | .chunk _ | .event _ => true

/-- The tables are keyed as the hash maps they stand for; `dependents` has a pair
for each node that is stale once another one changes. -/
structure NodeMap where
  nodes : List (Text × Node)
  dependents : List (Text × Text)
  ports : List (Text × PortKind)
  modes : List (Text × CachingMode)
  viaPolled : List Text
  polled : List (Text × PollKind × Nat)
  named : ∀ entry ∈ nodes, entry.2.name = entry.1
  linked : ∀ entry ∈ nodes, ∀ port kind, (entry.2.addressing.bind (·.port)) = some port →
    ports.lookup port = some kind → kind.holdsData → (port, entry.1) ∈ dependents

/-- Each register on a chunk or event port depends on the port. -/
def linkPortDependents (nodes : List (Text × Node)) (ports : List (Text × PortKind)) :
    List (Text × Text) :=
  nodes.filterMap fun entry => do
    let port ← entry.2.addressing.bind (·.port)
    if ((ports.lookup port).map PortKind.holdsData).getD false then some (port, entry.1) else none

theorem mem_linkPortDependents {nodes : List (Text × Node)} {ports : List (Text × PortKind)}
    {entry : Text × Node} (hentry : entry ∈ nodes) {port : Text} {kind : PortKind}
    (hport : entry.2.addressing.bind (·.port) = some port) (hkind : ports.lookup port = some kind)
    (hdata : kind.holdsData) : (port, entry.1) ∈ linkPortDependents nodes ports := by
  apply List.mem_filterMap.mpr
  refine ⟨entry, hentry, ?_⟩
  simp [hport, hkind, hdata]

namespace NodeMap

/-- A map of nodes that depend on one another as `declared`, and on their ports. -/
def ofNodes (nodes : List (Text × Node)) (named : ∀ entry ∈ nodes, entry.2.name = entry.1)
    (declared : List (Text × Text)) (ports : List (Text × PortKind))
    (modes : List (Text × CachingMode)) (viaPolled : List Text)
    (polled : List (Text × PollKind × Nat)) : NodeMap where
  nodes
  dependents := declared ++ linkPortDependents nodes ports
  ports
  modes
  viaPolled
  polled
  named
  linked _ hentry _ _ hport hkind hdata :=
    List.mem_append_right _ (mem_linkPortDependents hentry hport hkind hdata)

variable (map : NodeMap)

def node (name : Text) : Option Node := map.nodes.lookup name

/-- The nodes that a change of `name` makes stale. -/
def dependentsOf (name : Text) : List Text :=
  (map.dependents.filter (·.1 = name)).map (·.2)

/-- The nodes that `name` may take its value from. -/
def providersOf (name : Text) : List Text :=
  ((map.node name).map Node.valueProviders).getD []

/-- `start` followed by every node it may take its value from, each once. -/
def valueReach (start : Text) : List Text :=
  Closure.reach Closure.queue map.providersOf (map.nodes.map (·.1)) [start]

/-- What depends on `name`, directly or through other nodes. -/
def touchedBy (name : Text) : List Text :=
  Closure.reach Closure.stack map.dependentsOf (map.dependents.map (·.1)) (map.dependentsOf name)

/-- `chain`, which ends with `current`, followed by what `current` delegates to. -/
def valueChainFrom : Nat → List Text → Text → List Text
  | 0, chain, _ => chain
  | fuel + 1, chain, current =>
    match (map.node current).bind Node.valueProvider with
    | some next => if next ∈ chain then chain else valueChainFrom fuel (chain ++ [next]) next
    | none => chain

/-- A name is added only when the last one is a node, so the nodes bound the chain. -/
def valueChain (start : Text) : List Text :=
  map.valueChainFrom (map.nodes.length + 1) [start] start

def imposedAccess (name : Text) : Option AccessMode :=
  (map.node name).bind (·.nodeMeta.imposedAccess)

def declaresWriteOnly (name : Text) : Bool :=
  match map.node name with
  | some node => node.accessMode = some .wo ∨ node.nodeMeta.imposedAccess = some .wo
  | none => false

def mayCache (name : Text) : Bool :=
  map.modes.lookup name ≠ some .noCache ∧ name ∉ map.viaPolled

/-- Only a node that no mode but `WriteThrough` bears on keeps what is written. -/
def keepsWritten (name : Text) : Bool :=
  map.modes.lookup name = none ∧ name ∉ map.viaPolled

section

variable (name : Text)

def getIntegerNode : Except GenApiError IntegerNode :=
  match map.node name with
  | some (.integer node) => .ok node
  | some other => .error (.type name other.kindName "an Integer")
  | none => .error (.nodeNotFound name)

def getFloatNode : Except GenApiError FloatNode :=
  match map.node name with
  | some (.float node) => .ok node
  | some other => .error (.type name other.kindName "a Float")
  | none => .error (.nodeNotFound name)

def getEnumNode : Except GenApiError EnumNode :=
  match map.node name with
  | some (.enumeration node) => .ok node
  | some other => .error (.type name other.kindName "an Enumeration")
  | none => .error (.nodeNotFound name)

def getBoolNode : Except GenApiError BooleanNode :=
  match map.node name with
  | some (.boolean node) => .ok node
  | some other => .error (.type name other.kindName "a Boolean")
  | none => .error (.nodeNotFound name)

def getCommandNode : Except GenApiError CommandNode :=
  match map.node name with
  | some (.command node) => .ok node
  | some other => .error (.type name other.kindName "a Command")
  | none => .error (.nodeNotFound name)

def getConverterNode : Except GenApiError ConverterNode :=
  match map.node name with
  | some (.converter node) => .ok node
  | some other => .error (.type name other.kindName "a Converter")
  | none => .error (.nodeNotFound name)

def getIntConverterNode : Except GenApiError IntConverterNode :=
  match map.node name with
  | some (.intConverter node) => .ok node
  | some other => .error (.type name other.kindName "an IntConverter")
  | none => .error (.nodeNotFound name)

def getStringNode : Except GenApiError StringNode :=
  match map.node name with
  | some (.string node) => .ok node
  | some other => .error (.type name other.kindName "a String")
  | none => .error (.nodeNotFound name)

def getRegisterNode : Except GenApiError RegisterNode :=
  match map.node name with
  | some (.register node) => .ok node
  | some other => .error (.type name other.kindName "a Register")
  | none => .error (.nodeNotFound name)

def predicateRefs : Except GenApiError PredicateRefs :=
  match map.node name with
  | some node => .ok node.predicates
  | none => .error (.nodeNotFound name)

end

def ensureNotImposed (name : Text) (forbidden : AccessMode) : Except GenApiError Unit :=
  if map.imposedAccess name = some forbidden then
    .error (.access name (if forbidden = .wo then .read else .write))
  else .ok ()

def ensureReadableNow (access : AccessMode) (name : Text) : Except GenApiError Unit :=
  if access = .wo ∨ map.imposedAccess name = some .wo then .error (.access name .read)
  else .ok ()

/-- The port a register is on. -/
inductive Route where
  | device
  | chunk (port : Text) (id : Nat)
  | event (port : Text) (id : Nat)
deriving DecidableEq

/-- `Device` need not be declared. -/
def route (name : Text) (addressing : Addressing) : Except GenApiError Route :=
  match addressing.port with
  | none => .ok .device
  | some port =>
    match map.ports.lookup port with
    | some .device => .ok .device
    | some (.chunk chunkId) => .ok (.chunk port chunkId)
    | some (.event eventId) => .ok (.event port eventId)
    | none =>
      if toAsciiLower port = lit "device" then .ok .device else .error (.unknownPort name port)

variable {map}

theorem name_of_node {name : Text} {node : Node} (h : map.node name = some node) :
    node.name = name :=
  map.named (name, node) (List.lookup_eq_some_iff.mp h |>.elim fun _ ⟨_, hmem, _⟩ => by
    rw [hmem]; simp)

theorem mem_nodes_of_node {name : Text} {node : Node} (h : map.node name = some node) :
    (name, node) ∈ map.nodes := by
  obtain ⟨l₁, l₂, hnodes, -⟩ := List.lookup_eq_some_iff.mp h
  rw [hnodes]
  simp

theorem node_of_getIntegerNode {name : Text} {node : IntegerNode} (h : map.getIntegerNode name = .ok node) :
    map.node name = some (.integer node) := by
  unfold getIntegerNode at h
  split at h <;> cases h
  assumption

theorem node_of_getFloatNode {name : Text} {node : FloatNode} (h : map.getFloatNode name = .ok node) :
    map.node name = some (.float node) := by
  unfold getFloatNode at h
  split at h <;> cases h
  assumption

theorem node_of_getEnumNode {name : Text} {node : EnumNode} (h : map.getEnumNode name = .ok node) :
    map.node name = some (.enumeration node) := by
  unfold getEnumNode at h
  split at h <;> cases h
  assumption

theorem node_of_getBoolNode {name : Text} {node : BooleanNode} (h : map.getBoolNode name = .ok node) :
    map.node name = some (.boolean node) := by
  unfold getBoolNode at h
  split at h <;> cases h
  assumption

theorem node_of_getCommandNode {name : Text} {node : CommandNode} (h : map.getCommandNode name = .ok node) :
    map.node name = some (.command node) := by
  unfold getCommandNode at h
  split at h <;> cases h
  assumption

theorem node_of_getConverterNode {name : Text} {node : ConverterNode} (h : map.getConverterNode name = .ok node) :
    map.node name = some (.converter node) := by
  unfold getConverterNode at h
  split at h <;> cases h
  assumption

theorem node_of_getIntConverterNode {name : Text} {node : IntConverterNode} (h : map.getIntConverterNode name = .ok node) :
    map.node name = some (.intConverter node) := by
  unfold getIntConverterNode at h
  split at h <;> cases h
  assumption

theorem node_of_getStringNode {name : Text} {node : StringNode} (h : map.getStringNode name = .ok node) :
    map.node name = some (.string node) := by
  unfold getStringNode at h
  split at h <;> cases h
  assumption

theorem node_of_getRegisterNode {name : Text} {node : RegisterNode} (h : map.getRegisterNode name = .ok node) :
    map.node name = some (.register node) := by
  unfold getRegisterNode at h
  split at h <;> cases h
  assumption

theorem dependentsOf_eq_nil {name : Text} (h : name ∉ map.dependents.map (·.1)) :
    map.dependentsOf name = [] := by
  unfold dependentsOf
  rw [List.map_eq_nil_iff, List.filter_eq_nil_iff]
  intro entry hentry heq
  exact h (List.mem_map.mpr ⟨entry, hentry, by simpa using heq⟩)

theorem providersOf_eq_nil {name : Text} (h : name ∉ map.nodes.map (·.1)) :
    map.providersOf name = [] := by
  unfold providersOf
  cases hnode : map.node name with
  | none => rfl
  | some node => exact absurd (List.mem_map_of_mem (mem_nodes_of_node hnode)) h

theorem mem_valueReach_self (map : NodeMap) (name : Text) : name ∈ map.valueReach name := by
  unfold valueReach
  rw [Closure.mem_reach Closure.queue_pushes fun a ha => providersOf_eq_nil ha]
  exact ⟨name, List.mem_singleton_self name, .refl⟩

theorem mem_dependentsOf {name dependent : Text} :
    dependent ∈ map.dependentsOf name ↔ (name, dependent) ∈ map.dependents := by
  simp [dependentsOf]

theorem mem_touchedBy {name dependent : Text} :
    dependent ∈ map.touchedBy name ↔
      Relation.TransGen (fun a b => (a, b) ∈ map.dependents) name dependent := by
  unfold touchedBy
  rw [Closure.mem_reach Closure.stack_pushes fun a ha => dependentsOf_eq_nil ha,
    Relation.TransGen.head'_iff]
  unfold Closure.Reaches
  simp only [mem_dependentsOf]

theorem touched_of_route {name : Text} {node : Node} (h : map.node name = some node)
    {addressing : Addressing} (haddressing : node.addressing = some addressing) {port : Text}
    (hport : addressing.port = some port) {kind : PortKind}
    (hkind : map.ports.lookup port = some kind) (hdata : kind.holdsData) :
    name ∈ map.touchedBy port :=
  mem_touchedBy.mpr (.single (map.linked (name, node) (mem_nodes_of_node h) port kind
    (by simp [haddressing, hport]) hkind hdata))

end NodeMap

end VivaGenicam.Genapi
