import VivaGenicam.Genapi.Conversions
import VivaGenicam.GenapiXml.Decl

/-!
The nodes of a node map: what each kind declares, and the nodes it refers to.
-/

namespace VivaGenicam.GenapiXml

variable {α : Type}

def IndexedSrc.node : IndexedSrc α → Option Text
  | .literal _ => none
  | .fromNode node => some node

/-- The nodes an entry or the default reads, each once, in document order. -/
def IndexedValue.valueNodes (table : IndexedValue α) : List Text :=
  ((table.entries.map (·.value) ++ table.default.toList).filterMap IndexedSrc.node).eraseDups

end VivaGenicam.GenapiXml

namespace VivaGenicam.Genapi

open GenapiXml

inductive VarAttr where
  | value
  | min
  | max
  | inc
  | entry (name : Text)
deriving DecidableEq

/-- A variable a formula reads: its identifier, the node behind it, and which
property of that node it denotes. -/
structure FormulaVar where
  name : Text
  provider : Text
  attr : VarAttr
deriving DecidableEq

inductive SkOutput where
  | integer
  | float
deriving DecidableEq

/-- How a converter's value moves with the raw one. -/
inductive Slope where
  | increasing
  | decreasing
  | varying
  | automatic
deriving DecidableEq

inductive EnumValueSrc where
  | literal (value : Int64)
  | fromNode (provider : Text)
deriving DecidableEq

structure EnumEntryDecl where
  name : Text
  value : EnumValueSrc
  predicates : PredicateRefs
  isSelfClearing : Bool
deriving DecidableEq

inductive CommandValueSrc where
  | literal (value : Int64)
  | fromNode (provider : Text)
deriving DecidableEq

inductive PortKind where
  | device
  | chunk (chunkId : Nat)
  | event (eventId : Nat)
deriving DecidableEq

/-- A restriction parameter of a numeric node. -/
inductive Limit where
  | min
  | max
  | inc
deriving DecidableEq

structure IntegerNode where
  name : Text
  nodeMeta : NodeMeta
  addressing : Option Addressing
  access : AccessMode
  min : Option Int64
  max : Option Int64
  inc : Option Int64
  bitfield : Option BitField
  sign : Sign
  byteOrder : ByteOrder
  selected : List Text
  pvalue : Option Text
  pMax : Option Text
  pMin : Option Text
  pInc : Option Text
  value : Option Int64
  indexed : Option (IndexedValue Int64)
  predicates : PredicateRefs

structure FloatNode where
  name : Text
  nodeMeta : NodeMeta
  addressing : Option Addressing
  access : AccessMode
  min : Option Float
  max : Option Float
  scale : Option (Int64 × Int64)
  offset : Option Float
  pvalue : Option Text
  pMin : Option Text
  pMax : Option Text
  value : Option Float
  indexed : Option (IndexedValue Float)
  encoding : FloatEncoding
  byteOrder : ByteOrder
  predicates : PredicateRefs

structure EnumNode where
  name : Text
  nodeMeta : NodeMeta
  addressing : Option Addressing
  access : AccessMode
  pvalue : Option Text
  entries : List EnumEntryDecl
  selected : List Text
  value : Option Int64
  predicates : PredicateRefs

structure BooleanNode where
  name : Text
  nodeMeta : NodeMeta
  addressing : Option Addressing
  access : AccessMode
  bitfield : Option BitField
  pvalue : Option Text
  onValue : Option Int64
  offValue : Option Int64
  value : Option Int64
  predicates : PredicateRefs

structure SkNode where
  name : Text
  nodeMeta : NodeMeta
  output : SkOutput
  ast : AstNode
  vars : List FormulaVar
  predicates : PredicateRefs

structure CommandNode where
  name : Text
  nodeMeta : NodeMeta
  address : Option Nat
  len : Nat
  pvalue : Option Text
  commandValue : CommandValueSrc
  predicates : PredicateRefs

structure CategoryNode where
  name : Text
  nodeMeta : NodeMeta
  children : List Text
  predicates : PredicateRefs

/-- `astTo` goes from the feature's value to the raw one, on a write; `astFrom`
from the raw value to the feature's, on a read. -/
structure ConverterNode where
  name : Text
  nodeMeta : NodeMeta
  pValue : Text
  astTo : AstNode
  astFrom : AstNode
  varsTo : List FormulaVar
  varsFrom : List FormulaVar
  output : SkOutput
  slope : Slope
  predicates : PredicateRefs

structure IntConverterNode where
  name : Text
  nodeMeta : NodeMeta
  pValue : Text
  astTo : AstNode
  astFrom : AstNode
  varsTo : List FormulaVar
  varsFrom : List FormulaVar
  slope : Slope
  predicates : PredicateRefs

structure StringNode where
  name : Text
  nodeMeta : NodeMeta
  addressing : Option Addressing
  pvalue : Option Text
  value : Option Text
  access : AccessMode
  predicates : PredicateRefs

structure RegisterNode where
  name : Text
  nodeMeta : NodeMeta
  addressing : Addressing
  access : AccessMode
  predicates : PredicateRefs

inductive Node where
  | integer (node : IntegerNode)
  | float (node : FloatNode)
  | enumeration (node : EnumNode)
  | boolean (node : BooleanNode)
  | command (node : CommandNode)
  | category (node : CategoryNode)
  | swissKnife (node : SkNode)
  | converter (node : ConverterNode)
  | intConverter (node : IntConverterNode)
  | string (node : StringNode)
  | register (node : RegisterNode)

namespace Node

def kindName : Node → String
  | integer _ => "Integer"
  | float _ => "Float"
  | enumeration _ => "Enumeration"
  | boolean _ => "Boolean"
  | command _ => "Command"
  | category _ => "Category"
  | swissKnife _ => "SwissKnife"
  | converter _ => "Converter"
  | intConverter _ => "IntConverter"
  | string _ => "StringReg"
  | register _ => "Register"

/-- A converter declares none and is reported as `ro`. -/
def accessMode : Node → Option AccessMode
  | integer node => some node.access
  | float node => some node.access
  | enumeration node => some node.access
  | boolean node => some node.access
  | command _ => some .wo
  | category _ => none
  | swissKnife _ => some .ro
  | converter _ => some .ro
  | intConverter _ => some .ro
  | string node => some node.access
  | register node => some node.access

def name : Node → Text
  | integer node => node.name
  | float node => node.name
  | enumeration node => node.name
  | boolean node => node.name
  | command node => node.name
  | category node => node.name
  | swissKnife node => node.name
  | converter node => node.name
  | intConverter node => node.name
  | string node => node.name
  | register node => node.name

def nodeMeta : Node → NodeMeta
  | integer node => node.nodeMeta
  | float node => node.nodeMeta
  | enumeration node => node.nodeMeta
  | boolean node => node.nodeMeta
  | command node => node.nodeMeta
  | category node => node.nodeMeta
  | swissKnife node => node.nodeMeta
  | converter node => node.nodeMeta
  | intConverter node => node.nodeMeta
  | string node => node.nodeMeta
  | register node => node.nodeMeta

def predicates : Node → PredicateRefs
  | integer node => node.predicates
  | float node => node.predicates
  | enumeration node => node.predicates
  | boolean node => node.predicates
  | command node => node.predicates
  | category node => node.predicates
  | swissKnife node => node.predicates
  | converter node => node.predicates
  | intConverter node => node.predicates
  | string node => node.predicates
  | register node => node.predicates

def selected : Node → List Text
  | integer node => node.selected
  | enumeration node => node.selected
  | _ => []

/-- The node this one takes its value from, if it delegates. -/
def valueProvider : Node → Option Text
  | integer node => node.pvalue
  | float node => node.pvalue
  | enumeration node => node.pvalue
  | boolean node => node.pvalue
  | command node => node.pvalue
  | converter node => some node.pValue
  | intConverter node => some node.pValue
  | string node => node.pvalue
  | _ => none

end Node

/-- Every node `node` may take its value from. -/
def Node.valueProviders (node : Node) : List Text :=
  node.valueProvider.toList ++
    match node with
    | .integer node => (node.indexed.map IndexedValue.valueNodes).getD []
    | .float node => (node.indexed.map IndexedValue.valueNodes).getD []
    | _ => []

end VivaGenicam.Genapi
