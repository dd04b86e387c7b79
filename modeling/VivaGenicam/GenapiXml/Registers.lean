import VivaGenicam.GenapiXml.Numeric

/-!
The parsers of `Register`, of `StringReg` and `String`, and of `StructReg`,
whose entries each become an integer node over the one register.
-/

namespace VivaGenicam.GenapiXml

structure RegisterState where
  addressing : AddressingBuilder := {}
  access : AccessMode := .ro
  predicates : PredicateRefs := {}
  invalidators : List Text := []
  nodeMeta : NodeMetaBuilder := {}
deriving DecidableEq, Repr

namespace RegisterState

def readShared (s : RegisterState) (e : Element) (text : Text) : RegisterState :=
  match handlePredicateStart e text s.predicates with
  | some predicates => { s with predicates }
  | none =>
    match handleInvalidatorStart e text s.invalidators with
    | some invalidators => { s with invalidators }
    | none => { s with nodeMeta := s.nodeMeta.handleOrIgnore e text }

def readStart (name : Text) (e : Element) (text : Text) (s : RegisterState) :
    Except XmlError RegisterState :=
  match e.tag with
  | .accessMode => pure { s with access := AccessMode.parse text }
  | _ => do
    match ← handleAddressingStart name e text s.addressing with
    | some addressing => pure { s with addressing }
    | none => pure (s.readShared e text)

def readEmpty (e : Element) (s : RegisterState) : Except XmlError RegisterState := do
  match ← handleAddressingEmpty e s.addressing with
  | some addressing => pure { s with addressing }
  | none => pure { s with nodeMeta := s.nodeMeta.ignoreEmpty e }

end RegisterState

def parseRegister (attributes : List (String × Text)) (children : List Element) :
    Except XmlError RegisterDecl := do
  let name ← attributeValueRequired (lit "Register") attributes "Name"
  let s ← readChildren (RegisterState.readStart name) RegisterState.readEmpty {} children
  pure {
    name, nodeMeta := s.nodeMeta.build, addressing := s.addressing.build, access := s.access
    predicates := s.predicates, invalidators := s.invalidators }

/-- What a string's parser keeps beside the state of a register's. -/
structure StringState where
  register : RegisterState
  pvalue : Option Text := none
  value : Option Text := none
deriving DecidableEq, Repr

namespace StringState

def readStart (isRegister : Bool) (name : Text) (e : Element) (text : Text) (s : StringState) :
    Except XmlError StringState :=
  if e.tag = .pValue ∧ ¬isRegister then pure { s with pvalue := reference text s.pvalue }
  else if e.tag = .value ∧ ¬isRegister then pure { s with value := some text }
  else do pure { s with register := ← s.register.readStart name e text }

/-- `<Value/>` is an empty start value. -/
def readEmpty (isRegister : Bool) (e : Element) (s : StringState) : Except XmlError StringState :=
  if e.tag = .value ∧ ¬isRegister then pure { s with value := some [] }
  else do pure { s with register := ← s.register.readEmpty e }

def declare (s : StringState) (isRegister : Bool) (name : Text) : Except XmlError StringDecl :=
  let addressing :=
    if isRegister ∨ s.register.addressing.hasTerms then some s.register.addressing.build else none
  if addressing = none ∧ s.pvalue = none ∧ s.value = none then
    .error (.missing name "<Value> or <pValue>")
  else .ok {
    name, nodeMeta := s.register.nodeMeta.build, addressing, pvalue := s.pvalue
    value := s.value, access := s.register.access
    predicates := s.register.predicates, invalidators := s.register.invalidators }

end StringState

/-- Parse an element of tag `nodeName`: `StringReg` or `String`. -/
def parseString (nodeName : Text) (attributes : List (String × Text)) (children : List Element) :
    Except XmlError StringDecl := do
  let name ← attributeValueRequired nodeName attributes "Name"
  let isRegister : Bool := nodeName = lit "StringReg"
  let s ← readChildren (StringState.readStart isRegister name) (StringState.readEmpty isRegister)
    { register := { access := if isRegister then .ro else .rw } } children
  s.declare isRegister name

structure StructEntryData where
  name : Text
  bitfield : BitField
  access : Option AccessMode
  sign : Option Sign
  nodeMeta : NodeMetaBuilder
  invalidators : List Text
deriving DecidableEq, Repr

structure StructEntryState where
  lsb : Option Nat := none
  msb : Option Nat := none
  bit : Option Nat := none
  access : Option AccessMode := none
  sign : Option Sign := none
  byteOrder : ByteOrder
  nodeMeta : NodeMetaBuilder := {}
  invalidators : List Text := []
deriving DecidableEq, Repr

/-- `parse_u64(..)? as u16` -/
def parseU16 (text : Text) : Except XmlError Nat := (parseU64 text).map (· % 2 ^ 16)

namespace StructEntryState

def readStart (e : Element) (text : Text) (s : StructEntryState) :
    Except XmlError StructEntryState :=
  match e.tag with
  | .lsb | .lsbMixed => do pure { s with lsb := some (← parseU16 text) }
  | .msb | .msbMixed => do pure { s with msb := some (← parseU16 text) }
  | .bit => do pure { s with bit := some (← parseU16 text) }
  | .accessMode => pure { s with access := some (AccessMode.parse text) }
  | .sign => pure { s with sign := Sign.parse text }
  | .endianness | .endianess =>
    pure { s with byteOrder := (ByteOrder.parse text).getD s.byteOrder }
  | _ =>
    match handleInvalidatorStart e text s.invalidators with
    | some invalidators => pure { s with invalidators }
    | none => pure { s with nodeMeta := s.nodeMeta.handleOrIgnore e text }

def readEmpty (e : Element) (s : StructEntryState) : Except XmlError StructEntryState :=
  pure { s with nodeMeta := s.nodeMeta.ignoreEmpty e }

/-- The field of a `Bit`, or of `LSB` and `MSB` with either one larger; the
width is a 16-bit sum. -/
def field (s : StructEntryState) (name : Text) : Except XmlError BitField :=
  match s.bit, s.lsb, s.msb with
  | some single, _, _ => .ok { bitOffset := single, bitLength := 1, byteOrder := s.byteOrder }
  | none, some l, some m => .ok {
      bitOffset := min l m, bitLength := (max l m - min l m + 1) % 2 ^ 16
      byteOrder := s.byteOrder }
  | none, _, _ => .error (.missing name "<LSB> and <MSB>, or <Bit>")

end StructEntryState

def parseStructEntry (attributes : List (String × Text)) (children : List Element)
    (defaultByteOrder : ByteOrder) : Except XmlError StructEntryData := do
  let name ← attributeValueRequired (lit "StructEntry") attributes "Name"
  let s ← readChildren StructEntryState.readStart StructEntryState.readEmpty
    { byteOrder := defaultByteOrder } children
  let bitfield ← s.field name
  pure {
    name, bitfield, access := s.access, sign := s.sign, nodeMeta := s.nodeMeta
    invalidators := s.invalidators }

/-- The values a field of `bits` bits can hold. -/
def bitfieldRange (bits : Nat) (sign : Sign) : Int × Int :=
  let bits := max 1 (min bits 64)
  if sign.isSigned then
    if bits = 1 then (-1, 0) else (-2 ^ (bits - 1), 2 ^ (bits - 1) - 1)
  else if 63 ≤ bits then (0, 2 ^ 63 - 1)
  else (0, 2 ^ bits - 1)

/-- A child of a `StructReg`: only an entry has elements of its own. -/
inductive StructChild where
  | element (e : Element)
  | entry (attributes : List (String × Text)) (children : List Element)
deriving DecidableEq, Repr

structure StructState where
  terms : List AddressTerm := []
  port : Option Text := none
  length : Nat := 4
  access : AccessMode := .rw
  byteOrder : ByteOrder := .little
  sign : Sign := .unsigned
  invalidators : List Text := []
  cachable : Option CachingMode := none
  pollingTimeMs : Option Nat := none
  sharedMeta : NodeMetaBuilder := {}
  entries : List StructEntryData := []
deriving DecidableEq, Repr

namespace StructState

def readStart (e : Element) (text : Text) (s : StructState) : Except XmlError StructState :=
  match e.tag with
  | .address => do pure { s with terms := s.terms ++ [.fixed (← parseAddress text)] }
  | .pPort => pure { s with port := reference text s.port }
  | .pAddress =>
    pure { s with terms := s.terms ++ ((nonBlank text).map AddressTerm.node).toList }
  | .pIndex => do
    let offset ← indexOffset e
    pure { s with
      terms := s.terms ++ ((nonBlank text).map fun target => .index target offset).toList }
  | .intSwissKnife => do pure { s with terms := s.terms ++ [.node (← embeddedKnifeName e)] }
  | .length => do pure { s with length := (← parseU64 text) % 2 ^ 32 }
  | .accessMode => pure { s with access := AccessMode.parse text }
  | .sign => pure { s with sign := (Sign.parse text).getD s.sign }
  | .endianness | .endianess =>
    pure { s with byteOrder := (ByteOrder.parse text).getD s.byteOrder }
  | .cachable | .cacheable => pure { s with cachable := some (CachingMode.parse text) }
  | .pollingTime => pure { s with pollingTimeMs := parsePollingTime text }
  | _ =>
    match handleInvalidatorStart e text s.invalidators with
    | some invalidators => pure { s with invalidators }
    | none => pure { s with sharedMeta := s.sharedMeta.handleOrIgnore e text }

def readEmpty (e : Element) (s : StructState) : Except XmlError StructState :=
  match e.tag with
  | .pAddress =>
    pure { s with
      terms := s.terms ++
        (((attributeValue e.attributes "Name").bind nonBlank).map AddressTerm.node).toList }
  | .pIndex =>
    match (attributeValue e.attributes "Name").bind nonBlank with
    | some target => do
      let offset ← indexOffset e
      pure { s with terms := s.terms ++ [.index target offset] }
    | none => pure s
  | _ => pure { s with sharedMeta := s.sharedMeta.ignoreEmpty e }

def readChild (s : StructState) : StructChild → Except XmlError StructState
  | .element e =>
    match e.content with
    | some text => readStart e text s
    | none => readEmpty e s
  | .entry attributes children => do
    let entry ← parseStructEntry attributes children s.byteOrder
    pure { s with entries := s.entries ++ [entry] }

/-- The register's invalidators, then those the entry adds. -/
def joinInvalidators (shared own : List Text) : List Text :=
  own.foldl (fun joined provider =>
    if provider ∈ joined then joined else joined ++ [provider]) shared

def node (s : StructState) (addressing : Addressing) (entry : StructEntryData) : IntegerDecl :=
  let sign := entry.sign.getD s.sign
  let range := bitfieldRange entry.bitfield.bitLength sign
  let inherited := (entry.nodeMeta.inherit s.sharedMeta).build
  { name := entry.name
    nodeMeta := { inherited with
      cachable := inherited.cachable.or s.cachable
      pollingTimeMs := inherited.pollingTimeMs.or s.pollingTimeMs }
    addressing := some addressing
    len := s.length
    access := entry.access.getD s.access
    min := some range.1
    max := some range.2
    inc := none
    unit := none
    byteOrder := entry.bitfield.byteOrder
    bitfield := some entry.bitfield
    sign
    selected := []
    pvalue := none
    pMax := none
    pMin := none
    pInc := none
    value := none
    indexed := none
    predicates := {}
    invalidators := joinInvalidators s.invalidators entry.invalidators }

def declare (s : StructState) : Except XmlError (List IntegerDecl) :=
  if s.terms = [] then
    .error (.missing (lit "<StructReg>") "<Address>, <pAddress>, <IntSwissKnife> or <pIndex>")
  else
    let addressing : Addressing :=
      { terms := s.terms, len := s.length, port := s.port, pLength := none }
    .ok (s.entries.map (s.node addressing))

end StructState

/-- One integer node for each entry of a `StructReg`. -/
def parseStructReg (children : List StructChild) : Except XmlError (List IntegerDecl) := do
  let s ← children.foldlM StructState.readChild {}
  s.declare

end VivaGenicam.GenapiXml
