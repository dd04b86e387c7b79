import VivaGenicam.GenapiXml.Elements

/-!
The parsers of `Integer`, `IntReg` and `MaskedIntReg`, and of `Float` and
`FloatReg`: one step for each child element, then the node they declare.
-/

namespace VivaGenicam.GenapiXml

/-- Read `children` one after the other. -/
def readChildren {σ : Type} (start : Element → Text → σ → Except XmlError σ)
    (empty : Element → σ → Except XmlError σ) (init : σ) (children : List Element) :
    Except XmlError σ :=
  children.foldlM (fun state e =>
    match e.content with
    | some text => start e text state
    | none => empty e state) init

/-- The address and length a node declares as attributes of its own. -/
def attributeAddressing (name : Text) (attributes : List (String × Text)) :
    Except XmlError AddressingBuilder := do
  let a ← match attributeValue attributes "Address" with
    | some addr => (parseAddress addr).map (AddressingBuilder.pushFixedAddress {})
    | none => pure {}
  match attributeValue attributes "Length" with
  | some len => (parseLength name len).map a.setLength
  | none => pure a

structure IntegerState where
  addressing : AddressingBuilder
  access : AccessMode := .rw
  sign : Sign := .unsigned
  byteOrder : Option ByteOrder := none
  min : Option Int := none
  max : Option Int := none
  inc : Option Int := none
  unit : Option Text := none
  pvalue : Option Text := none
  pMax : Option Text := none
  pMin : Option Text := none
  pInc : Option Text := none
  staticValue : Option Int := none
  predicates : PredicateRefs := {}
  invalidators : List Text := []
  selected : List Text := []
  nodeMeta : NodeMetaBuilder := {}
  indexed : IndexedBuilder Int := {}
  bitfield : BitfieldBuilder := {}
  pendingBitLength : Bool := false
deriving DecidableEq, Repr

/-- A bit index: refused, not reduced, when 32 bits do not hold it. -/
def parseBitIndex (name text : Text) (problem : String) : Except XmlError Nat := do
  let value ← parseU64 text
  if value < 2 ^ 32 then pure value else throw (.invalid name problem)

namespace IntegerState

def readLsb (s : IntegerState) (name text : Text) : Except XmlError IntegerState := do
  let lsb ← parseBitIndex name text "declares an <LSB> out of range"
  pure { s with bitfield := s.bitfield.noteLsb lsb }

def readMsb (s : IntegerState) (name text : Text) : Except XmlError IntegerState := do
  let msb ← parseBitIndex name text "declares an <MSB> out of range"
  pure { s with bitfield := s.bitfield.noteMsb msb }

def readBit (s : IntegerState) (name text : Text) : Except XmlError IntegerState := do
  let bit ← parseBitIndex name text "declares a <Bit> out of range"
  pure { s with bitfield := s.bitfield.noteBit bit, pendingBitLength := true }

def readMask (s : IntegerState) (text : Text) : Except XmlError IntegerState := do
  let mask ← parseU64 text
  pure { s with bitfield := s.bitfield.noteMask mask, pendingBitLength := false }

/-- The bit field needs the order to place its bits, and an unmasked register
has none to hold it. -/
def readByteOrder (s : IntegerState) (text : Text) : IntegerState :=
  match ByteOrder.parse text with
  | some order => { s with bitfield := s.bitfield.noteByteOrder order, byteOrder := some order }
  | none => s

/-- A length after a `Bit` is the field's, any other the register's. -/
def readLength (s : IntegerState) (name text : Text) : Except XmlError IntegerState := do
  let value ← parseU64 text
  if s.pendingBitLength then
    if value < 2 ^ 32 then
      pure { s with bitfield := s.bitfield.noteBitLength value, pendingBitLength := false }
    else throw (.invalid name "declares a bit field length out of range")
  else if value < 2 ^ 32 then pure { s with addressing := s.addressing.setLength value }
  else throw (.invalid name "declares a <Length> out of range")

def readAddressing (s : IntegerState) (name : Text) (e : Element) (text : Text) :
    Except XmlError IntegerState := do
  let a ← handleAddressingStart name e text s.addressing
  pure { s with addressing := a.getD s.addressing }

/-- The elements every register shares: predicates, invalidators, metadata. -/
def readShared (s : IntegerState) (e : Element) (text : Text) : IntegerState :=
  match handlePredicateStart e text s.predicates with
  | some predicates => { s with predicates }
  | none =>
    match handleInvalidatorStart e text s.invalidators with
    | some invalidators => { s with invalidators }
    | none => { s with nodeMeta := s.nodeMeta.handleOrIgnore e text }

def readElement (name : Text) (e : Element) (text : Text) (s : IntegerState) :
    Except XmlError IntegerState :=
  match e.tag with
  | .pValue => pure { s with pvalue := reference text s.pvalue }
  | .pMax => pure { s with pMax := reference text s.pMax }
  | .pMin => pure { s with pMin := reference text s.pMin }
  | .pInc => pure { s with pInc := reference text s.pInc }
  | .value => do pure { s with staticValue := some (← parseI64 text) }
  | .address | .pAddress | .pIndex | .intSwissKnife | .pPort | .pLength =>
    s.readAddressing name e text
  | .length => s.readLength name text
  | .sign => pure { s with sign := (Sign.parse text).getD s.sign }
  | .accessMode => pure { s with access := AccessMode.parse text }
  | .min => do pure { s with min := some (← parseI64 text) }
  | .max => do pure { s with max := some (← parseI64 text) }
  | .inc => do pure { s with inc := some (← parseI64 text) }
  | .unit => pure { s with unit := reference text s.unit }
  | .lsb | .lsbMixed => s.readLsb name text
  | .msb | .msbMixed => s.readMsb name text
  | .bit => s.readBit name text
  | .mask => s.readMask text
  | .endianness | .endianess | .byteOrder => pure (s.readByteOrder text)
  | .pSelected => pure { s with selected := handlePSelectedStart text s.selected }
  | _ => pure (s.readShared e text)

/-- A start element. On an `Integer`, which is no register, an indexed value's
elements come first. -/
def readStart (isRegister : Bool) (name : Text) (e : Element) (text : Text) (s : IntegerState) :
    Except XmlError IntegerState :=
  if isRegister then s.readElement name e text
  else do
    match ← s.indexed.handleStart parseI64 e text with
    | some indexed => pure { s with indexed }
    | none => s.readElement name e text

/-- A self-closed element gives its number as an attribute. -/
def readEmpty (name : Text) (e : Element) (s : IntegerState) : Except XmlError IntegerState :=
  let value := attributeValue e.attributes "Value"
  match e.tag with
  | .pAddress => do
    let a ← handleAddressingEmpty e s.addressing
    pure { s with addressing := a.getD s.addressing }
  | .lsb | .lsbMixed => value.elim (pure s) (s.readLsb name)
  | .msb | .msbMixed => value.elim (pure s) (s.readMsb name)
  | .bit => value.elim (pure s) (s.readBit name)
  | .mask => value.elim (pure s) s.readMask
  | .endianness | .endianess | .byteOrder => pure (value.elim s s.readByteOrder)
  | _ => pure { s with nodeMeta := s.nodeMeta.ignoreEmpty e }

/-- A bit field is placed within a length known now. Without an address there
is no register, and a field that does not fit is dropped. -/
def place (s : IntegerState) (name : Text) (addressing : AddressingBuilder) :
    Except XmlError (Option Addressing × Nat × Option BitField) :=
  match addressing.finalize name (some 4) with
  | .ok addr =>
    if addr.len = 0 ∧ addr.pLength.isSome ∧ s.bitfield.isDeclared then
      .error (.invalid name
        "declares a bit field on a register whose length only its <pLength> gives")
    else (s.bitfield.finish name addr.len).map fun bf => (some addr, addr.len, bf)
  | .error _ => .ok (none, 4, (s.bitfield.finish name 4).toOption.join)

def declare (s : IntegerState) (name : Text) : Except XmlError IntegerDecl := do
  let (indexed, addressing) ← s.indexed.finish name s.addressing
  let (addressing, len, bitfield) ← s.place name addressing
  pure {
    name, nodeMeta := s.nodeMeta.build, addressing, len, access := s.access
    min := s.min, max := s.max, inc := s.inc, unit := s.unit
    bitfield, sign := s.sign, byteOrder := s.byteOrder.getD .big
    selected := s.selected, pvalue := s.pvalue, pMax := s.pMax, pMin := s.pMin
    pInc := s.pInc, value := s.staticValue, indexed
    predicates := s.predicates, invalidators := s.invalidators }

end IntegerState

/-- Parse an element of tag `nodeName`: `Integer`, `IntReg` or `MaskedIntReg`. -/
def parseInteger (nodeName : Text) (attributes : List (String × Text))
    (children : List Element) : Except XmlError IntegerDecl := do
  let name ← attributeValueRequired nodeName attributes "Name"
  let addressing ← attributeAddressing name attributes
  let isRegister : Bool := nodeName ≠ lit "Integer"
  let s ← readChildren (IntegerState.readStart isRegister name) (IntegerState.readEmpty name)
    { addressing } children
  s.declare name

/-- What a parser needs of 64-bit floating point numbers: their text form, and
a scale factor as a multiple of a millionth. -/
structure Floats (F : Type) where
  parse : Text → Option F
  isZero : F → Bool
  /-- `(value * 1_000_000).round() as i64` -/
  millionths : F → Int

variable {F : Type}

def parseF64 (floats : Floats F) (value : Text) : Except XmlError F :=
  match floats.parse (trim value) with
  | some number => .ok number
  | none => .error (.number (trim value) "a number" .float)

/-- A scale factor as a rational: `num/den`, or a decimal in millionths. -/
def parseScale (floats : Floats F) (text : Text) : Except XmlError (Int × Int) :=
  let trimmed := trim text
  if trimmed = [] then .error (.invalid (lit "<Scale>") "is empty")
  else if '/' ∈ trimmed then do
    let num ← parseI64 (trimmed.takeWhile (· ≠ '/'))
    let den ← parseI64 ((trimmed.dropWhile (· ≠ '/')).drop 1)
    if den = 0 then throw (.invalid (lit "<Scale>") "has a zero denominator")
    pure (num, den)
  else do
    let value ← parseF64 floats trimmed
    if floats.isZero value then throw (.invalid (lit "<Scale>") "is zero")
    pure (floats.millionths value, 1000000)

structure FloatState (F : Type) where
  addressing : AddressingBuilder
  access : AccessMode := .rw
  min : Option F := none
  max : Option F := none
  unit : Option Text := none
  scaleNum : Option Int := none
  scaleDen : Option Int := none
  offset : Option F := none
  pvalue : Option Text := none
  pMin : Option Text := none
  pMax : Option Text := none
  byteOrder : Option ByteOrder := none
  value : Option F := none
  indexed : IndexedBuilder F := {}
  predicates : PredicateRefs := {}
  invalidators : List Text := []
  nodeMeta : NodeMetaBuilder := {}

namespace FloatState

def readShared (s : FloatState F) (e : Element) (text : Text) : FloatState F :=
  match handlePredicateStart e text s.predicates with
  | some predicates => { s with predicates }
  | none =>
    match handleInvalidatorStart e text s.invalidators with
    | some invalidators => { s with invalidators }
    | none => { s with nodeMeta := s.nodeMeta.handleOrIgnore e text }

def readAddressing (s : FloatState F) (name : Text) (e : Element) (text : Text) :
    Except XmlError (FloatState F) := do
  match ← handleAddressingStart name e text s.addressing with
  | some addressing => pure { s with addressing }
  | none => pure { s with nodeMeta := s.nodeMeta.ignore e }

/-- The elements of a float. A `pLength` is not among them. -/
def readElement (floats : Floats F) (isFloatReg : Bool) (name : Text) (e : Element) (text : Text)
    (s : FloatState F) : Except XmlError (FloatState F) :=
  match e.tag with
  | .pValue => pure { s with pvalue := reference text s.pvalue }
  | .pMin => pure { s with pMin := reference text s.pMin }
  | .pMax => pure { s with pMax := reference text s.pMax }
  | .address | .pAddress | .pIndex | .intSwissKnife | .pPort | .length =>
    s.readAddressing name e text
  | .value =>
    if isFloatReg then pure (s.readShared e text)
    else do pure { s with value := some (← parseF64 floats text) }
  | .accessMode => pure { s with access := AccessMode.parse text }
  | .min => do pure { s with min := some (← parseF64 floats text) }
  | .max => do pure { s with max := some (← parseF64 floats text) }
  | .unit => pure { s with unit := reference text s.unit }
  | .scale => do
    let (num, den) ← parseScale floats text
    pure { s with scaleNum := some num, scaleDen := some den }
  | .scaleNumerator => do pure { s with scaleNum := some (← parseI64 text) }
  | .scaleDenominator => do pure { s with scaleDen := some (← parseI64 text) }
  | .offset => do pure { s with offset := some (← parseF64 floats text) }
  | .endianness | .endianess | .byteOrder =>
    pure { s with byteOrder := (ByteOrder.parse text).or s.byteOrder }
  | _ => pure (s.readShared e text)

def readStart (floats : Floats F) (isFloatReg : Bool) (name : Text) (e : Element) (text : Text)
    (s : FloatState F) : Except XmlError (FloatState F) :=
  if isFloatReg then s.readElement floats isFloatReg name e text
  else do
    match ← s.indexed.handleStart (parseF64 floats) e text with
    | some indexed => pure { s with indexed }
    | none => s.readElement floats isFloatReg name e text

def readEmpty (e : Element) (s : FloatState F) : Except XmlError (FloatState F) := do
  match ← handleAddressingEmpty e s.addressing with
  | some addressing => pure { s with addressing }
  | none => pure { s with nodeMeta := s.nodeMeta.ignoreEmpty e }

/-- The scale its numerator and denominator give; a lone numerator is over 1. -/
def scale (s : FloatState F) : Option (Int × Int) :=
  match s.scaleNum, s.scaleDen with
  | some num, some den => if den = 0 then none else some (num, den)
  | some num, none => some (num, 1)
  | none, _ => none

end FloatState

/-- The payload length of a register at a fixed address. -/
def addressingPrimaryLength (addr : Addressing) : Option Nat :=
  if addr.terms.all (fun term => match term with
    | .fixed _ => true
    | _ => false) then some addr.len else none

namespace FloatState

def declare (s : FloatState F) (isFloatReg : Bool) (name : Text) :
    Except XmlError (FloatDecl F) := do
  let (indexed, addressing) ← s.indexed.finish name s.addressing
  let addressing := (addressing.finalize name (some 8)).toOption
  let hasScaleOrOffset := s.scale.isSome || s.offset.isSome
  let length := addressing.bind addressingPrimaryLength
  let nativeIeee754 : Bool :=
    isFloatReg ∨ (¬hasScaleOrOffset ∧ (length = some 4 ∨ length = some 8))
  pure {
    name, nodeMeta := s.nodeMeta.build, addressing, access := s.access
    min := s.min, max := s.max, unit := s.unit, scale := s.scale, offset := s.offset
    pvalue := s.pvalue, pMin := s.pMin, pMax := s.pMax, value := s.value, indexed
    encoding := if nativeIeee754 then .ieee754 else .scaledInteger
    byteOrder := s.byteOrder.getD .big
    predicates := s.predicates, invalidators := s.invalidators }

end FloatState

/-- Parse an element of tag `nodeName`: `Float` or `FloatReg`. -/
def parseFloat (floats : Floats F) (nodeName : Text) (attributes : List (String × Text))
    (children : List Element) : Except XmlError (FloatDecl F) := do
  let name ← attributeValueRequired nodeName attributes "Name"
  let isFloatReg : Bool := nodeName = lit "FloatReg"
  let addressing ← attributeAddressing name attributes
  let s ← readChildren (FloatState.readStart floats isFloatReg name) FloatState.readEmpty
    { addressing } children
  s.declare isFloatReg name

end VivaGenicam.GenapiXml
