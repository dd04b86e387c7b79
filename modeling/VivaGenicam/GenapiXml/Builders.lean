import VivaGenicam.GenapiXml.Decl

/-!
The builders that collect a register's addressing and its bit field while its
elements are read.
-/

namespace VivaGenicam.GenapiXml

/-- Address terms are appended, never replaced. -/
structure AddressingBuilder where
  terms : List AddressTerm := []
  length : Option Nat := none
  port : Option Text := none
  pLength : Option Text := none
deriving DecidableEq, Repr

namespace AddressingBuilder

/-- The addressing with default length 0, and address 0 where no term was declared. -/
def build (a : AddressingBuilder) : Addressing where
  terms := if a.terms = [] then [.fixed 0] else a.terms
  len := a.length.getD 0
  port := a.port
  pLength := a.pLength

def hasTerms (a : AddressingBuilder) : Bool := a.terms ≠ []

def setPLength (a : AddressingBuilder) (node : Text) : AddressingBuilder :=
  { a with pLength := some node }

def pushFixedAddress (a : AddressingBuilder) (address : Int) : AddressingBuilder :=
  { a with terms := a.terms ++ [.fixed address] }

def setPort (a : AddressingBuilder) (port : Text) : AddressingBuilder :=
  { a with port := some port }

def setLength (a : AddressingBuilder) (len : Nat) : AddressingBuilder :=
  { a with length := some len }

def pushPAddress (a : AddressingBuilder) (node : Text) : AddressingBuilder :=
  { a with terms := a.terms ++ [.node node] }

def pushIndex (a : AddressingBuilder) (node : Text) (offset : IndexOffset) : AddressingBuilder :=
  { a with terms := a.terms ++ [.index node offset] }

/-- The addressing, if a length and a term were declared. A length read
through `pLength` is the device's to say; the static one stays 0. -/
def finalize (a : AddressingBuilder) (node : Text) (defaultLen : Option Nat) :
    Except XmlError Addressing :=
  let defaultLen := if a.pLength.isSome then some 0 else defaultLen
  match a.length.or defaultLen with
  | none => .error (.missing node "<Length>")
  | some len =>
    if a.terms = [] then .error (.missing node "<Address>")
    else .ok { terms := a.terms, len, port := a.port, pLength := a.pLength }

end AddressingBuilder

inductive BitfieldSource where
  | lsbMsb
  | bitLength
  | mask
deriving DecidableEq, Repr

structure BitfieldBuilder where
  lsb : Option Nat := none
  msb : Option Nat := none
  bit : Option Nat := none
  bitLength : Option Nat := none
  mask : Option Nat := none
  byteOrder : Option ByteOrder := none
  source : Option BitfieldSource := none
deriving DecidableEq, Repr

/-- The number of low bits of `mask` that are 0 below its lowest set bit. -/
def trailingZeros (mask : Nat) : Nat :=
  ((List.range 64).find? fun k => mask.testBit k).getD 64

def countOnes (mask : Nat) : Nat :=
  ((List.range 64).filter fun k => mask.testBit k).length

namespace BitfieldBuilder

/-- Whether an element of `source` is read: the first source declared wins. -/
def admits (b : BitfieldBuilder) (source : BitfieldSource) : Bool :=
  b.source = none ∨ b.source = some source

def noteLsb (b : BitfieldBuilder) (value : Nat) : BitfieldBuilder :=
  if b.admits .lsbMsb then { b with source := some .lsbMsb, lsb := some value } else b

def noteMsb (b : BitfieldBuilder) (value : Nat) : BitfieldBuilder :=
  if b.admits .lsbMsb then { b with source := some .lsbMsb, msb := some value } else b

def noteBit (b : BitfieldBuilder) (value : Nat) : BitfieldBuilder :=
  if b.admits .bitLength then { b with source := some .bitLength, bit := some value } else b

def noteBitLength (b : BitfieldBuilder) (value : Nat) : BitfieldBuilder :=
  if b.admits .bitLength then { b with source := some .bitLength, bitLength := some value } else b

/-- Only the first `Mask` counts, and none after another source. -/
def noteMask (b : BitfieldBuilder) (mask : Nat) : BitfieldBuilder :=
  if b.source.isSome then b else { b with source := some .mask, mask := some mask }

def noteByteOrder (b : BitfieldBuilder) (order : ByteOrder) : BitfieldBuilder :=
  { b with byteOrder := some order }

def isDeclared (b : BitfieldBuilder) : Bool := b.source.isSome

/-- The lowest index of the declared bits and their number. -/
def range (b : BitfieldBuilder) (node : Text) : BitfieldSource → Except XmlError (Nat × Nat)
  | .lsbMsb =>
    match b.lsb, b.msb with
    | none, _ => .error (.missing node "<LSB>")
    | some _, none => .error (.missing node "<MSB>")
    | some lsb, some msb =>
      if max lsb msb - min lsb msb + 1 < 2 ^ 32 then
        .ok (min lsb msb, max lsb msb - min lsb msb + 1)
      else .error (.invalid node "has an invalid bit range")
  | .bitLength =>
    match b.bit with
    | none => .error (.missing node "<Bit>")
    | some bit => .ok (bit, b.bitLength.getD 1)
  | .mask =>
    match b.mask with
    | none => .error (.missing node "<Mask>")
    | some mask =>
      if mask = 0 then .error (.invalid node "has a zero <Mask>")
      else .ok (trailingZeros mask, countOnes mask)

/-- Where a range starts as the field counts: a mask counts from the least
significant bit whatever the byte order, the other indices count as the field. -/
def offset (byteOrder : ByteOrder) (source : BitfieldSource)
    (totalBits firstIndex bitLength : Nat) : Nat :=
  match byteOrder, source with
  | .big, .mask => totalBits - bitLength - firstIndex
  | _, _ => firstIndex

/-- The checks on a range of bits of a register of `totalBits`, and its field.
The source's refusal of more than 65535 bits is behind the one of more than 64. -/
def place (node : Text) (byteOrder : ByteOrder) (source : BitfieldSource)
    (totalBits firstIndex bitLength : Nat) : Except XmlError BitField :=
  if bitLength = 0 then .error (.invalid node "declares an empty bit field")
  else if 64 < bitLength then .error (.invalid node "declares a bit field wider than 64 bits")
  else if 65535 < firstIndex then .error (.invalid node "declares a bit offset past bit 65535")
  else if totalBits < firstIndex + bitLength then
    .error (.invalid node "declares a bit field wider than its register")
  else
    let bitOffset := offset byteOrder source totalBits firstIndex bitLength
    if bitOffset < 2 ^ 16 then .ok { bitOffset, bitLength, byteOrder }
    else .error (.invalid node "declares a bit offset past bit 65535")

def finish (b : BitfieldBuilder) (node : Text) (lenBytes : Nat) :
    Except XmlError (Option BitField) :=
  match b.source with
  | none => .ok none
  | some source =>
    if lenBytes = 0 then .error (.invalid node "declares a zero-length register")
    else if 2 ^ 32 ≤ lenBytes * 8 then
      .error (.invalid node "declares a register too long to address")
    else
      match b.range node source with
      | .error err => .error err
      | .ok (firstIndex, bitLength) =>
        (place node (b.byteOrder.getD .little) source (lenBytes * 8) firstIndex bitLength).map some

end BitfieldBuilder

end VivaGenicam.GenapiXml
