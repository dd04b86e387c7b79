import VivaGenicam.GenapiXml.Text

/-!
What a document declares: the values its elements take, a register's
addressing, and the declarations of the nodes backed by a register.
-/

namespace VivaGenicam.GenapiXml

inductive Visibility where
  | beginner
  | expert
  | guru
  | invisible
deriving DecidableEq, Repr

def Visibility.parse (text : Text) : Option Visibility :=
  if trim text = lit "Beginner" then some .beginner
  else if trim text = lit "Expert" then some .expert
  else if trim text = lit "Guru" then some .guru
  else if trim text = lit "Invisible" then some .invisible
  else none

inductive Representation where
  | linear
  | logarithmic
  | boolean
  | pureNumber
  | hexNumber
  | ipv4Address
  | macAddress
deriving DecidableEq, Repr

def Representation.parse (text : Text) : Option Representation :=
  if trim text = lit "Linear" then some .linear
  else if trim text = lit "Logarithmic" then some .logarithmic
  else if trim text = lit "Boolean" then some .boolean
  else if trim text = lit "PureNumber" then some .pureNumber
  else if trim text = lit "HexNumber" then some .hexNumber
  else if trim text = lit "IPV4Address" then some .ipv4Address
  else if trim text = lit "MACAddress" then some .macAddress
  else none

inductive CachingMode where
  | noCache
  | writeThrough
  | writeAround
deriving DecidableEq, Repr

/-- A value the standard does not define reads as `noCache`. -/
def CachingMode.parse (text : Text) : CachingMode :=
  if trim text = lit "WriteThrough" then .writeThrough
  else if trim text = lit "WriteAround" then .writeAround
  else .noCache

inductive AccessMode where
  | ro
  | wo
  | rw
deriving DecidableEq, Repr

/-- An unknown value reads as `ro`: what cannot be read is not written. -/
def AccessMode.parse (text : Text) : AccessMode :=
  let mode := toAsciiUpper (trim text)
  if mode = lit "RO" ∨ mode = lit "R" then .ro
  else if mode = lit "WO" ∨ mode = lit "W" then .wo
  else if mode = lit "RW" ∨ mode = lit "WR" then .rw
  else .ro

inductive Sign where
  | unsigned
  | signed
deriving DecidableEq, Repr

def Sign.parse (text : Text) : Option Sign :=
  let sign := toAsciiLower (trim text)
  if sign = lit "signed" then some .signed
  else if sign = lit "unsigned" then some .unsigned
  else none

def Sign.isSigned : Sign → Bool
  | .signed => true
  | .unsigned => false

inductive ByteOrder where
  | little
  | big
deriving DecidableEq, Repr

def ByteOrder.parse (text : Text) : Option ByteOrder :=
  let order := toAsciiLower (trim text)
  if order = lit "littleendian" then some .little
  else if order = lit "bigendian" then some .big
  else none

inductive FloatEncoding where
  | ieee754
  | scaledInteger
deriving DecidableEq, Repr

/-- The stride of a `pIndex`: literal, from a node, or the register's length. -/
inductive IndexOffset where
  | fixed (stride : Nat)
  | node (name : Text)
  | length
deriving DecidableEq, Repr

inductive AddressTerm where
  | fixed (address : Int)
  | node (name : Text)
  | index (node : Text) (offset : IndexOffset)
deriving DecidableEq, Repr

/-- A register's address is the sum of its terms. -/
structure Addressing where
  terms : List AddressTerm
  len : Nat
  port : Option Text
  pLength : Option Text
deriving DecidableEq, Repr

structure BitField where
  bitOffset : Nat
  bitLength : Nat
  byteOrder : ByteOrder
deriving DecidableEq, Repr

inductive IndexedSrc (α : Type) where
  | literal (value : α)
  | fromNode (name : Text)
deriving DecidableEq, Repr

structure IndexedEntry (α : Type) where
  index : Int
  value : IndexedSrc α
deriving DecidableEq, Repr

structure IndexedValue (α : Type) where
  index : Text
  entries : List (IndexedEntry α)
  default : Option (IndexedSrc α)
deriving DecidableEq, Repr

/-- The names the parsers of register nodes know, and any other. -/
inductive Tag where
  | address | pAddress | pIndex | intSwissKnife | pPort | length | pLength
  | accessMode | sign | endianness | endianess | byteOrder
  | lsb | lsbMixed | msb | msbMixed | bit | mask
  | pValue | pMax | pMin | pInc | value | min | max | inc | unit | pSelected
  | valueIndexed | pValueIndexed | valueDefault | pValueDefault
  | scale | scaleNumerator | scaleDenominator | offset
  | pIsImplemented | pIsAvailable | pIsLocked | pInvalidator
  | visibility | description | tooltip | displayName | representation
  | imposedAccessMode | streamable | cachable | cacheable | pollingTime
  | structEntry
  | other (name : Text)
deriving DecidableEq, Repr

structure PredicateRefs where
  pIsImplemented : Option Text := none
  pIsAvailable : Option Text := none
  pIsLocked : Option Text := none
deriving DecidableEq, Repr

structure NodeMeta where
  visibility : Visibility
  description : Option Text
  tooltip : Option Text
  displayName : Option Text
  representation : Option Representation
  imposedAccess : Option AccessMode
  streamable : Bool
  cachable : Option CachingMode
  pollingTimeMs : Option Nat
  ignored : List Tag
deriving DecidableEq, Repr

structure IntegerDecl where
  name : Text
  nodeMeta : NodeMeta
  addressing : Option Addressing
  len : Nat
  access : AccessMode
  min : Option Int
  max : Option Int
  inc : Option Int
  unit : Option Text
  bitfield : Option BitField
  sign : Sign
  byteOrder : ByteOrder
  selected : List Text
  pvalue : Option Text
  pMax : Option Text
  pMin : Option Text
  pInc : Option Text
  value : Option Int
  indexed : Option (IndexedValue Int)
  predicates : PredicateRefs
  invalidators : List Text
deriving DecidableEq, Repr

/-- `F` stands for 64-bit floating point numbers. -/
structure FloatDecl (F : Type) where
  name : Text
  nodeMeta : NodeMeta
  addressing : Option Addressing
  access : AccessMode
  min : Option F
  max : Option F
  unit : Option Text
  scale : Option (Int × Int)
  offset : Option F
  pvalue : Option Text
  pMin : Option Text
  pMax : Option Text
  value : Option F
  indexed : Option (IndexedValue F)
  encoding : FloatEncoding
  byteOrder : ByteOrder
  predicates : PredicateRefs
  invalidators : List Text
deriving DecidableEq, Repr

structure StringDecl where
  name : Text
  nodeMeta : NodeMeta
  addressing : Option Addressing
  pvalue : Option Text
  value : Option Text
  access : AccessMode
  predicates : PredicateRefs
  invalidators : List Text
deriving DecidableEq, Repr

structure RegisterDecl where
  name : Text
  nodeMeta : NodeMeta
  addressing : Addressing
  access : AccessMode
  predicates : PredicateRefs
  invalidators : List Text
deriving DecidableEq, Repr

end VivaGenicam.GenapiXml
