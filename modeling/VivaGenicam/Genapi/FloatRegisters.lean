import VivaGenicam.Genapi.Codec
import VivaGenicam.Genapi.Narrowing
import VivaGenicam.GenapiXml.Numeric
import VivaGenicam.Library.BinaryFloat

/-!
A float with a register of its own: read, written, and kept between the two. Floats are
exact rationals here, with the infinities and what is not a number; arithmetic does not
round, and the words of a register hold the number nearest to the one written. What the
rest of the node map answers about the node is given.
-/

namespace VivaGenicam.Genapi.FloatRegisters

open GenapiXml Library.Bytes Library.BinaryFloat

inductive Violation where
  | belowMin (min : Number)
  | aboveMax (max : Number)
  | unrepresentable
deriving DecidableEq

/-- Why a float is not read or written; `node` carries what another part said. -/
inductive FloatError where
  | node (error : GenApiError)
  | range (name : Text) (value : Number) (violation : Violation)
  | declaration (name : Text) (problem : String)
  | registerEncoding (name : Text) (width : Nat) (problem : String)

def fromNode {α : Type} : Except GenApiError α → Except FloatError α
  | .ok value => .ok value
  | .error error => .error (.node error)

def scaled (decl : FloatDecl Number) (raw : Number) : Number :=
  match decl.scale with
  | some (num, den) => raw.mul (.ratio num den)
  | none => raw

def applyScale (decl : FloatDecl Number) (raw : Number) : Number :=
  match decl.offset with
  | some offset => (scaled decl raw).add offset
  | none => scaled decl raw

def shifted (decl : FloatDecl Number) (value : Number) : Number :=
  match decl.offset with
  | some offset => value.sub offset
  | none => value

/-- The register's value for a number, not yet an integer. -/
def rawValue (decl : FloatDecl Number) (value : Number) : Except FloatError Number :=
  match decl.scale with
  | some (num, den) =>
    if num = 0 then .error (.declaration decl.name "has a zero <Scale> numerator")
    else .ok ((shifted decl value).mul (.ratio den num))
  | none => .ok (shifted decl value)

/-- `as i64`, of a number without a fraction. -/
def toI64 : Number → Int64
  | .finite value => Narrowing.saturate (Narrowing.truncate value)
  | .negativeZero => 0
  | .infinite negative => if negative then Int64.minValue else Int64.maxValue
  | .nan => 0

def tolerance : ℚ := 1 / 10 ^ 6

def encodeFloat (decl : FloatDecl Number) (value : Number) : Except FloatError Int64 := do
  let raw ← rawValue decl value
  let rounded := raw.round
  if (Number.finite tolerance).lt (raw.sub rounded).abs then
    .error (.range decl.name value .unrepresentable)
  else .ok (toI64 rounded)

def decodeIeee754 (name : Text) (bytes : List UInt8) (order : ByteOrder) :
    Except FloatError Number :=
  if bytes.length = 4 then .ok (Format.single.decode (registerValue order bytes))
  else if bytes.length = 8 then .ok (Format.double.decode (registerValue order bytes))
  else .error (.registerEncoding name bytes.length "an IEEE 754 float is 4 or 8 bytes")

def f32Max : ℚ := 340282346638528859811704183484516925440

def encodeIeee754 (name : Text) (value : Number) (len : Nat) (order : ByteOrder) :
    Except FloatError (List UInt8) :=
  let refused := .error (.range name value .unrepresentable)
  if len = 4 then
    if ¬value.isFinite ∨ value.lt (.finite (-f32Max)) ∨ (Number.finite f32Max).lt value then refused
    else .ok (registerBytes order 4 (Format.single.encode value))
  else if len = 8 then
    if ¬value.isFinite then refused
    else .ok (registerBytes order 8 (Format.double.encode value))
  else .error (.registerEncoding name len "an IEEE 754 float is 4 or 8 bytes")

/-- A float as its parser declares it, with a register and nothing in front of it. -/
structure FloatNode where
  decl : FloatDecl Number
  parsed : ∃ floats nodeName attributes children,
    parseFloat floats nodeName attributes children = .ok decl
  register : decl.addressing.isSome = true
  unshadowed : decl.value = none ∧ decl.pvalue = none ∧ decl.indexed = none

namespace FloatNode

variable (node : FloatNode)

def decodeRegister (bytes : List UInt8) : Except FloatError Number :=
  match node.decl.encoding with
  | .ieee754 => decodeIeee754 node.decl.name bytes node.decl.byteOrder
  | .scaledInteger => do
    let value ← fromNode (bytesToI64 node.decl.name bytes .signed node.decl.byteOrder)
    .ok (applyScale node.decl (.finite value.toInt))

def encodeRegister (value : Number) (len : Nat) : Except FloatError (List UInt8) :=
  match node.decl.encoding with
  | .ieee754 => encodeIeee754 node.decl.name value len node.decl.byteOrder
  | .scaledInteger => do
    let raw ← encodeFloat node.decl value
    fromNode (i64ToBytes node.decl.name raw len .signed node.decl.byteOrder)

/-- The caching mode; that of a float with a register is to keep only what is read. -/
def mode : CachingMode := node.decl.nodeMeta.cachable.getD .writeAround

/-- Whether a write may leave the value written in the cache. -/
def keepsWritten : Bool := node.mode = .writeThrough

end FloatNode

/-- What the rest of the node map answers about a node. -/
structure Surroundings where
  readable : Except GenApiError Unit
  writable : Except GenApiError Unit
  min : Except GenApiError (Option Number)
  max : Except GenApiError (Option Number)
  /-- The register's address and length. -/
  location : Except GenApiError (Nat × Nat)

/-- The device's memory, what the node keeps of it, and when that was read. -/
structure RegisterState where
  memory : Nat → UInt8
  cache : Option Number
  since : Option Nat

namespace RegisterState

def read (state : RegisterState) (address len : Nat) : List UInt8 :=
  (List.range len).map fun i => state.memory (address + i)

def write (state : RegisterState) (address : Nat) (bytes : List UInt8) : RegisterState :=
  { state with memory := fun place =>
      if address ≤ place then (bytes[place - address]?).getD (state.memory place)
      else state.memory place }

def dropped (state : RegisterState) : RegisterState := { state with cache := none }

end RegisterState

namespace FloatNode

variable (node : FloatNode) (around : Surroundings)

/-- Whether a read may be answered from the cache. -/
def mayServe (state : RegisterState) (now : Nat) : Bool :=
  if node.mode = .noCache then false
  else match node.decl.nodeMeta.pollingTimeMs with
    | none => true
    | some period => state.since.any fun since => now - since < period

def noteRead (state : RegisterState) (now : Nat) : RegisterState :=
  if node.decl.nodeMeta.pollingTimeMs.isSome then { state with since := some now } else state

/-- Read the float at `now`. -/
def getFloat (now : Nat) (state : RegisterState) : Except FloatError Number × RegisterState :=
  match around.readable, around.location with
  | .error error, _ => (.error (.node error), state)
  | .ok (), .error error => (.error (.node error), state)
  | .ok (), .ok (address, len) =>
    match if node.mayServe state now then state.cache else none with
    | some value => (.ok value, state)
    | none =>
      match node.decodeRegister (state.read address len) with
      | .error error => (.error error, state)
      | .ok value => (.ok value, { node.noteRead state now with
          cache := if node.mode = .noCache then none else some value })

def ensureFloatInRange (value : Number) : Except FloatError Unit := do
  let min ← fromNode around.min
  let max ← fromNode around.max
  if min.any fun min => value.lt min then
    .error (.range node.decl.name value (.belowMin (min.getD .nan)))
  else if max.any fun max => max.lt value then
    .error (.range node.decl.name value (.aboveMax (max.getD .nan)))
  else .ok ()

/-- The bytes that a write puts into the register, and where. -/
def prepareWrite (value : Number) : Except FloatError (Nat × List UInt8) := do
  fromNode around.writable
  node.ensureFloatInRange around value
  let (address, len) ← fromNode around.location
  let bytes ← node.encodeRegister value len
  .ok (address, bytes)

/-- Write the float at `now`. -/
def setFloat (now : Nat) (value : Number) (state : RegisterState) :
    Except FloatError Unit × RegisterState :=
  match node.prepareWrite around value with
  | .error error => (.error error, state)
  | .ok (address, bytes) =>
    let written := state.write address bytes
    (.ok (), if node.keepsWritten then node.noteRead { written with cache := some value } now
      else written.dropped)

end FloatNode

end VivaGenicam.Genapi.FloatRegisters
