import VivaGenicam.Genapi.BitOps
import VivaGenicam.Genapi.Formula

/-!
What can go wrong with a node, and integers with the bytes and bit fields that hold them.
The errors name the node they are about.
-/

namespace VivaGenicam.Genapi

open GenapiXml Library.Bytes

inductive AccessDirection where
  | read
  | write
deriving DecidableEq, Repr

inductive RangeViolation where
  | belowMin (min : Value)
  | aboveMax (max : Value)
  | offIncrement (base inc : Int64)
  | unrepresentable

/-- `io` carries the transport's own error. -/
inductive GenApiError where
  | nodeNotFound (name : Text)
  | type (name : Text) (kind expected : String)
  | access (name : Text) (refused : AccessDirection)
  | locked (name lockedBy : Text)
  | invalidText (name : Text) (expected : String) (text : Text)
  | range (name : Text) (value : Value) (violation : RangeViolation)
  | registerLength (name : Text) (len got : Nat)
  | unavailable (name : Text)
  | noValueSource (name : Text)
  | noIndexedValue (name indexNode : Text) (index : Int64)
  | io (source : String)
  | registerEncoding (name : Text) (width : Nat) (problem : String)
  | declaration (name : Text) (problem : String)
  | exprEval (name : Text) (source : EvalError)
  | enumValueUnknown (node : Text) (value : Int64)
  | enumEntryUnavailable (node entry : Text)
  | enumNoSuchEntry (node entry : Text)
  | badIndirectAddress (name : Text) (addr : Int64)
  | badLength (name lengthNode : Text) (len : Int64)
  | bitfieldOutOfRange (name : Text) (bitOffset bitLength len : Nat)
  | valueTooWide (name : Text) (value : Int64) (bitLength : Nat)
  | maskedWriteUnreadable (name : Text) (address : Nat)
  | unknownVariable (name var : Text)
  | notAttached (node port : Text)
  | portNotWritable (node port : Text)
  | unknownPort (node port : Text)
  | portOutOfRange (node port : Text) (offset : Int64) (len size : Nat)

/-- A payload as big-endian bytes, and big-endian bytes as a payload. -/
def bigEndian (order : ByteOrder) (bytes : List UInt8) : List UInt8 :=
  match order with
  | .big => bytes
  | .little => bytes.reverse

def bytesToI64 (name : Text) (bytes : List UInt8) (sign : Sign) (order : ByteOrder) :
    Except GenApiError Int64 :=
  if bytes.length = 0 then
    .error (.registerEncoding name 0 "the register returned no bytes")
  else if 8 < bytes.length then
    .error (.registerEncoding name bytes.length "an integer register is at most 8 bytes")
  else
    let be := bigEndian order bytes
    let fill : UInt8 := if sign = .signed ∧ be.headD 0 &&& 0x80 ≠ 0 then 0xFF else 0
    .ok (Int64.ofNat (decodeBE (List.replicate (8 - bytes.length) fill ++ be)))

/-- The value is written and read back: one that does not survive is refused. -/
def i64ToBytes (name : Text) (value : Int64) (width : Nat) (sign : Sign) (order : ByteOrder) :
    Except GenApiError (List UInt8) :=
  if width = 0 ∨ 8 < width then
    .error (.registerEncoding name width "an integer register is 1 to 8 bytes")
  else do
    let data := bigEndian order ((encodeBE 8 value.toBitVec.toNat).drop (8 - width))
    let roundtrip ← bytesToI64 name data sign order
    if roundtrip ≠ value then .error (.range name (.int value) .unrepresentable)
    else .ok data

def signExtend (value bits : Nat) : Int64 :=
  .ofBitVec ((BitVec.ofNat 64 value <<< (64 - bits)).sshiftRight (64 - bits))

def interpretBitfieldValue (name : Text) (raw bitLength : Nat) (signed : Bool) :
    Except GenApiError Int64 :=
  if signed then .ok (signExtend raw bitLength)
  else if raw < 2 ^ 63 then .ok (Int64.ofNat raw)
  else
    .error (.registerEncoding name bitLength "an unsigned bit field this wide exceeds i64")

def encodeBitfieldValue (name : Text) (value : Int64) (bitLength : Nat) (signed : Bool) :
    Except GenApiError Nat :=
  if bitLength = 0 ∨ 64 < bitLength then
    .error (.registerEncoding name bitLength "a bit field is 1 to 64 bits")
  else if signed then
    if value.toInt < -(2 ^ (bitLength - 1)) ∨ 2 ^ (bitLength - 1) - 1 < value.toInt then
      .error (.valueTooWide name value bitLength)
    else .ok (value.toInt % 2 ^ bitLength).toNat
  else if value.toInt < 0 then .error (.valueTooWide name value bitLength)
  else if 2 ^ bitLength - 1 < value.toInt then .error (.valueTooWide name value bitLength)
  else .ok value.toInt.toNat

end VivaGenicam.Genapi
