import VivaGenicam.Genapi.Conversions
import VivaGenicam.Genapi.Nodes

/-!
Floating point numbers, and the bytes and integers that hold them.
-/

namespace VivaGenicam.Genapi

open GenapiXml Library.Bytes

/-- Half away from zero. From 2^52 on every number is an integer. -/
def roundF64 (value : Float) : Float :=
  let size := value.abs
  if size < 4503599627370496 then
    let whole := size.toUInt64.toFloat
    let rounded := if size - whole ≥ 0.5 then whole + 1 else whole
    if value < 0 then -rounded else rounded
  else value

def roundTiesToZero (value : Float) : Float :=
  if value ≥ 0 then
    let base := value.floor
    if value - base > 0.5 then base + 1 else base
  else
    let base := value.ceil
    if value - base < -0.5 then base - 1 else base

def roundToI64 (name : Text) (value : Float) : Except GenApiError Int64 :=
  let refused := .error (.exprEval name (.notAnInteger value))
  if ¬value.isFinite then refused
  else
    let rounded := roundTiesToZero value
    if rounded < -i64Bound ∨ rounded > i64Bound then refused
    else
      let truncated := truncF64 rounded
      if (rounded - truncated).abs > 1e-9 then refused
      else .ok (f64ToI64 truncated)

/-- An integral result is exact; a float is rounded. -/
def skToI64 (name : Text) : Value → Except GenApiError Int64
  | .int value => .ok value
  | .float value => roundToI64 name value

def applyScale (node : FloatNode) (raw : Float) : Float :=
  let scaled := match node.scale with
    | some (num, den) => raw * (num.toFloat / den.toFloat)
    | none => raw
  match node.offset with
  | some offset => scaled + offset
  | none => scaled

def encodeFloat (node : FloatNode) (value : Float) : Except GenApiError Int64 := do
  let shifted := match node.offset with
    | some offset => value - offset
    | none => value
  let raw ← match node.scale with
    | some (num, den) =>
      if num = 0 then .error (.declaration node.name "has a zero <Scale> numerator")
      else .ok (shifted * (den.toFloat / num.toFloat))
    | none => .ok shifted
  let rounded := roundF64 raw
  if (raw - rounded).abs > 1e-6 then .error (.range node.name (.float value) .unrepresentable)
  else .ok (f64ToI64 rounded)

def decodeIeee754 (name : Text) (bytes : List UInt8) (order : ByteOrder) :
    Except GenApiError Float :=
  if bytes.length = 4 then
    .ok (Float32.ofBits (.ofNat (registerValue order bytes))).toFloat
  else if bytes.length = 8 then .ok (Float.ofBits (.ofNat (registerValue order bytes)))
  else .error (.registerEncoding name bytes.length "an IEEE 754 float is 4 or 8 bytes")

def f32Max : Float := 340282346638528859811704183484516925440

def encodeIeee754 (name : Text) (value : Float) (len : Nat) (order : ByteOrder) :
    Except GenApiError (List UInt8) :=
  let refused := .error (.range name (.float value) .unrepresentable)
  if len = 4 then
    if ¬value.isFinite ∨ value < -f32Max ∨ value > f32Max then refused
    else .ok (registerBytes order 4 value.toFloat32.toBits.toNat)
  else if len = 8 then
    if ¬value.isFinite then refused
    else .ok (registerBytes order 8 value.toBits.toNat)
  else .error (.registerEncoding name len "an IEEE 754 float is 4 or 8 bytes")

def mapBitopsError (name : Text) : BitOpsError → GenApiError
  | .unsupportedWidth len => .registerEncoding name len "a bit field's register is 1 to 8 bytes"
  | .unsupportedLength bitLength => .registerEncoding name bitLength "a bit field is 1 to 64 bits"
  | .outOfRange len bitOffset bitLength => .bitfieldOutOfRange name bitOffset bitLength len
  | .valueTooWide bitLength value =>
    .valueTooWide name (if value < 2 ^ 63 then .ofNat value else Int64.maxValue) bitLength

end VivaGenicam.Genapi
