import VivaGenicam.Service.FrameHeader
import VivaGenicam.Pixel.Convert

/-!
Turning camera frames into image envelopes: the geometry a frame declares, the
bytes of its payload that are published, and the sequence counter of the image
topic.
-/

namespace VivaGenicam.Service

open VivaGenicam.Pixel Library.Checked

/-- An image frame, as far as its pixels and its metadata go. -/
structure Frame where
  payload : List UInt8
  width : UInt32
  height : UInt32
  pixelFormat : PixelFormat
  paddingX : UInt16
  blockId : Nat
  tsDev : Option Nat
  tsHostNs : Option Int
  complete : Bool
  payloadType : Nat
  chunks : Option (List (Nat × List UInt8))
deriving DecidableEq, Repr

def decimal (number : Nat) : Text := (Nat.repr number).toList

def decimalNs (nanoseconds : Int) : Text :=
  if nanoseconds < 0 then '-' :: decimal nanoseconds.natAbs else decimal nanoseconds.natAbs

namespace Frame

/-- Bytes from the start of one line to the start of the next, when the camera
pads its lines. -/
def rowStride (frame : Frame) : Option Nat :=
  if frame.paddingX = 0 then none
  else (frame.pixelFormat.lineBytes frame.width).map (· + frame.paddingX.toNat)

def toRgb8 (frame : Frame) : Except Stop (List UInt8) :=
  Pixel.toRgb8 frame.pixelFormat frame.width frame.height frame.rowStride frame.payload

def carriesChunks (frame : Frame) : Bool :=
  frame.payloadType &&& 0x4000 ≠ 0 || frame.payloadType &&& 0x3FFF = 4 ||
    frame.payloadType &&& 0x3FFF = 5

def metadata (frame : Frame) : FrameMetadata where
  blockId := decimal frame.blockId
  tsDev := frame.tsDev.map decimal
  tsHostNs := frame.tsHostNs.map decimalNs
  complete := frame.complete
  chunks := (frame.chunks.getD []).take maxFrameMetadataItems |>.map fun chunk =>
    ⟨decimal chunk.1, chunk.2.length⟩
  features := []
  chunkError :=
    if frame.carriesChunks ∧ frame.chunks.isNone then
      some (if frame.complete then "The frame's chunk layout could not be decoded".toList
        else "Chunk data is unavailable for an incomplete frame".toList)
    else none
  truncated := frame.chunks.any fun chunks => maxFrameMetadataItems < chunks.length

end Frame

/-- How many payload bytes a frame of this geometry should carry, if that can be said. -/
def expectedPayloadLen (format : PixelFormat) (width height : UInt32) : Option Nat :=
  if format = .vendorLucidEvsEvt30 ∨ format = .vendorLucidEvsEvt21 then none
  else do
    let _ ← format.bytesPerPixel
    format.imageBytes width height

def tryU32 (value : Nat) : Option UInt32 :=
  if value < 2 ^ 32 then some (UInt32.ofNat value) else none

/-- The stride to publish and the bytes to expect; `none` drops the frame. -/
def imageGeometry (frame : Frame) : Option (Option UInt32 × Option Nat) := do
  if let some bpp := frame.pixelFormat.bytesPerPixel then
    let pixels ← mul frame.width.toNat frame.height.toNat
    let _ ← mul pixels bpp
  if frame.paddingX = 0 then
    some (none, expectedPayloadLen frame.pixelFormat frame.width frame.height)
  else
    let line ← frame.pixelFormat.lineBytes frame.width
    let stride ← tryU32 (← add line frame.paddingX.toNat)
    let expected ← mul stride.toNat frame.height.toNat
    some (some stride, some expected)

/-- The bytes published: all, or as many as expected; `none` when there are too few. -/
def imageBytes (payload : List UInt8) : Option Nat → Option (List UInt8)
  | some expected => if payload.length < expected then none else some (payload.take expected)
  | none => some payload

/-- Turns frames into Zenoh messages. -/
structure BlockPublisher where
  imageKey : Text
  imageSeq : UInt32

namespace BlockPublisher

def new (imageKey : Text) : BlockPublisher := ⟨imageKey, 0⟩

/-- The key and framed payload of one image, or `none` when it is dropped. -/
def frameImage (json : Json) (publisher : BlockPublisher) (frame : Frame)
    (metadata : Option FrameMetadata) : Option (Text × List UInt8) × BlockPublisher :=
  match imageGeometry frame with
  | none => (none, publisher)
  | some (rowStride, expected) =>
    match imageBytes frame.payload expected with
    | none => (none, publisher)
    | some bytes =>
      let header : FrameHeader := {
        pixelFormat := frame.pixelFormat
        width := frame.width
        height := frame.height
        seq := publisher.imageSeq
        rowStride := rowStride
        metadata := metadata.or (some frame.metadata) }
      let after := { publisher with imageSeq := publisher.imageSeq + 1 }
      match header.encode json with
      | .error _ => (none, after)
      | .ok prefixBytes => (some (publisher.imageKey, prefixBytes ++ bytes), after)

/-- The images published for a sequence of frames, each with the frame it came from. -/
def frameImages (json : Json) (publisher : BlockPublisher) :
    List (Frame × Option FrameMetadata) → List (Frame × List UInt8)
  | [] => []
  | (frame, metadata) :: rest =>
    let outcome := publisher.frameImage json frame metadata
    match outcome.1 with
    | some (_, bytes) => (frame, bytes) :: frameImages json outcome.2 rest
    | none => frameImages json outcome.2 rest

end BlockPublisher

end VivaGenicam.Service
