import VivaGenicam.Service.FrameMetadata
import VivaGenicam.Pixel.Format
import VivaGenicam.Library.Bytes
import VivaGenicam.Library.Checked

/-!
The binary envelope of an image: a fixed prefix of 24 bytes, a bounded metadata
object, and the pixels after it. Decoding fails with `none` where the program
would index outside the buffer.
-/

namespace VivaGenicam.Service

open VivaGenicam.Pixel Library.Bytes Library.Checked

def frameMagic : Nat := 0x4746
def headerSize : Nat := 24
def supportedVersion : Nat := 3

inductive FrameHeaderError where
  | tooShort (length : Nat)
  | badMagic (got : Nat)
  | unsupportedVersion (version : Nat)
  | metadataTooLarge (size : Nat)
  | truncatedMetadata
  | invalidMetadata (problem : Text)
deriving DecidableEq, Repr

@[ext]
structure FrameHeader where
  pixelFormat : PixelFormat
  width : UInt32
  height : UInt32
  seq : UInt32
  rowStride : Option UInt32
  metadata : Option FrameMetadata
deriving DecidableEq, Repr

def wireCodes : List (Nat × PixelFormat) :=
  [(1, .mono8), (2, .mono10), (3, .mono12), (4, .mono16), (5, .bayerRG8), (6, .bayerGR8),
    (7, .bayerBG8), (8, .bayerGB8), (9, .bayerRG10), (10, .bayerGR10), (11, .bayerBG10),
    (12, .bayerGB10), (13, .bayerRG12), (14, .bayerGR12), (15, .bayerBG12), (16, .bayerGB12),
    (17, .bayerRG16), (18, .bayerGR16), (19, .bayerBG16), (20, .bayerGB16), (21, .rgb8Packed),
    (22, .bgr8Packed), (23, .rgba8), (24, .yCbCr422_8), (25, .yCbCr8), (26, .coord3DC16),
    (27, .mono14), (28, .mono10p), (29, .mono12p), (30, .mono10Packed), (31, .mono12Packed),
    (32, .bayerRG10p), (33, .bayerGR10p), (34, .bayerBG10p), (35, .bayerGB10p),
    (36, .bayerRG12p), (37, .bayerGR12p), (38, .bayerBG12p), (39, .bayerGB12p),
    (40, .bayerRG10Packed), (41, .bayerGR10Packed), (42, .bayerBG10Packed),
    (43, .bayerGB10Packed), (44, .bayerRG12Packed), (45, .bayerGR12Packed),
    (46, .bayerBG12Packed), (47, .bayerGB12Packed), (48, .bgra8), (49, .yuv422_8),
    (50, .yuv422_8_UYVY), (51, .yCbCr422_8_CbYCrY), (52, .yuv411_8_UYYVYY), (53, .yuv8_UYV),
    (54, .yCbCr8_CbYCr)]

/-- The byte a format travels as; 0 for a format without a code. -/
def pixelFormatToU8 (format : PixelFormat) : Nat :=
  match wireCodes.find? fun entry => entry.2 = format with
  | some (code, _) => code
  | none => 0

def u8ToPixelFormat (code : Nat) : PixelFormat :=
  match wireCodes.find? fun entry => entry.1 = code with
  | some (_, format) => format
  | none => .unknown 0

namespace FrameHeader

/-- The metadata the encoder keeps, and its text. -/
def keptMetadata (json : Json) (header : FrameHeader) :
    Except FrameHeaderError (Option FrameMetadata × List UInt8) :=
  match header.metadata with
  | none => .ok (none, [])
  | some metadata =>
    match FrameMetadata.encodeKept json metadata with
    | .error error => .error (.invalidMetadata error)
    | .ok (kept, bytes) => .ok (some kept, bytes)

def fixed (header : FrameHeader) (size : Nat) : List UInt8 :=
  encodeLE 2 frameMagic ++ (encodeLE 1 supportedVersion ++
    (encodeLE 1 (pixelFormatToU8 header.pixelFormat) ++ (encodeLE 4 header.width.toNat ++
    (encodeLE 4 header.height.toNat ++ (encodeLE 4 header.seq.toNat ++
    (encodeLE 4 (header.rowStride.getD 0).toNat ++ encodeLE 4 size))))))

def encode (json : Json) (header : FrameHeader) : Except FrameHeaderError (List UInt8) := do
  let (_, metadata) ← header.keptMetadata json
  .ok (header.fixed metadata.length ++ metadata)

/-- The little-endian number of `width` bytes at `offset`. -/
def field (buf : List UInt8) (offset width : Nat) : Option Nat :=
  (slice buf offset width).map decodeLE

/-- Decode bounded metadata before exposing the remaining image bytes. -/
def decode (json : Json) (buf : List UInt8) :
    Option (Except FrameHeaderError (FrameHeader × List UInt8)) :=
  if buf.length < headerSize then some (.error (.tooShort buf.length))
  else do
    let magic ← field buf 0 2
    if magic ≠ frameMagic then some (.error (.badMagic magic))
    else
      let version ← field buf 2 1
      if version ≠ supportedVersion then some (.error (.unsupportedVersion version))
      else
        let size ← field buf 20 4
        if maxFrameMetadataBytes < size then some (.error (.metadataTooLarge size))
        else if buf.length < headerSize + size then some (.error .truncatedMetadata)
        else
          let text ← slice buf headerSize size
          let metadata : Except Text (Option FrameMetadata) :=
            if size = 0 then .ok none else (FrameMetadata.decode json text).map some
          match metadata with
          | .error error => some (.error (.invalidMetadata error))
          | .ok metadata =>
            let stride ← field buf 16 4
            let code ← field buf 3 1
            let width ← field buf 4 4
            let height ← field buf 8 4
            let seq ← field buf 12 4
            some (.ok ({
              pixelFormat := u8ToPixelFormat code
              width := UInt32.ofNat width
              height := UInt32.ofNat height
              seq := UInt32.ofNat seq
              rowStride := if stride ≠ 0 then some (UInt32.ofNat stride) else none
              metadata := metadata }, buf.drop (headerSize + size)))

end FrameHeader

end VivaGenicam.Service
