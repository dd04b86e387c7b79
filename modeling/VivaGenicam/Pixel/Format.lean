import VivaGenicam.Library.Checked

/-!
Pixel formats: the codes of the PFNC table, and how many bytes a line or an
image of each takes.
-/

namespace VivaGenicam.Pixel

open Library.Checked

inductive PixelFormat where
  | mono8 | mono10 | mono12 | mono14 | mono16 | mono10p | mono12p | mono10Packed | mono12Packed
  | confidence8 | coord3DC16 | coord3DC32f | coord3DAC16 | coord3DAC32f | coord3DABC32f
  | bayerGR8 | bayerRG8 | bayerGB8 | bayerBG8 | bayerGR10 | bayerRG10 | bayerGB10 | bayerBG10
  | bayerGR12 | bayerRG12 | bayerGB12 | bayerBG12 | bayerGR16 | bayerRG16 | bayerGB16
  | bayerBG16 | bayerGR10p | bayerRG10p | bayerGB10p | bayerBG10p | bayerGR12p | bayerRG12p
  | bayerGB12p | bayerBG12p | bayerGR10Packed | bayerRG10Packed | bayerGB10Packed
  | bayerBG10Packed | bayerGR12Packed | bayerRG12Packed | bayerGB12Packed | bayerBG12Packed
  | rgb8Packed | bgr8Packed | rgba8 | bgra8 | yuv411_8_UYYVYY | yuv422_8_UYVY | yuv422_8
  | yCbCr422_8 | yCbCr422_8_CbYCrY | yuv8_UYV | yCbCr8_CbYCr | yCbCr8 | vendorLucidEvsEvt30
  | vendorLucidEvsEvt21
  | unknown (code : Nat)
deriving DecidableEq, Repr

namespace PixelFormat

/-- The PFNC code; bits 23-16 are the bits of a pixel. -/
def code : PixelFormat → Nat
  | .mono8 => 0x01080001
  | .mono10 => 0x01100003
  | .mono12 => 0x01100005
  | .mono14 => 0x01100025
  | .mono16 => 0x01100007
  | .mono10p => 0x010A0046
  | .mono12p => 0x010C0047
  | .mono10Packed => 0x010C0004
  | .mono12Packed => 0x010C0006
  | .confidence8 => 0x010800C6
  | .coord3DC16 => 0x011000B8
  | .coord3DC32f => 0x012000BF
  | .coord3DAC16 => 0x022000BB
  | .coord3DAC32f => 0x024000C2
  | .coord3DABC32f => 0x026000C0
  | .bayerGR8 => 0x01080008
  | .bayerRG8 => 0x01080009
  | .bayerGB8 => 0x0108000A
  | .bayerBG8 => 0x0108000B
  | .bayerGR10 => 0x0110000C
  | .bayerRG10 => 0x0110000D
  | .bayerGB10 => 0x0110000E
  | .bayerBG10 => 0x0110000F
  | .bayerGR12 => 0x01100010
  | .bayerRG12 => 0x01100011
  | .bayerGB12 => 0x01100012
  | .bayerBG12 => 0x01100013
  | .bayerGR16 => 0x0110002E
  | .bayerRG16 => 0x0110002F
  | .bayerGB16 => 0x01100030
  | .bayerBG16 => 0x01100031
  | .bayerGR10p => 0x010A0056
  | .bayerRG10p => 0x010A0058
  | .bayerGB10p => 0x010A0054
  | .bayerBG10p => 0x010A0052
  | .bayerGR12p => 0x010C0057
  | .bayerRG12p => 0x010C0059
  | .bayerGB12p => 0x010C0055
  | .bayerBG12p => 0x010C0053
  | .bayerGR10Packed => 0x010C0026
  | .bayerRG10Packed => 0x010C0027
  | .bayerGB10Packed => 0x010C0028
  | .bayerBG10Packed => 0x010C0029
  | .bayerGR12Packed => 0x010C002A
  | .bayerRG12Packed => 0x010C002B
  | .bayerGB12Packed => 0x010C002C
  | .bayerBG12Packed => 0x010C002D
  | .rgb8Packed => 0x02180014
  | .bgr8Packed => 0x02180015
  | .rgba8 => 0x02200016
  | .bgra8 => 0x02200017
  | .yuv411_8_UYYVYY => 0x020C001E
  | .yuv422_8_UYVY => 0x0210001F
  | .yuv422_8 => 0x02100032
  | .yCbCr422_8 => 0x0210003B
  | .yCbCr422_8_CbYCrY => 0x02100043
  | .yuv8_UYV => 0x02180020
  | .yCbCr8_CbYCr => 0x0218003A
  | .yCbCr8 => 0x0218005B
  | .vendorLucidEvsEvt30 => 0x81100E30
  | .vendorLucidEvsEvt21 => 0x81400E21
  | .unknown code => code

def sizeField (format : PixelFormat) : Nat := (format.code >>> 16) &&& 0xFF

def bytesPerPixel (format : PixelFormat) : Option Nat :=
  if format.sizeField = 0 ∨ ¬ 8 ∣ format.sizeField then none else some (format.sizeField / 8)

def bitsPerPixel (format : PixelFormat) : Option Nat :=
  if format.sizeField = 0 then none else some format.sizeField

/-- The smallest run of `(pixels, bytes)` that starts on a byte boundary. -/
def group (format : PixelFormat) : Option (Nat × Nat) :=
  match format with
  | .yuv422_8 | .yuv422_8_UYVY | .yCbCr422_8 | .yCbCr422_8_CbYCrY => some (2, 4)
  | .yuv411_8_UYYVYY => some (4, 6)
  | .vendorLucidEvsEvt30 | .vendorLucidEvsEvt21 => none
  | _ =>
    match format.bitsPerPixel with
    | none => none
    | some bits =>
      let common := Nat.gcd bits 8
      some (8 / common, bits / common)

/-- The bytes of `pixels` pixels from a group boundary on, the last group completed. -/
def bytesFor (format : PixelFormat) (pixels : Nat) : Option Nat :=
  match format.group with
  | none => none
  | some (groupPixels, groupBytes) => mul ((pixels + groupPixels - 1) / groupPixels) groupBytes

def lineBytes (format : PixelFormat) (width : UInt32) : Option Nat :=
  format.bytesFor width.toNat

def imageBytes (format : PixelFormat) (width height : UInt32) : Option Nat :=
  match mul width.toNat height.toNat with
  | none => none
  | some pixels => format.bytesFor pixels

def cfaPattern : PixelFormat → Option (Nat × Nat)
  | .bayerRG8 | .bayerRG10 | .bayerRG12 | .bayerRG16 | .bayerRG10p | .bayerRG12p
  | .bayerRG10Packed | .bayerRG12Packed => some (0, 0)
  | .bayerGR8 | .bayerGR10 | .bayerGR12 | .bayerGR16 | .bayerGR10p | .bayerGR12p
  | .bayerGR10Packed | .bayerGR12Packed => some (1, 0)
  | .bayerGB8 | .bayerGB10 | .bayerGB12 | .bayerGB16 | .bayerGB10p | .bayerGB12p
  | .bayerGB10Packed | .bayerGB12Packed => some (0, 1)
  | .bayerBG8 | .bayerBG10 | .bayerBG12 | .bayerBG16 | .bayerBG10p | .bayerBG12p
  | .bayerBG10Packed | .bayerBG12Packed => some (1, 1)
  | _ => none

end PixelFormat

end VivaGenicam.Pixel
