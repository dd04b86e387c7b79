import VivaGenicam.Gige.Gvcp

/-!
The packet size of a stream channel. `GevSCPSPacketSize` holds it in its low 16
bits; writing the register with bit 31 set asks for one test packet of that size,
and bit 30 forbids fragmenting.
-/

namespace VivaGenicam.Gvcp

namespace Consts

def streamChannelBase : Nat := 0x0d00
def streamChannelStride : Nat := 0x40
def streamPacketSize : Nat := 0x04
def streamPacketSizeMask : BitVec 32 := 0xFFFF
def scpsFireTestPacket : BitVec 32 := 0x80000000
def scpsDoNotFragment : BitVec 32 := 0x40000000

end Consts

open Consts

def streamReg (channel offset : Nat) : Nat :=
  streamChannelBase + channel * streamChannelStride + offset

/-- Register access to a device: what a read and a write come to in a state. -/
structure RegisterAccess (σ : Type) where
  readU32 : Nat → σ → Except GigeError (BitVec 32) × σ
  writeU32 : Nat → BitVec 32 → σ → Except GigeError Unit × σ

namespace RegisterAccess

variable {σ : Type} (device : RegisterAccess σ)

/-- Configure the packet size, keeping the flags the register holds. A register that
cannot be read first is written with the size alone. -/
def setStreamPacketSize (channel packetSize : Nat) (state : σ) : Except GigeError Unit × σ :=
  if streamPacketSizeMask.toNat < packetSize then (.error (.packetSize packetSize), state)
  else
    let addr := streamReg channel streamPacketSize
    let read := device.readU32 addr state
    let flags := match read.1 with
      | .ok raw => raw &&& ~~~(streamPacketSizeMask ||| scpsFireTestPacket)
      | .error _ => 0
    device.writeU32 addr (flags ||| BitVec.ofNat 32 packetSize) read.2

def streamDoNotFragment (channel : Nat) (state : σ) : Except GigeError Bool × σ :=
  match device.readU32 (streamReg channel streamPacketSize) state with
  | (.ok raw, state) => (.ok (raw &&& scpsDoNotFragment != 0), state)
  | (.error error, state) => (.error error, state)

/-- Set or clear the do-not-fragment flag, keeping the size. -/
def setStreamDoNotFragment (channel : Nat) (on : Bool) (state : σ) : Except GigeError Unit × σ :=
  let addr := streamReg channel streamPacketSize
  match device.readU32 addr state with
  | (.ok word, state) =>
    let raw := word &&& ~~~scpsFireTestPacket
    let word := if on then raw ||| scpsDoNotFragment else raw &&& ~~~scpsDoNotFragment
    if word ≠ raw then device.writeU32 addr word state else (.ok (), state)
  | (.error error, state) => (.error error, state)

/-- Ask for one test packet. The request is a write to the register that holds the
packet size. -/
def requestTestPacket (channel packetSize : Nat) (state : σ) : Except GigeError Unit × σ :=
  if streamPacketSizeMask.toNat < packetSize then (.error (.packetSize packetSize), state)
  else
    device.writeU32 (streamReg channel streamPacketSize)
      (BitVec.ofNat 32 packetSize ||| scpsFireTestPacket ||| scpsDoNotFragment) state

def getStreamPacketSize (channel : Nat) (state : σ) : Except GigeError Nat × σ :=
  match device.readU32 (streamReg channel streamPacketSize) state with
  | (.ok raw, state) => (.ok (raw &&& streamPacketSizeMask).toNat, state)
  | (.error error, state) => (.error error, state)

end RegisterAccess

def heldSize (word : BitVec 32) : Nat := (word &&& streamPacketSizeMask).toNat

theorem heldSize_le (word : BitVec 32) : heldSize word ≤ streamPacketSizeMask.toNat := by
  rw [heldSize, BitVec.toNat_and]
  exact Nat.and_le_right

theorem heldSize_ofNat {size : Nat} (h : size ≤ streamPacketSizeMask.toNat) :
    heldSize (BitVec.ofNat 32 size) = size := by
  have hmask : streamPacketSizeMask.toNat = 2 ^ 16 - 1 := by decide
  rw [heldSize, BitVec.toNat_and, hmask, Nat.and_two_pow_sub_one_eq_mod, BitVec.toNat_ofNat]
  omega

theorem heldSize_or {left right : BitVec 32} (h : left &&& streamPacketSizeMask = 0#32) :
    heldSize (left ||| right) = heldSize right := by
  rw [heldSize, BitVec.and_or_distrib_right, h, BitVec.zero_or, heldSize]

theorem heldSize_or_right {left right : BitVec 32} (h : right &&& streamPacketSizeMask = 0#32) :
    heldSize (left ||| right) = heldSize left := by
  rw [BitVec.or_comm, heldSize_or h]

theorem heldSize_and {word kept : BitVec 32}
    (h : kept &&& streamPacketSizeMask = streamPacketSizeMask) :
    heldSize (word &&& kept) = heldSize word := by
  rw [heldSize, BitVec.and_assoc, h, heldSize]

theorem heldSize_flagged (word : BitVec 32) (on : Bool) :
    heldSize (if on then (word &&& ~~~scpsFireTestPacket) ||| scpsDoNotFragment
      else (word &&& ~~~scpsFireTestPacket) &&& ~~~scpsDoNotFragment) = heldSize word := by
  have hfire : ~~~scpsFireTestPacket &&& streamPacketSizeMask = streamPacketSizeMask := by decide
  cases on with
  | true => rw [if_pos rfl, heldSize_or_right (by decide), heldSize_and hfire]
  | false => rw [if_neg (by simp), heldSize_and (by decide), heldSize_and hfire]

theorem heldSize_testPacket {size : Nat} (h : size ≤ streamPacketSizeMask.toNat) :
    heldSize (BitVec.ofNat 32 size ||| scpsFireTestPacket ||| scpsDoNotFragment) = size := by
  rw [heldSize_or_right (by decide), heldSize_or_right (by decide), heldSize_ofNat h]

theorem heldSize_configured {size : Nat} (h : size ≤ streamPacketSizeMask.toNat)
    (word : BitVec 32) :
    heldSize (word &&& ~~~(streamPacketSizeMask ||| scpsFireTestPacket) |||
      BitVec.ofNat 32 size) = size := by
  rw [heldSize_or, heldSize_ofNat h]
  rw [BitVec.and_assoc, show ~~~(streamPacketSizeMask ||| scpsFireTestPacket) &&&
    streamPacketSizeMask = 0#32 by decide, BitVec.and_zero]

end VivaGenicam.Gvcp
