import VivaGenicam.Gige.StreamRegisters
import VivaGenicam.Library.Bisection

/-!
Choosing a stream's packet size: writing it and reading it back, and probing for the
largest size the path carries. Asking for a test packet is itself a write to the
register that holds the size.
-/

namespace VivaGenicam.Camera

open Gvcp

/-- An error, with what was being done. -/
inductive GenicamError where
  | gige (during : String) (source : GigeError)
  | packetTooSmall (size min : Nat)
deriving DecidableEq, Repr

/-- Access to a device and to the socket its stream goes to. -/
structure StreamLink (σ : Type) extends RegisterAccess σ where
  /-- Discard what is queued on the socket. -/
  drain : σ → σ
  /-- Whether a datagram comes in time, into a buffer of that length. -/
  recv : Nat → σ → Bool × σ

def minPacketSize : Nat := 576

/-- The size at or below which there is nothing to probe, and the control size that
tells whether the device answers at all. -/
def probeFloor : Nat := 1500

namespace StreamLink

variable {σ : Type} (link : StreamLink σ)

/-- Write the packet size, then read back what the device holds. -/
def configurePacketSize (channel requested : Nat) (state : σ) : Except GenicamError Nat × σ :=
  match link.getStreamPacketSize channel state with
  | (current, state) =>
    if current.toOption = some requested then (.ok requested, state)
    else
      match link.setStreamPacketSize channel requested state with
      | (.error error, state) => (.error (.gige "write GevSCPSPacketSize" error), state)
      | (.ok (), state) =>
        match link.getStreamPacketSize channel state with
        -- A device that does not answer the read-back is not failed.
        | (.error _, state) => (.ok requested, state)
        | (.ok effective, state) =>
          if effective = requested then (.ok effective, state)
          else if effective < minPacketSize then
            (.error (.packetTooSmall effective minPacketSize), state)
          else (.ok effective, state)

/-- Ask for one test packet and report whether it arrived. -/
def testPacketArrives (channel size : Nat) (state : σ) : Except GenicamError Bool × σ :=
  match link.requestTestPacket channel size (link.drain state) with
  | (.error error, state) => (.error (.gige "request a test packet" error), state)
  | (.ok (), state) =>
    let received := link.recv (size + 64) state
    (.ok received.1, received.2)

/-- The loop of `probePathCeiling`: `lo` arrives and `hi` does not. -/
def bisect (channel lo hi : Nat) (state : σ) : Except GenicamError Nat × σ :=
  if 1 < hi - lo then
    let mid := lo + (hi - lo) / 2
    match link.testPacketArrives channel mid state with
    | (.error error, state) => (.error error, state)
    | (.ok arrives, state) =>
      if arrives then bisect channel mid hi state else bisect channel lo mid state
  else (.ok lo, state)
termination_by hi - lo
decreasing_by
  · have := Library.Bisection.lt_middle ‹1 < hi - lo›
    unfold Library.Bisection.middle at this
    omega
  · have := Library.Bisection.middle_lt ‹1 < hi - lo›
    unfold Library.Bisection.middle at this
    omega

/-- The rest of `probePathCeiling`, for a device that answered the control test. -/
def probeAnswered (channel requested : Nat) (state : σ) : Except GenicamError Nat × σ :=
  match link.testPacketArrives channel requested state with
  | (.error error, state) => (.error error, state)
  | (.ok true, state) => (.ok requested, state)
  | (.ok false, state) => link.bisect channel probeFloor requested state

/-- The largest size that arrives, or `requested` where the device does not answer
probes at all. Only called for sizes above the floor. -/
def probePathCeiling (channel requested : Nat) (state : σ) : Except GenicamError Nat × σ :=
  match link.testPacketArrives channel probeFloor state with
  | (.error error, state) => (.error error, state)
  | (.ok false, state) => (.ok requested, state)
  | (.ok true, state) => link.probeAnswered channel requested state

def probePacketSize (channel requested : Nat) (state : σ) : Except GenicamError Nat × σ :=
  if requested ≤ probeFloor then (.ok requested, state)
  else
    let doNotFragment := link.streamDoNotFragment channel state
    match link.probePathCeiling channel requested doNotFragment.2 with
    | (.error error, state) => (.error error, state)
    | (.ok negotiated, state) =>
      match link.configurePacketSize channel negotiated state with
      | (.error error, state) => (.error error, state)
      | (.ok negotiated, state) =>
        match doNotFragment.1 with
        | .error _ => (.ok negotiated, state)
        -- A flag that cannot be put back is only logged.
        | .ok on => (.ok negotiated, (link.setStreamDoNotFragment channel on state).2)

end StreamLink

end VivaGenicam.Camera
