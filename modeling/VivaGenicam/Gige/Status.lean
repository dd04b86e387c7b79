import Mathlib.Tactic

/-!
Status codes: the core GenCP and GigE Vision share, the GigE Vision table that
GVCP acknowledgements and GVSP packets use, and the USB3 Vision table. Each
transport's table is consulted before the shared core, because `0x800B` means
different things on the two.
-/

namespace VivaGenicam

inductive StatusCode where
  | success
  | notImplemented
  | invalidParameter
  | invalidAddress
  | writeProtect
  | badAlignment
  | accessDenied
  | busy
  | invalidHeader
  | wrongConfig
  | genericError
deriving DecidableEq, Repr

/-- The shared meaning of a raw status, if the core has one. -/
def StatusCode.fromRaw (raw : Nat) : Option StatusCode :=
  match raw with
  | 0x0000 => some .success
  | 0x8001 => some .notImplemented
  | 0x8002 => some .invalidParameter
  | 0x8003 => some .invalidAddress
  | 0x8004 => some .writeProtect
  | 0x8005 => some .badAlignment
  | 0x8006 => some .accessDenied
  | 0x8007 => some .busy
  | 0x800E => some .invalidHeader
  | 0x800F => some .wrongConfig
  | 0x8FFF => some .genericError
  | _ => none

inductive GigeStatus where
  | common (code : StatusCode)
  | packetResend
  | localProblem
  | msgMismatch
  | invalidProtocol
  | noMsg
  | packetUnavailable
  | dataOverrun
  | packetNotYetAvailable
  | packetAndPreviousRemovedFromMemory
  | packetRemovedFromMemory
  | noRefTime
  | packetTemporarilyUnavailable
  | overflow
  | actionLate
  | leaderTrailerOverflow
  | unknown (raw : Nat)
deriving DecidableEq, Repr

def GigeStatus.fromRaw (raw : Nat) : GigeStatus :=
  match raw with
  | 0x0100 => .packetResend
  | 0x8008 => .localProblem
  | 0x8009 => .msgMismatch
  | 0x800A => .invalidProtocol
  | 0x800B => .noMsg
  | 0x800C => .packetUnavailable
  | 0x800D => .dataOverrun
  | 0x8010 => .packetNotYetAvailable
  | 0x8011 => .packetAndPreviousRemovedFromMemory
  | 0x8012 => .packetRemovedFromMemory
  | 0x8013 => .noRefTime
  | 0x8014 => .packetTemporarilyUnavailable
  | 0x8015 => .overflow
  | 0x8016 => .actionLate
  | 0x8017 => .leaderTrailerOverflow
  | _ =>
    match StatusCode.fromRaw raw with
    | some code => .common code
    | none => .unknown raw

def GigeStatus.isSuccess (status : GigeStatus) : Bool := status == .common .success

def GigeStatus.isRetryable (status : GigeStatus) : Bool := status == .common .busy

inductive U3vStatus where
  | common (code : StatusCode)
  | msgTimeout
  | resendNotSupported
  | dsiEndpointHalted
  | siPayloadSizeNotAligned
  | siRegistersInconsistent
  | dataDiscarded
  | dataOverrun
  | unknown (raw : Nat)
deriving DecidableEq, Repr

def U3vStatus.fromRaw (raw : Nat) : U3vStatus :=
  match raw with
  | 0x800B => .msgTimeout
  | 0xA001 => .resendNotSupported
  | 0xA002 => .dsiEndpointHalted
  | 0xA003 => .siPayloadSizeNotAligned
  | 0xA004 => .siRegistersInconsistent
  | 0xA100 => .dataDiscarded
  | 0xA101 => .dataOverrun
  | _ =>
    match StatusCode.fromRaw raw with
    | some code => .common code
    | none => .unknown raw

def U3vStatus.isSuccess (status : U3vStatus) : Bool := status == .common .success

end VivaGenicam
