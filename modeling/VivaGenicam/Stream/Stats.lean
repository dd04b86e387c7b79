import Mathlib.Tactic

/-!
The counters of one stream that block assembly writes. Frame counters that the
delivery side writes, and the smoothed rates, are not part of this module.
-/

namespace VivaGenicam.Stream

structure StreamStats where
  framesMissed : Nat := 0
  framesUnsupported : Nat := 0
  packetsDuplicate : Nat := 0
  packetsMissing : Nat := 0
  ignoredMalformed : Nat := 0
  ignoredUnsupported : Nat := 0
  ignoredOutOfRange : Nat := 0
  ignoredLate : Nat := 0
  ignoredErrorStatus : Nat := 0
  ignoredForeign : Nat := 0
  packetsSizeMismatch : Nat := 0
  resendRequested : Nat := 0
  resendRecovered : Nat := 0
  resendUnavailable : Nat := 0
deriving DecidableEq, Repr

/-- Why a received packet was not used. -/
inductive IgnoredPacket where
  | malformed
  | unsupported
  | outOfRange
  | late
  | errorStatus
  | foreign
deriving DecidableEq, Repr

namespace StreamStats

def recordDuplicatePacket (stats : StreamStats) : StreamStats :=
  { stats with packetsDuplicate := stats.packetsDuplicate + 1 }

def recordIgnoredPacket (stats : StreamStats) (reason : IgnoredPacket) : StreamStats :=
  match reason with
  | .malformed => { stats with ignoredMalformed := stats.ignoredMalformed + 1 }
  | .unsupported => { stats with ignoredUnsupported := stats.ignoredUnsupported + 1 }
  | .outOfRange => { stats with ignoredOutOfRange := stats.ignoredOutOfRange + 1 }
  | .late => { stats with ignoredLate := stats.ignoredLate + 1 }
  | .errorStatus => { stats with ignoredErrorStatus := stats.ignoredErrorStatus + 1 }
  | .foreign => { stats with ignoredForeign := stats.ignoredForeign + 1 }

def recordSizeMismatch (stats : StreamStats) : StreamStats :=
  { stats with packetsSizeMismatch := stats.packetsSizeMismatch + 1 }

def recordResendRequested (stats : StreamStats) (count : Nat) : StreamStats :=
  { stats with resendRequested := stats.resendRequested + count }

def recordResendRecovered (stats : StreamStats) : StreamStats :=
  { stats with resendRecovered := stats.resendRecovered + 1 }

def recordResendUnavailable (stats : StreamStats) (count : Nat) : StreamStats :=
  { stats with resendUnavailable := stats.resendUnavailable + count }

def recordMissingPackets (stats : StreamStats) (count : Nat) : StreamStats :=
  { stats with packetsMissing := stats.packetsMissing + count }

def recordMissedFrames (stats : StreamStats) (count : Nat) : StreamStats :=
  { stats with framesMissed := stats.framesMissed + count }

def recordUnsupportedBlock (stats : StreamStats) : StreamStats :=
  { stats with framesUnsupported := stats.framesUnsupported + 1 }

/-- The sum of all `packets_ignored_*` counters. -/
def packetsIgnored (stats : StreamStats) : Nat :=
  stats.ignoredMalformed + stats.ignoredUnsupported + stats.ignoredOutOfRange +
    stats.ignoredLate + stats.ignoredErrorStatus + stats.ignoredForeign

end StreamStats

end VivaGenicam.Stream
