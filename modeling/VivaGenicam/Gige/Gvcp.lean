import VivaGenicam.Gige.Status
import VivaGenicam.Library.Bytes

/-!
The GVCP wire format of register and memory commands: the command header, the
acknowledgement and its decoder, and the pending acknowledgement by which a
device asks for more time. Durations are in milliseconds.
-/

namespace VivaGenicam.Gvcp

open Library.Bytes

namespace Consts

def pendingAck : Nat := 0x0089
def controlChannelPrivilege : Nat := 0x0a00
def gencpMaxBlock : Nat := 512
def gencpWriteOverhead : Nat := 8
def controlTimeout : Nat := 500
def maxRetries : Nat := 4
def maxPendingAcks : Nat := 100
def maxPendingAckWait : Nat := 10000

end Consts

def headerSize : Nat := 8
def gvcpCmdKey : UInt8 := 0x42

inductive OpCode where
  | readRegister
  | writeRegister
  | readMem
  | writeMem
deriving DecidableEq, Repr

def OpCode.commandCode : OpCode → Nat
  | .readRegister => 0x0080
  | .writeRegister => 0x0082
  | .readMem => 0x0084
  | .writeMem => 0x0086

def OpCode.ackCode (opcode : OpCode) : Nat := opcode.commandCode + 1

inductive GenCpError where
  | invalidPacket (problem : String)
  | unknownOpcode (code : Nat)
deriving DecidableEq, Repr

def OpCode.fromAck (code : Nat) : Except GenCpError OpCode :=
  match code with
  | 0x0081 => .ok .readRegister
  | 0x0083 => .ok .writeRegister
  | 0x0085 => .ok .readMem
  | 0x0087 => .ok .writeMem
  | _ => .error (.unknownOpcode code)

/-- What a socket operation failed with, as far as the control path looks. -/
inductive IoErrorKind where
  | connectionRefused
  | connectionReset
  | addrNotAvailable
  | other
deriving DecidableEq, Repr

def isIcmpError (kind : IoErrorKind) : Bool :=
  kind == .connectionRefused || kind == .connectionReset

inductive GigeError where
  | io (kind : IoErrorKind)
  | timeout
  | genCp (error : GenCpError)
  | status (status : GigeStatus)
  | malformedAck (command problem : String)
  | ackLength (command : String) (expected got : Nat)
  | packetSize (size : Nat)
deriving DecidableEq, Repr

/-- The GVCP name of a register or memory command, for errors. -/
def commandName : OpCode → String
  | .readRegister => "READREG"
  | .writeRegister => "WRITEREG"
  | .readMem => "READMEM"
  | .writeMem => "WRITEMEM"

structure CommandFlags where
  ackRequired : Bool
  broadcast : Bool
  scheduledAction : Bool
deriving DecidableEq, Repr

structure GvcpRequestHeader where
  flags : CommandFlags
  command : Nat
  length : Nat
  requestId : Nat
deriving DecidableEq, Repr

def GvcpRequestHeader.gvcpFlagsByte (header : GvcpRequestHeader) : UInt8 :=
  (if header.flags.ackRequired then 0x01 else 0) |||
    (if header.flags.broadcast then 0x10 else 0) |||
    (if header.flags.scheduledAction then 0x80 else 0)

def GvcpRequestHeader.encode (header : GvcpRequestHeader) (payload : List UInt8) : List UInt8 :=
  [gvcpCmdKey, header.gvcpFlagsByte] ++ encodeBE 2 header.command ++ encodeBE 2 header.length ++
    encodeBE 2 header.requestId ++ payload

theorem fieldBE_encode (header : GvcpRequestHeader) (payload : List UInt8)
    (hid : header.requestId < 65536) :
    fieldBE (header.encode payload) 6 2 = header.requestId := by
  have hlayout : header.encode payload =
      ([gvcpCmdKey, header.gvcpFlagsByte] ++ encodeBE 2 header.command ++
        encodeBE 2 header.length) ++ (encodeBE 2 header.requestId ++ payload) := by
    simp [GvcpRequestHeader.encode]
  rw [hlayout]
  exact fieldBE_encodeBE _ _ 6 2 _ (by simp) hid

structure AckHeader where
  status : Nat
  opcode : OpCode
  length : Nat
  requestId : Nat
deriving DecidableEq, Repr

structure GenCpAck where
  header : AckHeader
  payload : List UInt8
deriving DecidableEq, Repr

def decodeAck (buf : List UInt8) : Except GenCpError GenCpAck :=
  if buf.length < headerSize then .error (.invalidPacket "too short")
  else if buf.length ≠ headerSize + fieldBE buf 4 2 then
    .error (.invalidPacket "length mismatch")
  else
    match OpCode.fromAck (fieldBE buf 2 2) with
    | .error error => .error error
    | .ok opcode =>
      .ok {
        header := {
          status := fieldBE buf 0 2
          opcode := opcode
          length := fieldBE buf 4 2
          requestId := fieldBE buf 6 2 }
        payload := buf.drop headerSize }

/-- The request id a PENDING_ACK refers to and the extra time it asks for;
`none` for any other datagram. -/
def parsePendingAck (buf : List UInt8) : Option (Nat × Nat) :=
  if buf.length < headerSize then none
  else if fieldBE buf 2 2 ≠ Consts.pendingAck then none
  else
    let requestId := fieldBE buf 6 2
    -- A truncated PENDING_ACK is still a request for more time.
    if (buf.drop headerSize).length < 4 then some (requestId, Consts.controlTimeout)
    else some (requestId, fieldBE buf (headerSize + 2) 2)

theorem decodeAck_ok {buf : List UInt8} {ack : GenCpAck} (h : decodeAck buf = .ok ack) :
    headerSize ≤ buf.length ∧ buf.length = headerSize + fieldBE buf 4 2 ∧
      OpCode.fromAck (fieldBE buf 2 2) = .ok ack.header.opcode ∧
      ack.header.status = fieldBE buf 0 2 ∧ ack.header.length = fieldBE buf 4 2 ∧
      ack.header.requestId = fieldBE buf 6 2 ∧ ack.payload = buf.drop headerSize := by
  unfold decodeAck at h
  split at h
  · cases h
  · split at h
    · cases h
    · cases hop : OpCode.fromAck (fieldBE buf 2 2) with
      | error error => simp [hop] at h
      | ok opcode =>
        simp only [hop, Except.ok.injEq] at h
        subst h
        exact ⟨by omega, by omega, rfl, rfl, rfl, rfl, rfl⟩

/-- No acknowledgement opcode is the PENDING_ACK's, so nothing that decodes as
an acknowledgement asks for more time. -/
theorem parsePendingAck_of_decodeAck {buf : List UInt8} {ack : GenCpAck}
    (h : decodeAck buf = .ok ack) : parsePendingAck buf = none := by
  obtain ⟨hlen, -, hop, -⟩ := decodeAck_ok h
  have hne : fieldBE buf 2 2 ≠ Consts.pendingAck := by
    intro heq
    rw [heq] at hop
    simp [OpCode.fromAck, Consts.pendingAck] at hop
  simp [parsePendingAck, Nat.not_lt.mpr hlen, hne]

/-- An acknowledgement of `payload` with the lengths filled in, as a device
puts it on the wire. -/
def encodeAck (status : Nat) (opcode : OpCode) (requestId : Nat) (payload : List UInt8) :
    List UInt8 :=
  encodeBE 2 status ++ encodeBE 2 opcode.ackCode ++ encodeBE 2 payload.length ++
    encodeBE 2 requestId ++ payload

theorem OpCode.fromAck_ackCode (opcode : OpCode) : fromAck opcode.ackCode = .ok opcode := by
  cases opcode <;> rfl

theorem fieldBE_encodeAck {status requestId : Nat} {opcode : OpCode} {payload : List UInt8}
    (hstatus : status < 65536) (hlength : payload.length < 65536) (hid : requestId < 65536) :
    fieldBE (encodeAck status opcode requestId payload) 0 2 = status ∧
      fieldBE (encodeAck status opcode requestId payload) 2 2 = opcode.ackCode ∧
      fieldBE (encodeAck status opcode requestId payload) 4 2 = payload.length ∧
      fieldBE (encodeAck status opcode requestId payload) 6 2 = requestId := by
  have hopcode : opcode.ackCode < 256 ^ 2 := by cases opcode <;> decide
  unfold encodeAck
  simp only [List.append_assoc]
  refine ⟨?_, ?_, ?_, ?_⟩
  · exact fieldBE_encodeBE [] _ 0 2 _ rfl hstatus
  · exact fieldBE_encodeBE _ _ 2 2 _ (by simp) hopcode
  · rw [← List.append_assoc]
    exact fieldBE_encodeBE _ _ 4 2 _ (by simp) hlength
  · rw [← List.append_assoc, ← List.append_assoc]
    exact fieldBE_encodeBE _ _ 6 2 _ (by simp) hid

theorem length_encodeAck (status : Nat) (opcode : OpCode) (requestId : Nat)
    (payload : List UInt8) :
    (encodeAck status opcode requestId payload).length = headerSize + payload.length := by
  simp [encodeAck, headerSize]
  omega

theorem drop_encodeAck (status : Nat) (opcode : OpCode) (requestId : Nat)
    (payload : List UInt8) :
    (encodeAck status opcode requestId payload).drop headerSize = payload :=
  List.drop_left' (by simp [headerSize])

theorem decodeAck_encodeAck {status requestId : Nat} {opcode : OpCode} {payload : List UInt8}
    (hstatus : status < 65536) (hlength : payload.length < 65536) (hid : requestId < 65536) :
    decodeAck (encodeAck status opcode requestId payload) =
      .ok ⟨⟨status, opcode, payload.length, requestId⟩, payload⟩ := by
  obtain ⟨h0, h2, h4, h6⟩ := @fieldBE_encodeAck _ _ opcode _ hstatus hlength hid
  have hlen := length_encodeAck status opcode requestId payload
  unfold decodeAck
  rw [if_neg (by omega), if_neg (by rw [h4]; omega), h2, OpCode.fromAck_ackCode]
  simp only [h0, h4, h6, drop_encodeAck]

end VivaGenicam.Gvcp
