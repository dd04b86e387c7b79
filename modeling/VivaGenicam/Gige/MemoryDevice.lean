import VivaGenicam.Gige.Memory
import VivaGenicam.Gige.Waiting

/-!
A device that is a byte memory over the 32-bit addresses. It serves READMEM and
WRITEMEM where the address and the byte count are multiples of 4 and the range
lies inside the memory, and refuses them otherwise. On the bench every command
is answered once, and every acknowledgement arrives.
-/

namespace VivaGenicam.Gvcp

open Library.Bytes Library.Transition

def addressSpace : Nat := 2 ^ 32

/-- What devices are free to do: echo the address of a READMEM or not, fill the
payload of a WRITEMEM acknowledgement, and name a reason for a refusal. -/
structure MemoryCamera where
  echo : Bool
  writeAck : List UInt8
  refusal : Nat
  writeAck_length : writeAck.length ≤ 4
  refusal_lt : refusal < 65536
  refusal_final : (GigeStatus.fromRaw refusal).isSuccess = false ∧
    (GigeStatus.fromRaw refusal).isRetryable = false

/-- A command as the device reads it off the wire. -/
structure Command where
  opcode : OpCode
  address : Nat
  count : Nat
deriving DecidableEq, Repr

def Command.Served (command : Command) : Prop :=
  4 ∣ command.address ∧ 4 ∣ command.count ∧ command.address + command.count ≤ addressSpace

instance (command : Command) : Decidable command.Served :=
  inferInstanceAs (Decidable (_ ∧ _ ∧ _))

def readBytes (memory : Nat → UInt8) (address count : Nat) : List UInt8 :=
  (List.range count).map fun index => memory (address + index)

def writeBytes (memory : Nat → UInt8) (address : Nat) (data : List UInt8) : Nat → UInt8 :=
  fun at_ =>
    if address ≤ at_ ∧ at_ < address + data.length then data.getD (at_ - address) 0
    else memory at_

/-- What the device does with a command's payload: its acknowledgement's status
and payload, the memory after it, and the command as it was read. -/
def MemoryCamera.perform (camera : MemoryCamera) (memory : Nat → UInt8) (opcode : OpCode)
    (payload : List UInt8) : Nat × List UInt8 × (Nat → UInt8) × Command :=
  match opcode with
  | .writeMem =>
    let command : Command := ⟨.writeMem, fieldBE payload 0 4, (payload.drop 4).length⟩
    if command.Served then
      (0, camera.writeAck, writeBytes memory command.address (payload.drop 4), command)
    else (camera.refusal, [], memory, command)
  | _ =>
    let command : Command := ⟨opcode, fieldBE payload 0 4, fieldBE payload 6 2⟩
    if opcode = .readMem ∧ command.Served then
      (0, (if camera.echo then encodeBE 4 command.address else []) ++
        readBytes memory command.address command.count, memory, command)
    else (camera.refusal, [], memory, command)

def OpCode.fromCommand (code : Nat) : Option OpCode :=
  match code with
  | 0x0080 => some .readRegister
  | 0x0082 => some .writeRegister
  | 0x0084 => some .readMem
  | 0x0086 => some .writeMem
  | _ => none

def MemoryCamera.handle (camera : MemoryCamera) (memory : Nat → UInt8) (datagram : List UInt8) :
    Option (List UInt8 × (Nat → UInt8) × Command) :=
  (OpCode.fromCommand (fieldBE datagram 2 2)).map fun opcode =>
    let (status, payload, after, command) :=
      camera.perform memory opcode (datagram.drop headerSize)
    (encodeAck status opcode (fieldBE datagram 6 2) payload, after, command)

structure Bench where
  device : GigeDevice
  memory : Nat → UInt8
  received : List Command

def MemoryCamera.transact (camera : MemoryCamera) (bench : Bench) (opcode : OpCode)
    (payload : List UInt8) : Except GigeError GenCpAck × Bench :=
  let now := bench.device.lastCommandSent
  match camera.handle bench.memory (commandDatagram opcode payload bench.device.requestId) with
  | none =>
    let call := transactWithRetry opcode payload bench.device [⟨none, none, now, []⟩]
    (call.1.getD (.error .timeout), { bench with device := call.2 })
  | some (answer, memory, command) =>
    let call := transactWithRetry opcode payload bench.device
      [⟨none, none, now, [⟨now, .datagram answer⟩]⟩]
    (call.1.getD (.error .timeout),
      { device := call.2, memory := memory, received := bench.received ++ [command] })

/-- The counter of a device is 16 bits wide. -/
def Bench.Ready (bench : Bench) : Prop := bench.device.requestId < 65536

theorem nextRequestId_lt (device : GigeDevice) : device.nextRequestId.2.requestId < 65536 := by
  simp only [GigeDevice.nextRequestId]
  split
  · decide
  · exact Nat.mod_lt _ (by decide)

theorem transact_requestId_lt (opcode : OpCode) (payload : List UInt8) (device : GigeDevice)
    (rounds : List Attempt) :
    (transactWithRetry opcode payload device rounds).2.requestId < 65536 := by
  apply retryLoop_invariant (fun after => after.requestId < 65536)
  · exact fun after time h => h
  · intro after time failure _
    have hchosen : (after.keepaliveId device.nextRequestId.1).2.requestId < 65536 := by
      unfold GigeDevice.keepaliveId
      dsimp only
      split
      · exact nextRequestId_lt _
      · exact nextRequestId_lt _
    unfold GigeDevice.sendInflightKeepalive
    cases failure with
    | none => exact hchosen
    | some kind => exact hchosen
  · exact fun after h => h
  · exact fun after h => h
  · exact nextRequestId_lt device

variable {status : Nat} {opcode : OpCode} {ackPayload : List UInt8}

theorem wait_answered (terms : Terms) (now : Nat)
    (hid : terms.requestId < 65536) (hstatus : status < 65536) (hlength : ackPayload.length ≤ 520) :
    (terms.wait ⟨none, none, now,
        [⟨now, .datagram (encodeAck status opcode terms.requestId ackPayload)⟩]⟩).ended =
      some (.received (encodeAck status opcode terms.requestId ackPayload)) := by
  have hdecode := @decodeAck_encodeAck _ _ opcode _ hstatus
    (by omega : ackPayload.length < 65536) hid
  obtain ⟨-, -, -, hackId⟩ := @fieldBE_encodeAck _ _ opcode _ hstatus
    (by omega : ackPayload.length < 65536) hid
  have hlen := length_encodeAck status opcode terms.requestId ackPayload
  set answer := encodeAck status opcode terms.requestId ackPayload
  have hwhole : answer.take bufferSize = answer := by
    apply List.take_of_length_le
    rw [hlen]
    simp only [bufferSize, Consts.gencpMaxBlock, Consts.gencpWriteOverhead]
    omega
  have hforeign : foreign terms.requestId answer = false := by
    have : ackId answer = some (fieldBE answer 6 2) := if_neg (by omega)
    simp [foreign, this, hackId]
  simp [Terms.wait, Terms.start, Wait.turn, Wait.wake, Wait.hear, hwhole, hforeign,
    parsePendingAck_of_decodeAck hdecode]

theorem retryLoop_answered {requestId attempt : Nat} {encoded : List UInt8}
    (device : GigeDevice) (now : Nat)
    (hid : requestId < 65536) (hstatus : status < 65536) (hlength : ackPayload.length ≤ 520)
    (hfinal : (GigeStatus.fromRaw status).isRetryable = false) :
    (retryLoop opcode requestId encoded attempt device [⟨none, none, now,
        [⟨now, .datagram (encodeAck status opcode requestId ackPayload)⟩]⟩]).1 =
      some (if (GigeStatus.fromRaw status).isSuccess then
          .ok ⟨⟨status, opcode, ackPayload.length, requestId⟩, ackPayload⟩
        else .error (.status (GigeStatus.fromRaw status))) := by
  have hdecode := @decodeAck_encodeAck _ _ opcode _ hstatus
    (by omega : ackPayload.length < 65536) hid
  have hwait : ((device.terms requestId).wait ⟨none, none, now,
      [⟨now, .datagram (encodeAck status opcode requestId ackPayload)⟩]⟩).ended =
        some (.received (encodeAck status opcode requestId ackPayload)) :=
    wait_answered (device.terms requestId) now hid hstatus hlength
  rw [retryLoop_sent rfl, hwait]
  simp only [settle, hdecode, hfinal, Bool.false_and, Bool.false_eq_true, if_false, ne_eq,
    not_true_eq_false]
  split
  · rfl
  · rfl

theorem transact_answered (payload : List UInt8) {device : GigeDevice}
    (hid : device.requestId < 65536) (now : Nat)
    (hstatus : status < 65536) (hlength : ackPayload.length ≤ 520)
    (hfinal : (GigeStatus.fromRaw status).isRetryable = false) :
    (transactWithRetry opcode payload device [⟨none, none, now,
        [⟨now, .datagram (encodeAck status opcode device.requestId ackPayload)⟩]⟩]).1 =
      some (if (GigeStatus.fromRaw status).isSuccess then
          .ok ⟨⟨status, opcode, ackPayload.length, device.requestId⟩, ackPayload⟩
        else .error (.status (GigeStatus.fromRaw status))) :=
  retryLoop_answered _ now hid hstatus hlength hfinal

theorem fieldBE_commandDatagram (opcode : OpCode) (payload : List UInt8) (requestId : Nat) :
    OpCode.fromCommand (fieldBE (commandDatagram opcode payload requestId) 2 2) = some opcode := by
  have hcode : opcode.commandCode < 256 ^ 2 := by cases opcode <;> decide
  have hlayout : ∀ header : GvcpRequestHeader, header.encode payload =
      [gvcpCmdKey, header.gvcpFlagsByte] ++ (encodeBE 2 header.command ++
        (encodeBE 2 header.length ++ encodeBE 2 header.requestId ++ payload)) := by
    intro header
    simp [GvcpRequestHeader.encode]
  rw [commandDatagram, hlayout, fieldBE_encodeBE _ _ 2 2 _ rfl hcode]
  cases opcode <;> rfl

theorem drop_commandDatagram (opcode : OpCode) (payload : List UInt8) (requestId : Nat) :
    (commandDatagram opcode payload requestId).drop headerSize = payload :=
  List.drop_left' (by simp [headerSize])

variable {bench : Bench} (camera : MemoryCamera)

theorem transact_perform (hready : bench.Ready)
    (opcode : OpCode) (payload : List UInt8) {memory : Nat → UInt8} {command : Command}
    (hperform : camera.perform bench.memory opcode payload = (status, ackPayload, memory, command))
    (hstatus : status < 65536) (hlength : ackPayload.length ≤ 520)
    (hfinal : (GigeStatus.fromRaw status).isRetryable = false) :
    ∃ device, device.requestId < 65536 ∧ ∃ header,
      camera.transact bench opcode payload =
        (if (GigeStatus.fromRaw status).isSuccess then .ok ⟨header, ackPayload⟩
          else .error (.status (GigeStatus.fromRaw status)),
        { device := device, memory := memory, received := bench.received ++ [command] }) := by
  have hid : fieldBE (commandDatagram opcode payload bench.device.requestId) 6 2 =
      bench.device.requestId := fieldBE_encode _ _ hready
  set answered : List Attempt := [⟨none, none, bench.device.lastCommandSent,
    [⟨bench.device.lastCommandSent,
      .datagram (encodeAck status opcode bench.device.requestId ackPayload)⟩]⟩] with hanswered
  refine ⟨(transactWithRetry opcode payload bench.device answered).2,
    transact_requestId_lt opcode payload bench.device answered,
    ⟨status, opcode, ackPayload.length, bench.device.requestId⟩, ?_⟩
  unfold MemoryCamera.transact MemoryCamera.handle
  rw [fieldBE_commandDatagram, Option.map_some, drop_commandDatagram, hperform, hid]
  dsimp only
  rw [← hanswered, hanswered,
    transact_answered payload hready bench.device.lastCommandSent hstatus hlength hfinal]
  rfl

def readPayload (address count : Nat) : List UInt8 :=
  encodeBE 4 address ++ encodeBE 2 0 ++ encodeBE 2 count

/-- The bytes of a served READMEM, behind the address echo if there is one. -/
def MemoryCamera.readAck (camera : MemoryCamera) (memory : Nat → UInt8) (command : Command) :
    List UInt8 :=
  (if camera.echo then encodeBE 4 command.address else []) ++
    readBytes memory command.address command.count

@[simp] theorem length_readBytes (memory : Nat → UInt8) (address count : Nat) :
    (readBytes memory address count).length = count := by
  simp [readBytes]

theorem transact_readMem (hready : bench.Ready)
    (address : Nat) {count : Nat} (hcount : count ≤ 512) :
    ∃ device, device.requestId < 65536 ∧ ∃ header,
      camera.transact bench .readMem (readPayload address count) =
        (if Command.Served ⟨.readMem, address % addressSpace, count⟩ then
            .ok ⟨header, camera.readAck bench.memory ⟨.readMem, address % addressSpace, count⟩⟩
          else .error (.status (GigeStatus.fromRaw camera.refusal)),
        { bench with
          device := device
          received := bench.received ++ [⟨.readMem, address % addressSpace, count⟩] }) := by
  have haddress : fieldBE (readPayload address count) 0 4 = address % addressSpace := by
    have := decodeBE_encodeBE 4 address
    simpa [readPayload, fieldBE, addressSpace] using this
  have hfield : fieldBE (readPayload address count) 6 2 = count := by
    have := fieldBE_encodeBE (encodeBE 4 address ++ encodeBE 2 0) [] 6 2 count (by simp)
      (by omega)
    simpa [readPayload] using this
  have hperform : camera.perform bench.memory .readMem (readPayload address count) =
      if Command.Served ⟨.readMem, address % addressSpace, count⟩ then
        (0, camera.readAck bench.memory ⟨.readMem, address % addressSpace, count⟩, bench.memory,
          ⟨.readMem, address % addressSpace, count⟩)
      else (camera.refusal, [], bench.memory, ⟨.readMem, address % addressSpace, count⟩) := by
    simp only [MemoryCamera.perform, haddress, hfield, true_and, MemoryCamera.readAck]
  by_cases hserved : Command.Served ⟨.readMem, address % addressSpace, count⟩
  · rw [if_pos hserved] at hperform
    have hlength : (camera.readAck bench.memory
        ⟨.readMem, address % addressSpace, count⟩).length ≤ 520 := by
      unfold MemoryCamera.readAck
      cases camera.echo <;> simp <;> omega
    obtain ⟨device, hid, header, heq⟩ := transact_perform camera hready .readMem _ hperform
      (by decide) hlength (by decide)
    refine ⟨device, hid, header, ?_⟩
    rw [heq, if_pos hserved]
    rfl
  · rw [if_neg hserved] at hperform
    obtain ⟨device, hid, header, heq⟩ := transact_perform camera hready .readMem _ hperform
      camera.refusal_lt (by simp) camera.refusal_final.2
    refine ⟨device, hid, header, ?_⟩
    rw [heq, if_neg hserved, camera.refusal_final.1]
    rfl

theorem transact_writeMem (hready : bench.Ready) (address : Nat) (data : List UInt8) :
    ∃ device, device.requestId < 65536 ∧ ∃ header,
      camera.transact bench .writeMem (encodeBE 4 address ++ data) =
        (if Command.Served ⟨.writeMem, address % addressSpace, data.length⟩ then
            .ok ⟨header, camera.writeAck⟩
          else .error (.status (GigeStatus.fromRaw camera.refusal)),
        { device := device
          memory := if Command.Served ⟨.writeMem, address % addressSpace, data.length⟩ then
              writeBytes bench.memory (address % addressSpace) data
            else bench.memory
          received := bench.received ++
            [⟨.writeMem, address % addressSpace, data.length⟩] }) := by
  have haddress : fieldBE (encodeBE 4 address ++ data) 0 4 = address % addressSpace := by
    have := decodeBE_encodeBE 4 address
    simpa [fieldBE, addressSpace] using this
  have hdata : (encodeBE 4 address ++ data).drop 4 = data := List.drop_left' (by simp)
  have hperform : camera.perform bench.memory .writeMem (encodeBE 4 address ++ data) =
      if Command.Served ⟨.writeMem, address % addressSpace, data.length⟩ then
        (0, camera.writeAck, writeBytes bench.memory (address % addressSpace) data,
          ⟨.writeMem, address % addressSpace, data.length⟩)
      else (camera.refusal, [], bench.memory,
        ⟨.writeMem, address % addressSpace, data.length⟩) := by
    simp only [MemoryCamera.perform, haddress, hdata]
  by_cases hserved : Command.Served ⟨.writeMem, address % addressSpace, data.length⟩
  · rw [if_pos hserved] at hperform
    have hshort := camera.writeAck_length
    obtain ⟨device, hid, header, heq⟩ := transact_perform camera hready .writeMem _ hperform
      (by decide) (by omega) (by decide)
    refine ⟨device, hid, header, ?_⟩
    rw [heq, if_pos hserved, if_pos hserved]
    rfl
  · rw [if_neg hserved] at hperform
    obtain ⟨device, hid, header, heq⟩ := transact_perform camera hready .writeMem _ hperform
      camera.refusal_lt (by simp) camera.refusal_final.2
    refine ⟨device, hid, header, ?_⟩
    rw [heq, if_neg hserved, if_neg hserved, camera.refusal_final.1]
    rfl

end VivaGenicam.Gvcp
