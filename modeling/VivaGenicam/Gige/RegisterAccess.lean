import VivaGenicam.Gige.MemoryDevice

/-!
Register access: READREG and WRITEREG where an access is exactly one register, and
memory access otherwise. A session whose device does not implement the register
commands, or does not answer them, is latched to memory access.
-/

namespace VivaGenicam.Gvcp

open Library.Bytes Library.Transition

/-- The register an access is exactly one of: 32 bits on a 32-bit boundary in the low
4 GiB. -/
def singleRegisterAddress (addr len : Nat) : Option Nat :=
  if len ≠ 4 ∨ ¬4 ∣ addr then none else if addr < 2 ^ 32 then some addr else none

theorem singleRegisterAddress_eq_some {addr len register : Nat}
    (h : singleRegisterAddress addr len = some register) :
    len = 4 ∧ 4 ∣ addr ∧ addr < 2 ^ 32 ∧ register = addr := by
  unfold singleRegisterAddress at h
  split at h
  · cases h
  · rename_i hword
    split at h
    · rename_i hlow
      exact ⟨by tauto, by tauto, hlow, (Option.some.inj h).symm⟩
    · cases h

/-- A control session: how it carries out a transaction, over whatever rounds the network
makes of it, and how a caller turns it to memory access. -/
structure ControlSession (σ : Type) where
  device : σ → GigeDevice
  transact : σ → OpCode → List UInt8 → Except GigeError GenCpAck × σ
  useMemoryAccess : σ → σ
  transact_device : ∀ state opcode payload, ∃ rounds,
    device (transact state opcode payload).2 =
      (transactWithRetry opcode payload (device state) rounds).2
  useMemoryAccess_device : ∀ state,
    device (useMemoryAccess state) = { device state with memoryAccessOnly := true }

namespace ControlSession

variable {σ : Type} (session : ControlSession σ)

def memoryAccessOnly (state : σ) : Bool := (session.device state).memoryAccessOnly

def latchMemoryAccess (state : σ) : σ :=
  if session.memoryAccessOnly state then state else session.useMemoryAccess state

def readRegister (addr : Nat) (state : σ) : Except GigeError Nat × σ :=
  match session.transact state .readRegister (encodeBE 4 addr) with
  | (.error error, state) => (.error error, state)
  | (.ok ack, state) =>
    if ack.payload.length ≠ 4 then (.error (.ackLength "READREG" 4 ack.payload.length), state)
    else (.ok (decodeBE ack.payload), state)

def writeRegister (addr value : Nat) (state : σ) : Except GigeError Unit × σ :=
  match session.transact state .writeRegister (encodeBE 4 addr ++ encodeBE 4 value) with
  | (.error error, state) => (.error error, state)
  | (.ok ack, state) =>
    if ack.payload.length ≠ 4 then (.error (.ackLength "WRITEREG" 4 ack.payload.length), state)
    else (.ok (), state)

/-- What an access makes of its register command: the memory command instead, at once where
the command is not implemented, and for good only once it succeeds where it is unanswered. -/
def fallBack {α : Type} (register : Except GigeError α × σ) (memory : σ → Except GigeError α × σ) :
    Except GigeError α × σ :=
  match register with
  | (.ok value, state) => (.ok value, state)
  | (.error (.status (.common .notImplemented)), state) =>
    memory (session.latchMemoryAccess state)
  | (.error .timeout, state) =>
    match memory state with
    | (.error error, state) => (.error error, state)
    | (.ok value, state) => (.ok value, session.latchMemoryAccess state)
  | (.error error, state) => (.error error, state)

/-- An access by a register command where it has one and the session is not latched. -/
def access {α : Type} (register : Option Nat) (command : Nat → σ → Except GigeError α × σ)
    (memory : σ → Except GigeError α × σ) (state : σ) : Except GigeError α × σ :=
  match register with
  | none => memory state
  | some register =>
    if session.memoryAccessOnly state then memory state
    else session.fallBack (command register state) memory

def readRegisterBytes (addr : Nat) (state : σ) : Except GigeError (List UInt8) × σ :=
  ((session.readRegister addr state).1.map (encodeBE 4), (session.readRegister addr state).2)

/-- Read `len` bytes, as READREG when that is exactly one register. -/
def readRegisterOrMem (addr len : Nat) : σ → Except GigeError (List UInt8) × σ :=
  session.access (singleRegisterAddress addr len) session.readRegisterBytes
    (readMem session.transact addr len)

/-- Write `data`, as WRITEREG when that is exactly one register. -/
def writeRegisterOrMem (addr : Nat) (data : List UInt8) : σ → Except GigeError Unit × σ :=
  session.access (singleRegisterAddress addr data.length)
    (fun register => session.writeRegister register (decodeBE data))
    (writeMem session.transact addr data)

end ControlSession

/-- The command's datagram, or the keepalive's. -/
def Record.datagram : Record → Option (List UInt8)
  | .command datagram => some datagram
  | .keepalive _ datagram => some datagram
  | .pending => none
  | .busy => none

def OpCode.IsRegister (opcode : OpCode) : Prop :=
  opcode = .readRegister ∨ opcode = .writeRegister

def OpCode.IsMemory (opcode : OpCode) : Prop :=
  opcode = .readMem ∨ opcode = .writeMem

/-- Between the two, every datagram that left carries one of the commands. -/
def SentOnly (opcodes : OpCode → Prop) (before after : GigeDevice) : Prop :=
  ∃ records, after.wire = records ++ before.wire ∧
    ∀ record ∈ records, ∀ datagram, record.datagram = some datagram →
      ∃ opcode, opcodes opcode ∧
        OpCode.fromCommand (fieldBE datagram 2 2) = some opcode

theorem SentOnly.refl (opcodes : OpCode → Prop) (device : GigeDevice) :
    SentOnly opcodes device device := ⟨[], rfl, by simp⟩

variable {opcodes : OpCode → Prop}

theorem SentOnly.record {before after next : GigeDevice} {entry : Record}
    (h : SentOnly opcodes before after) (hwire : next.wire = entry :: after.wire)
    (hentry : ∀ datagram, entry.datagram = some datagram →
      ∃ opcode, opcodes opcode ∧ OpCode.fromCommand (fieldBE datagram 2 2) = some opcode) :
    SentOnly opcodes before next := by
  obtain ⟨records, heq, hrecords⟩ := h
  refine ⟨entry :: records, by rw [hwire, heq, List.cons_append], ?_⟩
  intro record hmem
  rcases List.mem_cons.mp hmem with rfl | hmem
  · exact hentry
  · exact hrecords record hmem

theorem SentOnly.trans {first second third : GigeDevice}
    (h : SentOnly opcodes first second) (hnext : SentOnly opcodes second third) :
    SentOnly opcodes first third := by
  obtain ⟨early, hearly, hfirst⟩ := h
  obtain ⟨late, hlate, hsecond⟩ := hnext
  refine ⟨late ++ early, by rw [hlate, hearly, List.append_assoc], ?_⟩
  intro record hmem
  rcases List.mem_append.mp hmem with hmem | hmem
  · exact hsecond record hmem
  · exact hfirst record hmem

def GigeDevice.keepaliveOpcode (device : GigeDevice) : OpCode :=
  if device.memoryAccessOnly then .readMem else .readRegister

variable (device : GigeDevice)

theorem fromCommand_keepalive (requestId : Nat) :
    OpCode.fromCommand (fieldBE (device.keepaliveDatagram requestId) 2 2) =
      some device.keepaliveOpcode :=
  fieldBE_commandDatagram device.keepaliveOpcode _ requestId

theorem GigeDevice.memoryAccessOnly_keepaliveId (active : Nat) :
    (device.keepaliveId active).2.memoryAccessOnly = device.memoryAccessOnly := by
  obtain ⟨requestId, taken, heq⟩ := device.keepaliveId_frame active
  rw [heq]

theorem GigeDevice.wire_keepaliveId (active : Nat) :
    (device.keepaliveId active).2.wire = device.wire := by
  obtain ⟨requestId, taken, heq⟩ := device.keepaliveId_frame active
  rw [heq]

theorem sentOnly_keepalive {before device : GigeDevice}
    (hkeepalive : opcodes device.keepaliveOpcode) (active time : Nat)
    (failure : Option IoErrorKind) (h : SentOnly opcodes before device) :
    SentOnly opcodes before (device.sendInflightKeepalive active time failure) := by
  have hflag := device.memoryAccessOnly_keepaliveId active
  have hwire := device.wire_keepaliveId active
  unfold GigeDevice.sendInflightKeepalive
  cases failure with
  | some kind =>
    obtain ⟨records, heq, hrecords⟩ := h
    exact ⟨records, hwire.trans heq, hrecords⟩
  | none =>
    refine h.record (congrArg (List.cons _) hwire) ?_
    rintro datagram heq
    cases heq
    refine ⟨_, hkeepalive, (fromCommand_keepalive _ _).trans (congrArg some ?_)⟩
    unfold GigeDevice.keepaliveOpcode
    exact congrArg (fun flag : Bool => if flag then OpCode.readMem else .readRegister) hflag

variable {opcode : OpCode}

theorem transactWithRetry_sent {device : GigeDevice}
    (hopcode : opcodes opcode) (hkeepalive : opcodes device.keepaliveOpcode) (payload : List UInt8)
    (rounds : List Attempt) :
    (transactWithRetry opcode payload device rounds).2.memoryAccessOnly = device.memoryAccessOnly ∧
      SentOnly opcodes device (transactWithRetry opcode payload device rounds).2 := by
  apply retryLoop_invariant (fun after => after.memoryAccessOnly = device.memoryAccessOnly ∧
    SentOnly opcodes device after)
  · rintro after time ⟨hflag, hsent⟩
    refine ⟨hflag, hsent.record rfl ?_⟩
    rintro datagram heq
    cases heq
    exact ⟨opcode, hopcode, fieldBE_commandDatagram ..⟩
  · rintro after time failure ⟨hflag, hsent⟩
    refine ⟨?_, sentOnly_keepalive ?_ _ _ _ hsent⟩
    · obtain ⟨_, _, _, _, heq⟩ := after.sendInflightKeepalive_frame device.nextRequestId.1 time failure
      rw [heq]
      exact hflag
    · unfold GigeDevice.keepaliveOpcode
      rw [hflag]
      exact hkeepalive
  · rintro after ⟨hflag, hsent⟩
    exact ⟨hflag, hsent.record rfl (by simp [Record.datagram])⟩
  · rintro after ⟨hflag, hsent⟩
    exact ⟨hflag, hsent.record rfl (by simp [Record.datagram])⟩
  · exact ⟨rfl, SentOnly.refl opcodes device⟩

namespace ControlSession

variable {σ : Type} (session : ControlSession σ)

/-- How far a session has come from a state: the latch as it was, and only these commands
sent. -/
def Sent (opcodes : OpCode → Prop) (start state : σ) : Prop :=
  session.memoryAccessOnly state = session.memoryAccessOnly start ∧
    SentOnly opcodes (session.device start) (session.device state)

theorem transact_sent {state : σ}
    (hopcode : opcodes opcode) (hkeepalive : opcodes (session.device state).keepaliveOpcode)
    (payload : List UInt8) : session.Sent opcodes state (session.transact state opcode payload).2 := by
  obtain ⟨rounds, heq⟩ := session.transact_device state opcode payload
  unfold Sent memoryAccessOnly
  rw [heq]
  exact transactWithRetry_sent hopcode hkeepalive payload rounds

theorem Sent.transact {start state : σ}
    (hopcode : opcodes opcode) (hkeepalive : opcodes (session.device start).keepaliveOpcode)
    (payload : List UInt8) (h : session.Sent opcodes start state) :
    session.Sent opcodes start (session.transact state opcode payload).2 := by
  obtain ⟨hflag, hsent⟩ := h
  have hsame : (session.device state).keepaliveOpcode = (session.device start).keepaliveOpcode := by
    unfold GigeDevice.keepaliveOpcode
    exact congrArg (fun flag : Bool => if flag then OpCode.readMem else .readRegister) hflag
  obtain ⟨hafter, hnext⟩ := session.transact_sent hopcode (hsame ▸ hkeepalive) payload
  exact ⟨hafter.trans hflag, hsent.trans hnext⟩

section Loops

variable {session} (inv : σ → Prop)

theorem readMemLoop_invariant (hstep : ∀ state payload, inv state →
      inv (session.transact state .readMem payload).2)
    (addr remaining offset : Nat) (data : List UInt8) {state : σ} (h : inv state) :
    inv (readMemLoop session.transact addr remaining offset data state).2 := by
  induction remaining using Nat.strong_induction_on generalizing offset data state with
  | _ remaining ih =>
    rw [readMemLoop]
    split
    · exact h
    · dsimp only
      have hafter := hstep state (encodeBE 4 (addr + offset) ++ encodeBE 2 0 ++
        encodeBE 2 (Library.Tiling.nextMultipleOf (min remaining Consts.gencpMaxBlock) 4)) h
      split
      · rename_i heq
        rwa [heq] at hafter
      · rename_i heq
        rw [heq] at hafter
        split
        · exact hafter
        · refine ih _ ?_ _ _ hafter
          have : 0 < Consts.gencpMaxBlock := by decide
          omega

theorem writeMemWordsLoop_invariant (hstep : ∀ state payload, inv state →
      inv (session.transact state .writeMem payload).2)
    (addr offset : Nat) (data : List UInt8) {state : σ} (h : inv state) :
    inv (writeMemWordsLoop session.transact addr offset data state).2 := by
  induction hleft : data.length - offset using Nat.strong_induction_on
    generalizing offset state with
  | _ left ih =>
    rw [writeMemWordsLoop]
    split
    · exact h
    · dsimp only
      have hafter := hstep state (encodeBE 4 (addr + offset) ++ (data.drop offset).take
        (min (data.length - offset) (Consts.gencpMaxBlock - gvcpWriteOverhead))) h
      split
      · rename_i heq
        rwa [heq] at hafter
      · rename_i heq
        rw [heq] at hafter
        split
        · exact hafter
        · refine ih _ ?_ _ hafter rfl
          have : 0 < Consts.gencpMaxBlock - gvcpWriteOverhead := by decide
          omega

theorem readMem_invariant (hstep : ∀ state payload, inv state →
      inv (session.transact state .readMem payload).2) (addr len : Nat) {state : σ}
    (h : inv state) : inv (readMem session.transact addr len state).2 :=
  readMemLoop_invariant inv hstep addr len 0 [] h

theorem writeMem_invariant (hread : ∀ state payload, inv state →
      inv (session.transact state .readMem payload).2)
    (hwrite : ∀ state payload, inv state → inv (session.transact state .writeMem payload).2)
    (addr : Nat) (data : List UInt8) {state : σ} (h : inv state) :
    inv (writeMem session.transact addr data state).2 := by
  have hwords : ∀ addr data state, inv state →
      inv (writeMemWords session.transact addr data state).2 := fun addr data state h =>
    writeMemWordsLoop_invariant inv hwrite addr 0 data h
  unfold writeMem
  dsimp only
  split
  · exact hwords _ _ _ h
  · have hafter := readMem_invariant inv hread (addr - addr % 4)
      (Library.Tiling.nextMultipleOf (addr + data.length) 4 - (addr - addr % 4)) h
    split
    · rename_i heq
      rw [heq] at hafter
      exact hwords _ _ _ hafter
    · rename_i heq
      rw [heq] at hafter
      exact hwords _ _ _ hafter

end Loops

theorem sent_refl (opcodes : OpCode → Prop) (state : σ) : session.Sent opcodes state state :=
  ⟨rfl, SentOnly.refl opcodes _⟩

theorem keepaliveOpcode_latched {state : σ} (h : session.memoryAccessOnly state = true) :
    (session.device state).keepaliveOpcode = .readMem := if_pos h

theorem keepaliveOpcode_unlatched {state : σ} (h : session.memoryAccessOnly state = false) :
    (session.device state).keepaliveOpcode = .readRegister :=
  if_neg (by simpa [memoryAccessOnly] using h)

theorem readMem_sent {opcodes : OpCode → Prop} {state : σ} (hread : opcodes .readMem)
    (hkeepalive : opcodes (session.device state).keepaliveOpcode) (addr len : Nat) :
    session.Sent opcodes state (readMem session.transact addr len state).2 :=
  readMem_invariant (session.Sent opcodes state)
    (fun _ payload h => Sent.transact session hread hkeepalive payload h) addr len
    (session.sent_refl opcodes state)

theorem writeMem_sent {opcodes : OpCode → Prop} {state : σ} (hread : opcodes .readMem)
    (hwrite : opcodes .writeMem) (hkeepalive : opcodes (session.device state).keepaliveOpcode)
    (addr : Nat) (data : List UInt8) :
    session.Sent opcodes state (writeMem session.transact addr data state).2 :=
  writeMem_invariant (session.Sent opcodes state)
    (fun _ payload h => Sent.transact session hread hkeepalive payload h)
    (fun _ payload h => Sent.transact session hwrite hkeepalive payload h) addr data
    (session.sent_refl opcodes state)

theorem readRegister_sent {state : σ} (hread : opcodes .readRegister)
    (hkeepalive : opcodes (session.device state).keepaliveOpcode) (addr : Nat) :
    session.Sent opcodes state (session.readRegister addr state).2 := by
  have hafter := session.transact_sent hread hkeepalive (encodeBE 4 addr)
  unfold readRegister
  split
  · rename_i heq
    rwa [heq] at hafter
  · rename_i heq
    rw [heq] at hafter
    split
    · exact hafter
    · exact hafter

theorem writeRegister_sent {opcodes : OpCode → Prop} {state : σ}
    (hwrite : opcodes .writeRegister)
    (hkeepalive : opcodes (session.device state).keepaliveOpcode) (addr value : Nat) :
    session.Sent opcodes state (session.writeRegister addr value state).2 := by
  have hafter := session.transact_sent hwrite hkeepalive (encodeBE 4 addr ++ encodeBE 4 value)
  unfold writeRegister
  split
  · rename_i heq
    rwa [heq] at hafter
  · rename_i heq
    rw [heq] at hafter
    split
    · exact hafter
    · exact hafter

/-- A register command that is not implemented, or unanswered where the memory command is
then answered. -/
def Refused {α : Type} (register : Except GigeError α × σ)
    (memory : σ → Except GigeError α × σ) : Prop :=
  register.1 = .error (.status (.common .notImplemented)) ∨
    register.1 = .error .timeout ∧ ∃ value, (memory register.2).1 = .ok value

/-- An error that is no reason to fall back. -/
def Final (error : GigeError) : Prop :=
  error ≠ .status (.common .notImplemented) ∧ error ≠ .timeout

/-- What an access comes to: the register command's answer; its refusal, and the memory
command on a latched session; its silence, and the memory command before the latch; or an
error that stands. -/
theorem fallBack_cases {α : Type} (register : Except GigeError α × σ)
    (memory : σ → Except GigeError α × σ) :
    (∃ value, register.1 = .ok value ∧ session.fallBack register memory = register) ∨
      (register.1 = .error (.status (.common .notImplemented)) ∧
        session.fallBack register memory = memory (session.latchMemoryAccess register.2)) ∨
      (register.1 = .error .timeout ∧ (∃ value, (memory register.2).1 = .ok value) ∧
        session.fallBack register memory =
          ((memory register.2).1, session.latchMemoryAccess (memory register.2).2)) ∨
      (register.1 = .error .timeout ∧ (∃ error, (memory register.2).1 = .error error) ∧
        session.fallBack register memory = memory register.2) ∨
      ∃ error, register.1 = .error error ∧ Final error ∧
        session.fallBack register memory = register := by
  obtain ⟨result, state⟩ := register
  unfold fallBack
  split
  · rename_i value after heq
    cases heq
    exact Or.inl ⟨value, rfl, rfl⟩
  · rename_i heq
    cases heq
    exact Or.inr (Or.inl ⟨rfl, rfl⟩)
  · rename_i heq
    cases heq
    split
    · rename_i error after hmemory
      exact Or.inr (Or.inr (Or.inr (Or.inl ⟨rfl, ⟨error, congrArg Prod.fst hmemory⟩,
        hmemory.symm⟩)))
    · rename_i value after hmemory
      refine Or.inr (Or.inr (Or.inl ⟨rfl, ⟨value, congrArg Prod.fst hmemory⟩, ?_⟩))
      dsimp only
      rw [hmemory]
  · rename_i error after himplemented htimeout heq
    cases heq
    refine Or.inr (Or.inr (Or.inr (Or.inr ⟨error, rfl, ⟨?_, ?_⟩, rfl⟩)))
    · rintro rfl
      exact himplemented rfl
    · rintro rfl
      exact htimeout rfl

section Access

variable {session} {α : Type} {register : Option Nat}
  {command : Nat → σ → Except GigeError α × σ} {memory : σ → Except GigeError α × σ} {state : σ}

theorem access_latches (hcommand : ∀ addr,
      session.memoryAccessOnly (command addr state).2 = session.memoryAccessOnly state)
    (hmemory : ∀ state, session.memoryAccessOnly (memory state).2 = session.memoryAccessOnly state)
    (hbefore : session.memoryAccessOnly state = false)
    (hafter : session.memoryAccessOnly (session.access register command memory state).2 = true) :
    ∃ addr, register = some addr ∧ Refused (command addr state) memory := by
  unfold access at hafter
  split at hafter
  · rw [hmemory, hbefore] at hafter
    cases hafter
  · rename_i addr
    rw [if_neg (by simp [hbefore])] at hafter
    refine ⟨addr, rfl, ?_⟩
    rcases session.fallBack_cases (command addr state) memory with ⟨_, -, heq⟩ |
      ⟨himplemented, -⟩ | ⟨htimeout, hvalue, -⟩ | ⟨-, -, heq⟩ | ⟨_, -, -, heq⟩
    · rw [heq, hcommand, hbefore] at hafter
      cases hafter
    · exact Or.inl himplemented
    · exact Or.inr ⟨htimeout, hvalue⟩
    · rw [heq, hmemory, hcommand, hbefore] at hafter
      cases hafter
    · rw [heq, hcommand, hbefore] at hafter
      cases hafter

theorem access_latched (h : session.memoryAccessOnly state = true) :
    session.access register command memory state = memory state := by
  unfold access
  split
  · rfl
  · rw [if_pos h]

theorem access_final {addr : Nat} {error : GigeError} (hregister : register = some addr)
    (hbefore : session.memoryAccessOnly state = false)
    (herror : (command addr state).1 = .error error) (hfinal : Final error) :
    session.access register command memory state = (.error error, (command addr state).2) := by
  subst hregister
  unfold access
  dsimp only
  rw [if_neg (by simp [hbefore])]
  have hpair : command addr state = (.error error, (command addr state).2) :=
    Prod.ext herror rfl
  rcases session.fallBack_cases (command addr state) memory with ⟨_, hvalue, -⟩ |
    ⟨himplemented, -⟩ | ⟨htimeout, -⟩ | ⟨htimeout, -⟩ | ⟨_, -, -, heq⟩
  · rw [herror] at hvalue
    cases hvalue
  · rw [herror] at himplemented
    exact absurd (Except.error.inj himplemented) hfinal.1
  · rw [herror] at htimeout
    exact absurd (Except.error.inj htimeout) hfinal.2
  · rw [herror] at htimeout
    exact absurd (Except.error.inj htimeout) hfinal.2
  · rw [heq]
    exact hpair

/-- A register command answered with the value of the memory command, or unanswered or
refused where the memory command still gives it: the access gives it too. -/
theorem access_interchange {value : α} {good done : σ → Prop}
    (hcommand : ∀ addr, register = some addr → good state →
      ((command addr state).1 = .ok value ∧ done (command addr state).2) ∨
        (((command addr state).1 = .error (.status (.common .notImplemented)) ∨
          (command addr state).1 = .error .timeout) ∧ good (command addr state).2))
    (hmemory : ∀ state, good state → (memory state).1 = .ok value ∧ done (memory state).2)
    (hgood : ∀ state, good state → good (session.latchMemoryAccess state))
    (hdone : ∀ state, done state → done (session.latchMemoryAccess state)) (h : good state) :
    (session.access register command memory state).1 = .ok value ∧
      done (session.access register command memory state).2 := by
  unfold access
  split
  · exact hmemory state h
  · rename_i addr
    split
    · exact hmemory state h
    · have hcases := hcommand addr rfl h
      rcases session.fallBack_cases (command addr state) memory with ⟨_, hvalue, heq⟩ |
        ⟨himplemented, heq⟩ | ⟨htimeout, -, heq⟩ | ⟨htimeout, -, heq⟩ | ⟨_, herror, hfinal, heq⟩
      · rw [heq]
        rcases hcases with hanswer | ⟨hfailed | hfailed, -⟩
        · exact hanswer
        · rw [hvalue] at hfailed
          cases hfailed
        · rw [hvalue] at hfailed
          cases hfailed
      · rw [heq]
        rcases hcases with ⟨hanswer, -⟩ | ⟨-, hstill⟩
        · rw [himplemented] at hanswer
          cases hanswer
        · exact hmemory _ (hgood _ hstill)
      · rw [heq]
        rcases hcases with ⟨hanswer, -⟩ | ⟨-, hstill⟩
        · rw [htimeout] at hanswer
          cases hanswer
        · exact ⟨(hmemory _ hstill).1, hdone _ (hmemory _ hstill).2⟩
      · rw [heq]
        rcases hcases with ⟨hanswer, -⟩ | ⟨-, hstill⟩
        · rw [htimeout] at hanswer
          cases hanswer
        · exact hmemory _ hstill
      · rcases hcases with ⟨hanswer, -⟩ | ⟨hfailed | hfailed, -⟩
        · rw [herror] at hanswer
          cases hanswer
        · rw [herror] at hfailed
          exact absurd (Except.error.inj hfailed) hfinal.1
        · rw [herror] at hfailed
          exact absurd (Except.error.inj hfailed) hfinal.2

theorem access_invariant (inv : σ → Prop)
    (hcommand : ∀ addr, inv state → inv (command addr state).2)
    (hmemory : ∀ state, inv state → inv (memory state).2)
    (hlatch : ∀ state, inv state → inv (session.latchMemoryAccess state)) (h : inv state) :
    inv (session.access register command memory state).2 := by
  unfold access
  split
  · exact hmemory state h
  · rename_i addr
    have hafter := hcommand addr h
    split
    · exact hmemory state h
    · rcases session.fallBack_cases (command addr state) memory with ⟨_, -, heq⟩ |
        ⟨-, heq⟩ | ⟨-, -, heq⟩ | ⟨-, -, heq⟩ | ⟨_, -, -, heq⟩
      · rwa [heq]
      · rw [heq]
        exact hmemory _ (hlatch _ hafter)
      · rw [heq]
        exact hlatch _ (hmemory _ hafter)
      · rw [heq]
        exact hmemory _ hafter
      · rwa [heq]

end Access

theorem readRegisterBytes_sent {opcodes : OpCode → Prop} {state : σ}
    (hread : opcodes .readRegister)
    (hkeepalive : opcodes (session.device state).keepaliveOpcode) (addr : Nat) :
    session.Sent opcodes state (session.readRegisterBytes addr state).2 :=
  session.readRegister_sent hread hkeepalive addr

/-- What a caller does with a session. -/
inductive Call where
  | read (addr len : Nat)
  | write (addr : Nat) (data : List UInt8)
  | useMemoryAccess

def perform (state : σ) : Call → σ
  | .read addr len => (session.readRegisterOrMem addr len state).2
  | .write addr data => (session.writeRegisterOrMem addr data state).2
  | .useMemoryAccess => session.useMemoryAccess state

theorem perform_invariant (inv : σ → Prop)
    (htransact : ∀ state opcode payload, inv state →
      inv (session.transact state opcode payload).2)
    (hmemory : ∀ state, inv state → inv (session.useMemoryAccess state)) {state : σ}
    (h : inv state) (call : Call) : inv (session.perform state call) := by
  have hlatch : ∀ state, inv state → inv (session.latchMemoryAccess state) := by
    intro state hstate
    unfold latchMemoryAccess
    split
    · exact hstate
    · exact hmemory state hstate
  cases call with
  | read addr len =>
    refine access_invariant inv (fun register hstate => ?_) (fun state hstate => ?_) hlatch h
    · have hafter := htransact state .readRegister (encodeBE 4 register) hstate
      simp only [readRegisterBytes, readRegister]
      split
      · rename_i heq
        rwa [heq] at hafter
      · rename_i heq
        rw [heq] at hafter
        split
        · exact hafter
        · exact hafter
    · exact readMem_invariant inv (fun state => htransact state .readMem) addr len hstate
  | write addr data =>
    refine access_invariant inv (fun register hstate => ?_) (fun state hstate => ?_) hlatch h
    · have hafter := htransact state .writeRegister
        (encodeBE 4 register ++ encodeBE 4 (decodeBE data)) hstate
      simp only [writeRegister]
      split
      · rename_i heq
        rwa [heq] at hafter
      · rename_i heq
        rw [heq] at hafter
        split
        · exact hafter
        · exact hafter
    · exact writeMem_invariant inv (fun state => htransact state .readMem)
        (fun state => htransact state .writeMem) addr data hstate
  | useMemoryAccess => exact hmemory state h

/-- The call is an access whose register command is refused. -/
def RefusedIn (state : σ) : Call → Prop
  | .read addr len => ∃ register, singleRegisterAddress addr len = some register ∧
      Refused (session.readRegisterBytes register state) (readMem session.transact addr len)
  | .write addr data => ∃ register, singleRegisterAddress addr data.length = some register ∧
      Refused (session.writeRegister register (decodeBE data) state)
        (writeMem session.transact addr data)
  | .useMemoryAccess => False

theorem perform_latches {state : σ} {call : Call}
    (hbefore : session.memoryAccessOnly state = false)
    (hafter : session.memoryAccessOnly (session.perform state call) = true) :
    session.RefusedIn state call ∨ call = .useMemoryAccess := by
  cases call with
  | read addr len =>
    refine Or.inl (access_latches (fun register => ?_) (fun state => ?_) hbefore hafter)
    · exact (@readRegisterBytes_sent _ session (fun _ => True) _ trivial trivial register).1
    · exact (@readMem_sent _ session (fun _ => True) _ trivial trivial addr len).1
  | write addr data =>
    refine Or.inl (access_latches (fun register => ?_) (fun state => ?_) hbefore hafter)
    · exact (@writeRegister_sent _ session (fun _ => True) _ trivial trivial register _).1
    · exact (@writeMem_sent _ session (fun _ => True) _ trivial trivial trivial addr data).1
  | useMemoryAccess => exact Or.inr rfl

theorem perform_latched {state : σ} (h : session.memoryAccessOnly state = true) (call : Call) :
    session.Sent OpCode.IsMemory state (session.perform state call) := by
  have hkeepalive : OpCode.IsMemory (session.device state).keepaliveOpcode :=
    Or.inl (session.keepaliveOpcode_latched h)
  cases call with
  | read addr len =>
    simp only [perform, readRegisterOrMem]
    rw [access_latched h]
    exact session.readMem_sent (Or.inl rfl) hkeepalive addr len
  | write addr data =>
    simp only [perform, writeRegisterOrMem]
    rw [access_latched h]
    exact session.writeMem_sent (Or.inl rfl) (Or.inr rfl) hkeepalive addr data
  | useMemoryAccess =>
    unfold perform
    have hdevice := session.useMemoryAccess_device state
    refine ⟨?_, [], ?_, by simp⟩
    · unfold memoryAccessOnly at h ⊢
      rw [hdevice, h]
    · rw [hdevice, List.nil_append]

theorem run_latched {state : σ} (h : session.memoryAccessOnly state = true) (calls : List Call) :
    session.Sent OpCode.IsMemory state (run session.perform state calls) := by
  induction calls generalizing state with
  | nil => exact session.sent_refl _ state
  | cons call rest ih =>
    obtain ⟨hflag, hsent⟩ := session.perform_latched h call
    obtain ⟨hlater, hrest⟩ := ih (hflag.trans h)
    exact ⟨hlater.trans hflag, hsent.trans hrest⟩

theorem run_latches {state : σ} {calls : List Call}
    (hbefore : session.memoryAccessOnly state = false)
    (hafter : session.memoryAccessOnly (run session.perform state calls) = true) :
    ∃ front call back, calls = front ++ call :: back ∧
      session.memoryAccessOnly (run session.perform state front) = false ∧
      (session.RefusedIn (run session.perform state front) call ∨ call = .useMemoryAccess) := by
  induction calls generalizing state with
  | nil =>
    rw [run_nil, hbefore] at hafter
    cases hafter
  | cons call rest ih =>
    cases hflag : session.memoryAccessOnly (session.perform state call) with
    | true => exact ⟨[], call, rest, rfl, hbefore, session.perform_latches hbefore hflag⟩
    | false =>
      obtain ⟨front, later, back, heq, hfront, hlatch⟩ := ih hflag hafter
      exact ⟨call :: front, later, back, by rw [heq, List.cons_append], hfront, hlatch⟩

/-- The register command of an access fails, for no reason to fall back. -/
def FailsFinally (state : σ) (error : GigeError) : Call → Prop
  | .read addr len => ∃ register, singleRegisterAddress addr len = some register ∧
      (session.readRegisterBytes register state).1 = .error error
  | .write addr data => ∃ register, singleRegisterAddress addr data.length = some register ∧
      (session.writeRegister register (decodeBE data) state).1 = .error error
  | .useMemoryAccess => False

def answer (state : σ) : Call → Except GigeError (List UInt8)
  | .read addr len => (session.readRegisterOrMem addr len state).1
  | .write addr data => (session.writeRegisterOrMem addr data state).1.map fun _ => []
  | .useMemoryAccess => .ok []

theorem perform_final {state : σ} {call : Call} {error : GigeError}
    (hbefore : session.memoryAccessOnly state = false)
    (hfails : session.FailsFinally state error call) (hfinal : Final error) :
    session.answer state call = .error error ∧
      session.Sent OpCode.IsRegister state (session.perform state call) := by
  have hkeepalive : OpCode.IsRegister (session.device state).keepaliveOpcode :=
    Or.inl (session.keepaliveOpcode_unlatched hbefore)
  cases call with
  | read addr len =>
    obtain ⟨register, hregister, herror⟩ := hfails
    simp only [perform, answer, readRegisterOrMem]
    rw [access_final hregister hbefore herror hfinal]
    exact ⟨rfl, session.readRegisterBytes_sent (Or.inl rfl) hkeepalive register⟩
  | write addr data =>
    obtain ⟨register, hregister, herror⟩ := hfails
    simp only [perform, answer, writeRegisterOrMem]
    rw [access_final hregister hbefore herror hfinal]
    exact ⟨rfl, session.writeRegister_sent (Or.inr rfl) hkeepalive register _⟩
  | useMemoryAccess => exact hfails.elim

end ControlSession

end VivaGenicam.Gvcp
