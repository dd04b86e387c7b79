import VivaGenicam.Gige.MemoryAccess
import VivaGenicam.Gige.RegisterAccess

/-!
A memory device that takes each register command as it likes: it serves the command,
refuses it as not implemented, or stays silent, having carried it out or not. What it does
may depend on everything it has received. Register and memory commands come to the same on
it.
-/

namespace VivaGenicam.Gvcp

open Library.Bytes Library.Tiling Library.Transition

/-- What a device does with a register command. -/
inductive Treatment where
  | served
  | notImplemented
  | unanswered (executed : Bool)
deriving DecidableEq, Repr

theorem wait_silent (terms : Terms) (now : Nat) :
    (terms.wait ⟨none, none, now, [⟨now + terms.controlTimeout, .deadline⟩]⟩).ended =
      some .timedOut := by
  simp [Terms.wait, Terms.start, Wait.turn, Wait.wake]

structure RegisterCamera extends MemoryCamera where
  treats : List Command → Treatment
  registerAck : List UInt8
  registerAck_length : registerAck.length = 4

namespace RegisterCamera

variable (camera : RegisterCamera)

/-- The acknowledgement's payload of a served register command, and the memory after it. -/
def serve (memory : Nat → UInt8) (opcode : OpCode) (payload : List UInt8) :
    List UInt8 × (Nat → UInt8) :=
  match opcode with
  | .writeRegister =>
    (camera.registerAck, writeBytes memory (fieldBE payload 0 4) (payload.drop 4))
  | _ => (readBytes memory (fieldBE payload 0 4) 4, memory)

/-- The rounds of a register command sent up to `attempts` times from `now` on, with the
memory and the commands received once they are through. -/
def rounds (opcode : OpCode) (payload : List UInt8) (requestId controlTimeout : Nat) :
    (attempts now : Nat) → (Nat → UInt8) → List Command →
      List Attempt × (Nat → UInt8) × List Command
  | 0, _, memory, received => ([], memory, received)
  | attempts + 1, now, memory, received =>
    let after := received ++ [⟨opcode, fieldBE payload 0 4, 4⟩]
    let (ack, written) := camera.serve memory opcode payload
    match camera.treats received with
    | .served =>
      ([⟨none, none, now, [⟨now, .datagram (encodeAck 0 opcode requestId ack)⟩]⟩], written, after)
    | .notImplemented =>
      ([⟨none, none, now, [⟨now, .datagram (encodeAck 0x8001 opcode requestId [])⟩]⟩], memory,
        after)
    | .unanswered executed =>
      let silent : Attempt := ⟨none, none, now, [⟨now + controlTimeout, .deadline⟩]⟩
      let (later, last) := rounds opcode payload requestId controlTimeout attempts
        (now + controlTimeout) (if executed then written else memory) after
      (silent :: later, last)

def transactRegister (bench : Bench) (opcode : OpCode) (payload : List UInt8) :
    Except GigeError GenCpAck × Bench :=
  let (script, memory, received) := camera.rounds opcode payload bench.device.requestId
    bench.device.controlTimeout Consts.maxRetries bench.device.lastCommandSent bench.memory
    bench.received
  let call := transactWithRetry opcode payload bench.device script
  (call.1.getD (.error .timeout),
    { device := call.2, memory := memory, received := received })

def transact (bench : Bench) (opcode : OpCode) (payload : List UInt8) :
    Except GigeError GenCpAck × Bench :=
  match opcode with
  | .readMem => camera.toMemoryCamera.transact bench .readMem payload
  | .writeMem => camera.toMemoryCamera.transact bench .writeMem payload
  | opcode => camera.transactRegister bench opcode payload

theorem memory_transact_device (bench : Bench) (opcode : OpCode) (payload : List UInt8) :
    ∃ rounds, (camera.toMemoryCamera.transact bench opcode payload).2.device =
      (transactWithRetry opcode payload bench.device rounds).2 := by
  unfold MemoryCamera.transact
  dsimp only
  split
  · exact ⟨_, rfl⟩
  · exact ⟨_, rfl⟩

theorem transact_device (bench : Bench) (opcode : OpCode) (payload : List UInt8) :
    ∃ rounds, (camera.transact bench opcode payload).2.device =
      (transactWithRetry opcode payload bench.device rounds).2 := by
  cases opcode with
  | readRegister => exact ⟨_, rfl⟩
  | writeRegister => exact ⟨_, rfl⟩
  | readMem => exact camera.memory_transact_device bench .readMem payload
  | writeMem => exact camera.memory_transact_device bench .writeMem payload

def session : ControlSession Bench where
  device := Bench.device
  transact := camera.transact
  useMemoryAccess := fun bench =>
    { bench with device := { bench.device with memoryAccessOnly := true } }
  transact_device := camera.transact_device
  useMemoryAccess_device := fun _ => rfl

variable (memory : Nat → UInt8)

theorem serve_length (opcode : OpCode) (payload : List UInt8) :
    (camera.serve memory opcode payload).1.length = 4 := by
  unfold serve
  split
  · exact camera.registerAck_length
  · simp

theorem serve_again (opcode : OpCode) (payload : List UInt8) :
    camera.serve (camera.serve memory opcode payload).2 opcode payload =
      camera.serve memory opcode payload := by
  cases opcode with
  | writeRegister =>
    refine congrArg (Prod.mk _) (funext fun at_ => ?_)
    simp only [serve, writeBytes]
    split
    · rfl
    · rfl
  | readRegister => rfl
  | readMem => rfl
  | writeMem => rfl

/-- What a register command may come to on memories that carrying it out makes no more of:
it is answered with the device's answer and carried out, or it fails in one of the two ways
that fall back. -/
structure Outcome (memory : Nat → UInt8) (opcode : OpCode) (payload : List UInt8)
    (result : Except GigeError GenCpAck) (after : Nat → UInt8) : Prop where
  effect : after = memory ∨ after = (camera.serve memory opcode payload).2
  answer : (∃ header, result = .ok ⟨header, (camera.serve memory opcode payload).1⟩ ∧
      after = (camera.serve memory opcode payload).2) ∨
    result = .error (.status (.common .notImplemented)) ∨ result = .error .timeout

theorem retryLoop_rounds {opcode : OpCode} {payload : List UInt8} {requestId : Nat}
    {encoded : List UInt8} (hid : requestId < 65536) (memory : Nat → UInt8)
    {controlTimeout attempts : Nat} :
    ∀ {attempt : Nat} (device : GigeDevice) (now : Nat) {current : Nat → UInt8}
      (received : List Command), device.controlTimeout = controlTimeout →
      attempt + attempts = Consts.maxRetries + 1 → attempt ≤ Consts.maxRetries →
      (current = memory ∨ current = (camera.serve memory opcode payload).2) →
      let script := camera.rounds opcode payload requestId controlTimeout attempts now current
        received
      ∃ result, (retryLoop opcode requestId encoded attempt device script.1).1 = some result ∧
        camera.Outcome memory opcode payload result script.2.1 := by
  induction attempts with
  | zero =>
    intro attempt device now current received _ hattempt hle
    omega
  | succ attempts ih =>
    intro attempt device now current received hcontrol hattempt hle hcurrent
    have hserve : camera.serve current opcode payload = camera.serve memory opcode payload := by
      rcases hcurrent with rfl | rfl
      · rfl
      · exact camera.serve_again memory opcode payload
    unfold rounds
    dsimp only
    rw [hserve]
    cases camera.treats received with
    | served =>
      exact ⟨_, retryLoop_answered device now hid (by decide)
        (by rw [camera.serve_length]; decide) (by decide), Or.inr rfl, Or.inl ⟨_, rfl, rfl⟩⟩
    | notImplemented =>
      exact ⟨_, retryLoop_answered device now hid (by decide) (by decide) (by decide),
        hcurrent, Or.inr (Or.inl rfl)⟩
    | unanswered executed =>
      dsimp only
      have hwritten : (if executed then (camera.serve memory opcode payload).2 else current) =
          memory ∨ (if executed then (camera.serve memory opcode payload).2 else current) =
            (camera.serve memory opcode payload).2 := by
        cases executed with
        | true => exact Or.inr rfl
        | false => exact hcurrent
      have hsilent := wait_silent (device.terms requestId) now
      change ((device.terms requestId).wait
        ⟨none, none, now, [⟨now + device.controlTimeout, .deadline⟩]⟩).ended = _ at hsilent
      rw [hcontrol] at hsilent
      rw [retryLoop_sent rfl, hsilent]
      unfold settle
      dsimp only
      split
      · obtain rfl : attempts = 0 := by omega
        exact ⟨_, rfl, hwritten, Or.inr (Or.inr rfl)⟩
      · have hterms := congrArg Terms.controlTimeout (serve_terms device requestId encoded
          ⟨none, none, now, [⟨now + controlTimeout, .deadline⟩]⟩)
        exact ih _ _ _ (hterms.trans hcontrol) (by omega) (by omega) hwritten

variable {bench : Bench}

theorem transactRegister_outcome (hready : bench.Ready) (opcode : OpCode) (payload : List UInt8) :
    (camera.transactRegister bench opcode payload).2.Ready ∧
      camera.Outcome bench.memory opcode payload (camera.transactRegister bench opcode payload).1
        (camera.transactRegister bench opcode payload).2.memory := by
  obtain ⟨result, hresult, houtcome⟩ := @retryLoop_rounds camera opcode payload
    bench.device.requestId (commandDatagram opcode payload bench.device.requestId) hready
    bench.memory bench.device.controlTimeout Consts.maxRetries 1
    (bench.device.nextRequestId.2.issue bench.device.nextRequestId.1 none)
    bench.device.lastCommandSent bench.memory bench.received rfl (by decide) (by decide)
    (Or.inl rfl)
  unfold transactRegister
  refine ⟨transact_requestId_lt opcode payload bench.device _, ?_⟩
  dsimp only
  have hcall : ∀ script, (transactWithRetry opcode payload bench.device script).1 =
      (retryLoop opcode bench.device.requestId
        (commandDatagram opcode payload bench.device.requestId) 1
        (bench.device.nextRequestId.2.issue bench.device.nextRequestId.1 none) script).1 :=
    fun _ => rfl
  rw [hcall, hresult]
  exact houtcome

theorem transact_ready (bench : Bench) (opcode : OpCode) (payload : List UInt8) :
    (camera.transact bench opcode payload).2.Ready := by
  obtain ⟨rounds, heq⟩ := camera.transact_device bench opcode payload
  unfold Bench.Ready
  rw [heq]
  exact transact_requestId_lt opcode payload bench.device rounds

theorem readMemLoop_eq (addr remaining offset : Nat) (data : List UInt8) (bench : Bench) :
    readMemLoop camera.session.transact addr remaining offset data bench =
      readMemLoop camera.toMemoryCamera.transact addr remaining offset data bench := by
  induction remaining using Nat.strong_induction_on generalizing offset data bench with
  | _ remaining ih =>
    have hstep : ∀ payload, camera.session.transact bench .readMem payload =
        camera.toMemoryCamera.transact bench .readMem payload := fun _ => rfl
    rw [readMemLoop.eq_def camera.session.transact,
      readMemLoop.eq_def camera.toMemoryCamera.transact]
    split
    · rfl
    · dsimp only
      rw [hstep]
      split
      · rfl
      · split
        · rfl
        · refine ih _ ?_ _ _ _
          have : 0 < Consts.gencpMaxBlock := by decide
          omega

theorem writeMemWordsLoop_eq (addr offset : Nat) (data : List UInt8) (bench : Bench) :
    writeMemWordsLoop camera.session.transact addr offset data bench =
      writeMemWordsLoop camera.toMemoryCamera.transact addr offset data bench := by
  induction hleft : data.length - offset using Nat.strong_induction_on
    generalizing offset bench with
  | _ left ih =>
    have hstep : ∀ payload, camera.session.transact bench .writeMem payload =
        camera.toMemoryCamera.transact bench .writeMem payload := fun _ => rfl
    rw [writeMemWordsLoop.eq_def camera.session.transact,
      writeMemWordsLoop.eq_def camera.toMemoryCamera.transact]
    split
    · rfl
    · dsimp only
      rw [hstep]
      split
      · rfl
      · split
        · rfl
        · refine ih _ ?_ _ _ rfl
          have : 0 < Consts.gencpMaxBlock - gvcpWriteOverhead := by decide
          omega

variable {addr : Nat}

theorem readMem_word (hready : bench.Ready) (haddr : 4 ∣ addr) (hlow : addr < 2 ^ 32) :
    (readMem camera.session.transact addr 4 bench).1 = .ok (readBytes bench.memory addr 4) ∧
      (readMem camera.session.transact addr 4 bench).2.Ready ∧
      (readMem camera.session.transact addr 4 bench).2.memory = bench.memory := by
  have hrange : addr + 4 ≤ addressSpace := by
    unfold addressSpace
    omega
  obtain ⟨device, hid, heq⟩ := readMem_inside camera.toMemoryCamera bench hready haddr hrange
  have hsame : readMem camera.session.transact addr 4 bench =
      readMem camera.toMemoryCamera.transact addr 4 bench := camera.readMemLoop_eq addr 4 0 [] bench
  rw [hsame, heq]
  exact ⟨rfl, hid, rfl⟩

theorem writeMem_word (hready : bench.Ready) {data : List UInt8}
    (hlength : data.length = 4) (haddr : 4 ∣ addr) (hlow : addr < 2 ^ 32) :
    (writeMem camera.session.transact addr data bench).1 = .ok () ∧
      (writeMem camera.session.transact addr data bench).2.Ready ∧
      (writeMem camera.session.transact addr data bench).2.memory =
        writeBytes bench.memory addr data := by
  have hrange : addr + data.length ≤ addressSpace := by
    unfold addressSpace
    omega
  obtain ⟨device, hid, heq⟩ := writeMemWords_inside camera.toMemoryCamera bench hready haddr
    (by omega) hrange
  have hsame : writeMem camera.session.transact addr data bench =
      writeMemWords camera.toMemoryCamera.transact addr data bench := by
    unfold writeMem
    dsimp only
    rw [if_pos (Or.inr ⟨by omega, nextMultipleOf_of_dvd (by decide) (by omega)⟩)]
    exact camera.writeMemWordsLoop_eq addr 0 data bench
  rw [hsame, heq]
  exact ⟨rfl, hid, rfl⟩

theorem readRegisterBytes_outcome (hready : bench.Ready) (hlow : addr < 2 ^ 32) :
    (camera.session.readRegisterBytes addr bench).2.Ready ∧
      (camera.session.readRegisterBytes addr bench).2.memory = bench.memory ∧
      ((camera.session.readRegisterBytes addr bench).1 = .ok (readBytes bench.memory addr 4) ∨
        (camera.session.readRegisterBytes addr bench).1 =
          .error (.status (.common .notImplemented)) ∨
        (camera.session.readRegisterBytes addr bench).1 = .error .timeout) := by
  have hfield : fieldBE (encodeBE 4 addr) 0 4 = addr := by
    have := fieldBE_encodeBE [] [] 0 4 addr rfl (by omega)
    simpa using this
  have hserve : camera.serve bench.memory .readRegister (encodeBE 4 addr) =
      (readBytes bench.memory addr 4, bench.memory) := by
    simp only [serve, hfield]
  obtain ⟨hafter, heffect, hanswer⟩ :=
    camera.transactRegister_outcome hready .readRegister (encodeBE 4 addr)
  rw [hserve] at heffect hanswer
  simp only [or_self] at heffect
  unfold ControlSession.readRegisterBytes ControlSession.readRegister
  have hcall : camera.session.transact bench .readRegister (encodeBE 4 addr) =
      camera.transactRegister bench .readRegister (encodeBE 4 addr) := rfl
  rw [hcall]
  generalize camera.transactRegister bench .readRegister (encodeBE 4 addr) = call at *
  obtain ⟨result, after⟩ := call
  dsimp only at hafter heffect hanswer
  rcases hanswer with ⟨header, rfl, -⟩ | rfl | rfl
  · have hbytes := encodeBE_decodeBE (readBytes bench.memory addr 4)
    rw [length_readBytes] at hbytes
    dsimp only
    rw [length_readBytes, if_neg (by decide)]
    exact ⟨hafter, heffect, Or.inl (congrArg Except.ok hbytes)⟩
  · exact ⟨hafter, heffect, Or.inr (Or.inl rfl)⟩
  · exact ⟨hafter, heffect, Or.inr (Or.inr rfl)⟩

theorem writeRegister_outcome (hready : bench.Ready)
    {data : List UInt8} (hlength : data.length = 4) (hlow : addr < 2 ^ 32) :
    let call := camera.session.writeRegister addr (decodeBE data) bench
    call.2.Ready ∧
      (call.1 = .ok () ∧ call.2.memory = writeBytes bench.memory addr data ∨
        (call.1 = .error (.status (.common .notImplemented)) ∨ call.1 = .error .timeout) ∧
          (call.2.memory = bench.memory ∨
            call.2.memory = writeBytes bench.memory addr data)) := by
  have hbytes := encodeBE_decodeBE data
  rw [hlength] at hbytes
  have hfield : fieldBE (encodeBE 4 addr ++ data) 0 4 = addr := by
    have := fieldBE_encodeBE [] data 0 4 addr rfl (by omega)
    simpa using this
  have hdata : (encodeBE 4 addr ++ data).drop 4 = data := List.drop_left' (by simp)
  have hserve : camera.serve bench.memory .writeRegister (encodeBE 4 addr ++ data) =
      (camera.registerAck, writeBytes bench.memory addr data) := by
    simp only [serve, hfield, hdata]
  obtain ⟨hafter, heffect, hanswer⟩ :=
    camera.transactRegister_outcome hready .writeRegister (encodeBE 4 addr ++ data)
  rw [hserve] at heffect hanswer
  unfold ControlSession.writeRegister
  rw [hbytes]
  have hcall : camera.session.transact bench .writeRegister (encodeBE 4 addr ++ data) =
      camera.transactRegister bench .writeRegister (encodeBE 4 addr ++ data) := rfl
  rw [hcall]
  generalize camera.transactRegister bench .writeRegister (encodeBE 4 addr ++ data) = call at *
  obtain ⟨result, after⟩ := call
  dsimp only at hafter heffect hanswer
  rcases hanswer with ⟨header, rfl, hwritten⟩ | rfl | rfl
  · dsimp only
    rw [if_neg (not_not.mpr camera.registerAck_length)]
    exact ⟨hafter, Or.inl ⟨rfl, hwritten⟩⟩
  · exact ⟨hafter, Or.inr ⟨Or.inl rfl, heffect⟩⟩
  · exact ⟨hafter, Or.inr ⟨Or.inr rfl, heffect⟩⟩

/-- Two accesses from one bench agree: in what they return, and in the memory they leave. -/
def Agree {α : Type} (left right : Except GigeError α × Bench) : Prop :=
  left.1 = right.1 ∧ left.2.memory = right.2.memory

theorem readRegisterOrMem_agrees (hready : bench.Ready) (addr len : Nat) :
    Agree (camera.session.readRegisterOrMem addr len bench)
      (readMem camera.session.transact addr len bench) := by
  cases hregister : singleRegisterAddress addr len with
  | none =>
    unfold ControlSession.readRegisterOrMem ControlSession.access
    rw [hregister]
    exact ⟨rfl, rfl⟩
  | some register =>
    obtain ⟨rfl, haddr, hlow, rfl⟩ := singleRegisterAddress_eq_some hregister
    -- Whatever happens to the register command, the memory stays as it is.
    have hmemory : ∀ state : Bench, state.Ready ∧ state.memory = bench.memory →
        (readMem camera.session.transact register 4 state).1 =
            .ok (readBytes bench.memory register 4) ∧
          ((readMem camera.session.transact register 4 state).2.Ready ∧
            (readMem camera.session.transact register 4 state).2.memory = bench.memory) := by
      rintro state ⟨hstate, hsame⟩
      obtain ⟨hvalue, hafter, heffect⟩ := camera.readMem_word hstate haddr hlow
      rw [hsame] at hvalue heffect
      exact ⟨hvalue, hafter, heffect⟩
    have hlatch : ∀ state : Bench, state.Ready ∧ state.memory = bench.memory →
        (camera.session.latchMemoryAccess state).Ready ∧
          (camera.session.latchMemoryAccess state).memory = bench.memory := by
      intro state hstate
      unfold ControlSession.latchMemoryAccess
      split
      · exact hstate
      · exact hstate
    obtain ⟨hvalue, -, heffect⟩ := @ControlSession.access_interchange _ camera.session _
      (singleRegisterAddress register 4) camera.session.readRegisterBytes
      (readMem camera.session.transact register 4) bench (readBytes bench.memory register 4)
      (fun state => state.Ready ∧ state.memory = bench.memory)
      (fun state => state.Ready ∧ state.memory = bench.memory)
      (fun addr heq _ => by
        obtain rfl := Option.some.inj (hregister.symm.trans heq)
        obtain ⟨hafter, hsame, hanswer | hfailed⟩ := camera.readRegisterBytes_outcome hready hlow
        · exact Or.inl ⟨hanswer, hafter, hsame⟩
        · exact Or.inr ⟨hfailed, hafter, hsame⟩)
      hmemory hlatch hlatch ⟨hready, rfl⟩
    obtain ⟨hword, -, hkept⟩ := hmemory bench ⟨hready, rfl⟩
    exact ⟨hvalue.trans hword.symm, heffect.trans hkept.symm⟩

theorem writeBytes_again (addr : Nat) (data : List UInt8) :
    writeBytes (writeBytes memory addr data) addr data = writeBytes memory addr data := by
  funext at_
  unfold writeBytes
  split
  · rfl
  · rfl

theorem writeRegisterOrMem_agrees (hready : bench.Ready) (addr : Nat) (data : List UInt8) :
    Agree (camera.session.writeRegisterOrMem addr data bench)
      (writeMem camera.session.transact addr data bench) := by
  cases hregister : singleRegisterAddress addr data.length with
  | none =>
    unfold ControlSession.writeRegisterOrMem ControlSession.access
    rw [hregister]
    exact ⟨rfl, rfl⟩
  | some register =>
    obtain ⟨hlength, haddr, hlow, rfl⟩ := singleRegisterAddress_eq_some hregister
    set written := writeBytes bench.memory register data with hwritten
    -- Until the access is through, the word is as it was or written already.
    have hmemory : ∀ state : Bench,
        state.Ready ∧ (state.memory = bench.memory ∨ state.memory = written) →
        (writeMem camera.session.transact register data state).1 = .ok () ∧
          ((writeMem camera.session.transact register data state).2.Ready ∧
            (writeMem camera.session.transact register data state).2.memory = written) := by
      rintro state ⟨hstate, hword⟩
      obtain ⟨hvalue, hafter, heffect⟩ := camera.writeMem_word hstate hlength haddr hlow
      refine ⟨hvalue, hafter, heffect.trans ?_⟩
      rcases hword with hword | hword
      · rw [hword]
      · rw [hword, hwritten, writeBytes_again]
    have hlatch : ∀ state : Bench, (camera.session.latchMemoryAccess state).memory = state.memory ∧
        ((camera.session.latchMemoryAccess state).Ready ↔ state.Ready) := by
      intro state
      unfold ControlSession.latchMemoryAccess
      split
      · exact ⟨rfl, Iff.rfl⟩
      · exact ⟨rfl, Iff.rfl⟩
    obtain ⟨hvalue, -, heffect⟩ := @ControlSession.access_interchange _ camera.session _
      (singleRegisterAddress register data.length)
      (fun register => camera.session.writeRegister register (decodeBE data))
      (writeMem camera.session.transact register data) bench ()
      (fun state => state.Ready ∧ (state.memory = bench.memory ∨ state.memory = written))
      (fun state => state.Ready ∧ state.memory = written)
      (fun addr heq _ => by
        obtain rfl := Option.some.inj (hregister.symm.trans heq)
        obtain ⟨hafter, ⟨hanswer, hdone⟩ | ⟨hfailed, hword⟩⟩ :=
          camera.writeRegister_outcome hready hlength hlow
        · exact Or.inl ⟨hanswer, hafter, hdone⟩
        · exact Or.inr ⟨hfailed, hafter, hword⟩)
      hmemory
      (fun state hstate => by rwa [(hlatch state).1, (hlatch state).2])
      (fun state hstate => by rwa [(hlatch state).1, (hlatch state).2])
      ⟨hready, Or.inl rfl⟩
    obtain ⟨hword, -, hdone⟩ := hmemory bench ⟨hready, Or.inl rfl⟩
    exact ⟨hvalue.trans hword.symm, heffect.trans hdone.symm⟩

theorem perform_ready (hready : bench.Ready) (call : ControlSession.Call) :
    (camera.session.perform bench call).Ready :=
  camera.session.perform_invariant Bench.Ready
    (fun bench opcode payload _ => camera.transact_ready bench opcode payload)
    (fun _ h => h) hready call

theorem run_ready (hready : bench.Ready) (calls : List ControlSession.Call) :
    (run camera.session.perform bench calls).Ready := by
  induction calls generalizing bench with
  | nil => exact hready
  | cons call rest ih => exact ih (camera.perform_ready hready call)

end RegisterCamera

/-- After any calls, register and memory commands come to the same on the bench. In any
session, a run that latches it has a call that asked for that or whose register command was
refused; from then on its calls and keepalives send memory commands alone; and what else
goes wrong with a register command is returned as it is, with no memory command sent. -/
theorem register_access_laws (camera : RegisterCamera) {bench : Bench} (hready : bench.Ready)
    (calls : List ControlSession.Call) {σ : Type} (session : ControlSession σ) (state : σ) :
    (∀ addr len, RegisterCamera.Agree
        (camera.session.readRegisterOrMem addr len (run camera.session.perform bench calls))
        (readMem camera.session.transact addr len (run camera.session.perform bench calls))) ∧
      (∀ addr data, RegisterCamera.Agree
        (camera.session.writeRegisterOrMem addr data (run camera.session.perform bench calls))
        (writeMem camera.session.transact addr data (run camera.session.perform bench calls))) ∧
      (∀ calls, session.memoryAccessOnly state = false →
        session.memoryAccessOnly (run session.perform state calls) = true →
        ∃ front call back, calls = front ++ call :: back ∧
          session.memoryAccessOnly (run session.perform state front) = false ∧
          (session.RefusedIn (run session.perform state front) call ∨
            call = .useMemoryAccess)) ∧
      (∀ calls, session.memoryAccessOnly state = true →
        session.Sent OpCode.IsMemory state (run session.perform state calls)) ∧
      (∀ requestId, session.memoryAccessOnly state = true →
        OpCode.fromCommand (fieldBE ((session.device state).keepaliveDatagram requestId) 2 2) =
          some .readMem) ∧
      ∀ call error, session.memoryAccessOnly state = false →
        session.FailsFinally state error call → ControlSession.Final error →
        session.answer state call = .error error ∧
          session.Sent OpCode.IsRegister state (session.perform state call) := by
  have hafter := camera.run_ready hready calls
  refine ⟨fun addr len => camera.readRegisterOrMem_agrees hafter addr len,
    fun addr data => camera.writeRegisterOrMem_agrees hafter addr data,
    fun calls hbefore hlatched => session.run_latches hbefore hlatched,
    fun calls hlatched => session.run_latched hlatched calls, fun requestId hlatched => ?_,
    fun call error hbefore hfails hfinal => session.perform_final hbefore hfails hfinal⟩
  rw [fromCommand_keepalive, session.keepaliveOpcode_latched hlatched]

/-- A device that carries out the register commands it is sent and never answers them. -/
def muteCamera : RegisterCamera where
  toMemoryCamera := strictCamera
  treats := fun _ => .unanswered true
  registerAck := [0, 0, 0, 1]
  registerAck_length := by decide

/-- A word written to the silent device is written once. -/
theorem register_access_laws_mute : RegisterCamera.Agree
    (muteCamera.session.writeRegisterOrMem 0x2000 [1, 2, 3, 4] strictBench)
    (writeMem muteCamera.session.transact 0x2000 [1, 2, 3, 4] strictBench) :=
  (@register_access_laws muteCamera strictBench (show 1 < 65536 by decide) [] Bench
    muteCamera.session strictBench).2.1 0x2000 [1, 2, 3, 4]

/-- A caller turns a session to memory access with nothing refused. -/
theorem callers_latch_sessions :
    ¬ ∀ (camera : RegisterCamera) (bench : Bench), bench.Ready →
      ∀ call, camera.session.memoryAccessOnly bench = false →
        camera.session.memoryAccessOnly (camera.session.perform bench call) = true →
        camera.session.RefusedIn bench call := by
  intro h
  exact h muteCamera strictBench (show 1 < 65536 by decide) .useMemoryAccess rfl rfl

end VivaGenicam.Gvcp
