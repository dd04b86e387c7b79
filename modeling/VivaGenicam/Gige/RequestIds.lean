import VivaGenicam.Gige.Waiting
import VivaGenicam.Library.RoundRobin

/-!
The request ids a device hands out. They come round robin from `1..65535`; a
keepalive passes over the id of the transaction it is sent for, which happens
once in a round at most, so no id returns within 65534 commands and keepalives.
-/

namespace VivaGenicam.Gvcp

open Library.Bytes Library.Transition Library.RoundRobin

/-- How many ids there are before they repeat. -/
def idPeriod : Nat := 65535

/-- The journals of a device whose counter began at `first`. -/
structure GigeDevice.Issued (first : Nat) (device : GigeDevice) : Prop where
  counter : device.requestId = ticket idPeriod first device.taken
  sparse : Sparse idPeriod device.taken (device.issues.map Issue.position)
  tickets : ∀ issue ∈ device.issues, issue.requestId = ticket idPeriod first issue.position
  apart : ∀ issue ∈ device.issues, ∀ active, issue.active = some active →
    issue.requestId ≠ active
  commands : ∀ datagram, .command datagram ∈ device.wire →
    ∃ issue ∈ device.issues, fieldBE datagram 6 2 = issue.requestId
  keepalives : ∀ active datagram, .keepalive active datagram ∈ device.wire →
    ∃ issue ∈ device.issues, issue.active = some active ∧
      fieldBE datagram 6 2 = issue.requestId

/-- A transaction is under way whose id was the one at position `start`; what
was passed over since is that id, come round again. -/
structure GigeDevice.Transacting (first start requestId : Nat) (device : GigeDevice) : Prop
    extends device.Issued first where
  begun : start < device.taken
  own : requestId = ticket idPeriod first start
  passed : ∀ early, early < device.taken → early ∉ device.issues.map Issue.position →
    early < start ∨ ticket idPeriod first early = requestId
  holder : ∃ issue ∈ device.issues, issue.requestId = requestId

theorem ticket_lt (first position : Nat) : ticket idPeriod first position < 65536 :=
  Nat.lt_succ_of_le (ticket_le (by decide) first position)

variable {first : Nat} {device : GigeDevice}

theorem nextRequestId_eq (h : device.requestId = ticket idPeriod first device.taken) :
    device.nextRequestId = (device.requestId,
      { device with
        requestId := ticket idPeriod first (device.taken + 1), taken := device.taken + 1 }) := by
  have hsucc := @ticket_succ idPeriod (by decide) first device.taken
  have hpos := ticket_pos idPeriod first device.taken
  have hlt := ticket_lt first device.taken
  have hnext : (if (device.requestId + 1) % 65536 = 0 then 1
      else (device.requestId + 1) % 65536) = ticket idPeriod first (device.taken + 1) := by
    rw [hsucc, h]
    generalize ticket idPeriod first device.taken = current at hpos hlt
    unfold idPeriod
    by_cases hlast : current = 65535
    · subst hlast
      rfl
    · rw [Nat.mod_eq_of_lt (by omega), if_neg (by omega), if_neg hlast]
  simp only [GigeDevice.nextRequestId, hnext]

theorem GigeDevice.Issued.command (h : device.Issued first) :
    (device.nextRequestId.2.issue device.nextRequestId.1 none).Transacting first device.taken
      device.requestId := by
  rw [nextRequestId_eq h.counter]
  refine ⟨⟨rfl, ?_, ?_, ?_, ?_, ?_⟩, Nat.lt_succ_self _, h.counter, ?_,
    ⟨_, List.mem_cons_self .., rfl⟩⟩
  · exact h.sparse.use
  · intro issue hmem
    rcases List.mem_cons.mp hmem with rfl | hmem
    · exact h.counter
    · exact h.tickets issue hmem
  · intro issue hmem active hactive
    rcases List.mem_cons.mp hmem with rfl | hmem
    · cases hactive
    · exact h.apart issue hmem active hactive
  · intro datagram hmem
    obtain ⟨issue, hissue, heq⟩ := h.commands datagram hmem
    exact ⟨issue, List.mem_cons_of_mem _ hissue, heq⟩
  · intro active datagram hmem
    obtain ⟨issue, hissue, heq⟩ := h.keepalives active datagram hmem
    exact ⟨issue, List.mem_cons_of_mem _ hissue, heq⟩
  · intro early hlt hnot
    have hne : early ≠ device.taken := by
      rintro rfl
      exact hnot (by simp [GigeDevice.issue])
    change early < device.taken + 1 at hlt
    exact Or.inl (by omega)

variable {start requestId : Nat}

theorem keepaliveId_spec (h : device.Transacting first start requestId) :
    ∃ position,
      device.keepaliveId requestId = (ticket idPeriod first position,
        { device with
          requestId := ticket idPeriod first (position + 1), taken := position + 1 }) ∧
      Sparse idPeriod position (device.issues.map Issue.position) ∧
      ticket idPeriod first position ≠ requestId ∧
      device.taken ≤ position ∧
      ∀ early, device.taken ≤ early → early < position →
        ticket idPeriod first early = requestId := by
  have hnext := nextRequestId_eq h.counter
  by_cases hactive : device.requestId = requestId
  · -- The counter has come round: the id is passed over.
    have hround : ticket idPeriod first device.taken = requestId := by
      rw [← h.counter, hactive]
    refine ⟨device.taken + 1, ?_, ?_, ?_, by omega, ?_⟩
    · simp only [GigeDevice.keepaliveId, hnext, hactive, if_true]
      exact nextRequestId_eq rfl
    · apply h.sparse.pass
      intro early hlt hnot
      rcases h.passed early hlt hnot with hbefore | hearly
      · have := period_le_of_ticket_eq (h.own.symm.trans hround.symm) h.begun
        omega
      · exact period_le_of_ticket_eq (hearly.trans hround.symm) hlt
    · intro heq
      have := period_le_of_ticket_eq (hround.trans heq.symm) (Nat.lt_succ_self _)
      unfold idPeriod at this
      omega
    · intro early hle hlt
      rwa [show early = device.taken by omega]
  · refine ⟨device.taken, ?_, h.sparse, ?_, le_refl _, by omega⟩
    · simp only [GigeDevice.keepaliveId, hnext, hactive, if_false]
      rw [← h.counter]
    · rwa [← h.counter]

theorem fieldBE_keepaliveDatagram (device : GigeDevice)
    (hid : requestId < 65536) : fieldBE (device.keepaliveDatagram requestId) 6 2 = requestId :=
  fieldBE_encode _ _ hid

theorem GigeDevice.Transacting.keepalive
    (h : device.Transacting first start requestId) (time : Nat) (failure : Option IoErrorKind) :
    (device.sendInflightKeepalive requestId time failure).Transacting first start requestId := by
  obtain ⟨position, hchosen, hsparse, hne, hle, hpassed⟩ := keepaliveId_spec h
  have hbegun := h.begun
  have hold : ∀ {datagram}, (∃ issue ∈ device.issues, fieldBE datagram 6 2 = issue.requestId) →
      ∃ issue ∈ ⟨position, ticket idPeriod first position, some requestId⟩ :: device.issues,
        fieldBE datagram 6 2 = Issue.requestId issue := by
    rintro datagram ⟨issue, hissue, heq⟩
    exact ⟨issue, List.mem_cons_of_mem _ hissue, heq⟩
  have holdActive : ∀ {active datagram}, (∃ issue ∈ device.issues, issue.active = some active ∧
        fieldBE datagram 6 2 = issue.requestId) →
      ∃ issue ∈ ⟨position, ticket idPeriod first position, some requestId⟩ :: device.issues,
        Issue.active issue = some active ∧ fieldBE datagram 6 2 = Issue.requestId issue := by
    rintro active datagram ⟨issue, hissue, heq⟩
    exact ⟨issue, List.mem_cons_of_mem _ hissue, heq⟩
  -- The journals without the record of the datagram.
  have hissued : ({ device with
      requestId := ticket idPeriod first (position + 1)
      taken := position + 1
      issues := ⟨position, ticket idPeriod first position, some requestId⟩ :: device.issues
      lastCommandSent := time } : GigeDevice).Transacting first start requestId := by
    refine ⟨⟨rfl, hsparse.use, ?_, ?_, fun datagram hmem => hold (h.commands datagram hmem),
      fun active datagram hmem => holdActive (h.keepalives active datagram hmem)⟩, by
        change start < position + 1
        omega, h.own, ?_, ?_⟩
    · intro issue hmem
      rcases List.mem_cons.mp hmem with rfl | hmem
      · rfl
      · exact h.tickets issue hmem
    · intro issue hmem active hactive
      rcases List.mem_cons.mp hmem with rfl | hmem
      · cases hactive
        exact hne
      · exact h.apart issue hmem active hactive
    · intro early hlt hnot
      change early < position + 1 at hlt
      rw [List.map_cons, List.mem_cons, not_or] at hnot
      rcases Nat.lt_or_ge early device.taken with hearly | hearly
      · exact h.passed early hearly hnot.2
      · have hne' : early ≠ position := hnot.1
        exact Or.inr (hpassed early hearly (by omega))
    · obtain ⟨issue, hissue, heq⟩ := h.holder
      exact ⟨issue, List.mem_cons_of_mem _ hissue, heq⟩
  unfold GigeDevice.sendInflightKeepalive
  simp only [hchosen]
  cases failure with
  | some kind => exact hissued
  | none =>
    refine ⟨⟨hissued.counter, hissued.sparse, hissued.tickets, hissued.apart, ?_, ?_⟩,
      hissued.begun, hissued.own, hissued.passed, hissued.holder⟩
    · intro datagram hmem
      rcases List.mem_cons.mp hmem with heq | hmem
      · cases heq
      · exact hissued.commands datagram hmem
    · intro active datagram hmem
      rcases List.mem_cons.mp hmem with heq | hmem
      · cases heq
        exact ⟨_, List.mem_cons_self .., rfl, fieldBE_keepaliveDatagram _ (ticket_lt ..)⟩
      · exact hissued.keepalives active datagram hmem

theorem GigeDevice.Transacting.send
    (h : device.Transacting first start requestId) {encoded : List UInt8}
    (hencoded : fieldBE encoded 6 2 = requestId) (time : Nat) :
    (device.sendAt encoded time).Transacting first start requestId := by
  refine ⟨⟨h.counter, h.sparse, h.tickets, h.apart, ?_, ?_⟩, h.begun, h.own, h.passed, h.holder⟩
  · intro datagram hmem
    rcases List.mem_cons.mp hmem with heq | hmem
    · cases heq
      obtain ⟨issue, hissue, hid⟩ := h.holder
      exact ⟨issue, hissue, hencoded.trans hid.symm⟩
    · exact h.commands datagram hmem
  · intro active datagram hmem
    rcases List.mem_cons.mp hmem with heq | hmem
    · cases heq
    · exact h.keepalives active datagram hmem

theorem GigeDevice.Transacting.note (h : device.Transacting first start requestId) (entry : Record)
    (hcommand : ∀ datagram, entry ≠ .command datagram)
    (hkeepalive : ∀ active datagram, entry ≠ .keepalive active datagram) :
    (device.record entry).Transacting first start requestId := by
  refine ⟨⟨h.counter, h.sparse, h.tickets, h.apart, ?_, ?_⟩, h.begun, h.own, h.passed, h.holder⟩
  · intro datagram hmem
    rcases List.mem_cons.mp hmem with heq | hmem
    · exact absurd heq.symm (hcommand datagram)
    · exact h.commands datagram hmem
  · intro active datagram hmem
    rcases List.mem_cons.mp hmem with heq | hmem
    · exact absurd heq.symm (hkeepalive active datagram)
    · exact h.keepalives active datagram hmem

theorem GigeDevice.Issued.transact (h : device.Issued first)
    (opcode : OpCode) (payload : List UInt8) (rounds : List Attempt) :
    (transactWithRetry opcode payload device rounds).2.Transacting first device.taken
      device.requestId := by
  have hid : fieldBE (commandDatagram opcode payload device.requestId) 6 2 = device.requestId := by
    apply fieldBE_encode
    dsimp only
    rw [h.counter]
    exact ticket_lt ..
  apply retryLoop_invariant (fun after => after.Transacting first device.taken device.requestId)
  · exact fun after time hafter => hafter.send hid time
  · exact fun after time failure hafter => hafter.keepalive time failure
  · exact fun after hafter => hafter.note .pending (by simp) (by simp)
  · exact fun after hafter => hafter.note .busy (by simp) (by simp)
  · exact h.command

/-- What an application does with a device, as far as it concerns request ids. -/
inductive ControlOp where
  | transact (opcode : OpCode) (payload : List UInt8) (rounds : List Attempt)
  | trySendRelease (failure : Option IoErrorKind)
  | setControlTimeout (timeout : Nat)
  | setInflightKeepalivePeriod (period : Option Nat)
  | useMemoryAccess

def trySendRelease (device : GigeDevice) (failure : Option IoErrorKind) : GigeDevice :=
  let next := device.nextRequestId
  let issued := next.2.issue next.1 none
  let opcode := if device.memoryAccessOnly then OpCode.writeMem else OpCode.writeRegister
  match failure with
  | some _ => issued
  | none =>
    issued.record (.command (commandDatagram opcode
      (encodeBE 4 Consts.controlChannelPrivilege ++ encodeBE 4 0) next.1))

def GigeDevice.apply (device : GigeDevice) : ControlOp → GigeDevice
  | .transact opcode payload rounds => (transactWithRetry opcode payload device rounds).2
  | .trySendRelease failure => trySendRelease device failure
  | .setControlTimeout timeout => { device with controlTimeout := timeout }
  | .setInflightKeepalivePeriod period =>
    { device with inflightKeepalivePeriod := period.filter (· ≠ 0) }
  | .useMemoryAccess => { device with memoryAccessOnly := true }

theorem GigeDevice.Issued.apply (h : device.Issued first)
    (op : ControlOp) : (device.apply op).Issued first := by
  cases op with
  | transact opcode payload rounds => exact (h.transact opcode payload rounds).toIssued
  | trySendRelease failure =>
    cases failure with
    | some kind => exact h.command.toIssued
    | none =>
      have hid : device.requestId < 65536 := by
        rw [h.counter]
        exact ticket_lt ..
      exact (h.command.send (fieldBE_encode _ _ hid) device.lastCommandSent).toIssued
  | setControlTimeout timeout => exact { h with }
  | setInflightKeepalivePeriod period => exact { h with }
  | useMemoryAccess => exact { h with }

/-- A device as opened, with a counter at `requestId` and empty journals. -/
def GigeDevice.opened (requestId : Nat) (controlTimeout : Nat) (period : Option Nat)
    (lastCommandSent : Nat) (memoryAccessOnly : Bool) : GigeDevice where
  controlTimeout := controlTimeout
  inflightKeepalivePeriod := period
  lastCommandSent := lastCommandSent
  requestId := requestId
  memoryAccessOnly := memoryAccessOnly
  taken := 0
  issues := []
  wire := []

theorem issued_run (hpos : 0 < requestId) (hlt : requestId < 65536)
    (controlTimeout : Nat) (period : Option Nat) (lastCommandSent : Nat)
    (memoryAccessOnly : Bool) (ops : List ControlOp) :
    (run GigeDevice.apply (GigeDevice.opened requestId controlTimeout period lastCommandSent
      memoryAccessOnly) ops).Issued requestId := by
  apply run_invariant GigeDevice.apply (fun _ _ => True) (GigeDevice.Issued requestId)
    (fun device op h _ => h.apply op)
  · refine ⟨(ticket_zero hpos (by unfold idPeriod; omega)).symm, Sparse.nil _, ?_, ?_, ?_, ?_⟩ <;>
      simp [GigeDevice.opened]
  · exact guarded_of_forall _ _ _ _ fun _ _ _ => trivial

theorem GigeDevice.Issued.nodup (h : device.Issued first)
    {window : List Issue} (hwindow : window <:+: device.issues)
    (hlength : window.length ≤ 65534) : (window.map Issue.requestId).Nodup := by
  have hids : window.map Issue.requestId =
      (window.map Issue.position).map (ticket idPeriod first) := by
    rw [List.map_map]
    apply List.map_congr_left
    exact fun issue hmem => h.tickets issue (hwindow.subset hmem)
  rw [hids]
  exact h.sparse.nodup (hwindow.map Issue.position)
    (by rw [List.length_map]; unfold idPeriod; omega)

end VivaGenicam.Gvcp
