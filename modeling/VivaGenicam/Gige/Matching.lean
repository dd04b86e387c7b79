import VivaGenicam.Gige.RequestIds

/-!
GVCP transactions match answers to requests, whatever the socket delivers: what
is returned as Ok answers this command with SUCCESS; a command is sent four
times at most, the same bytes each time; datagrams of other transactions change
nothing; ids do not come back; and a call returns once its rounds have lasted
as long as the deadlines and the extensions allow.
-/

namespace VivaGenicam.Gvcp

open Library.Bytes Library.Transition

variable {terms : Terms}

/-- The datagram a wait ends with was read in one of its turns, and is neither
another transaction's nor a PENDING_ACK. -/
theorem received_of_wait (turns : List Turn) (session : Session)
    {packet : List UInt8} (hstart : session.wait.ended ≠ some (.received packet))
    (hend : (run (Session.turn terms) session turns).wait.ended = some (.received packet)) :
    foreign terms.requestId packet = false ∧ parsePendingAck packet = none ∧
      ∃ turn ∈ turns, ∃ bytes, turn.wake = .datagram bytes ∧ packet = bytes.take bufferSize := by
  induction turns generalizing session with
  | nil => exact absurd hend hstart
  | cons turn rest ih =>
    rw [run_cons] at hend
    have hlater : (session.turn terms turn).wait.ended ≠ some (.received packet) →
        foreign terms.requestId packet = false ∧ parsePendingAck packet = none ∧
          ∃ later ∈ turn :: rest, ∃ bytes, later.wake = .datagram bytes ∧
            packet = bytes.take bufferSize := by
      intro hnot
      obtain ⟨hforeign, hpending, later, hmem, horigin⟩ := ih _ hnot hend
      exact ⟨hforeign, hpending, later, List.mem_cons_of_mem _ hmem, horigin⟩
    rcases session.turn_cases terms turn with heq | ⟨ending, heq, hreceived⟩ | ⟨failure, heq⟩ |
      ⟨-, hnot, -, -⟩
    · exact hlater (by rwa [heq])
    · by_cases hpacket : ending = .received packet
      · obtain ⟨hforeign, hpending, horigin⟩ := hreceived packet hpacket
        exact ⟨hforeign, hpending, turn, List.mem_cons_self .., horigin⟩
      · apply hlater
        rw [heq]
        exact fun h => hpacket (Option.some.inj h)
    · exact hlater (by rwa [heq])
    · exact hlater (hnot packet)

/-- What a transaction returns as Ok was read from the socket, and answers the
command under its request id with SUCCESS. -/
def Answers (opcode : OpCode) (requestId : Nat) (rounds : List Attempt) (ack : GenCpAck) : Prop :=
  ∃ packet, decodeAck packet = .ok ack ∧ parsePendingAck packet = none ∧
    ack.header.requestId = requestId ∧ ack.header.opcode = opcode ∧
    GigeStatus.fromRaw ack.header.status = .common .success ∧
    ∃ round ∈ rounds, ∃ turn ∈ round.turns, ∃ bytes,
      turn.wake = .datagram bytes ∧ packet = bytes.take bufferSize

theorem Answers.cons {opcode : OpCode} {requestId : Nat} {rounds : List Attempt}
    {ack : GenCpAck} (h : Answers opcode requestId rounds ack) (round : Attempt) :
    Answers opcode requestId (round :: rounds) ack := by
  obtain ⟨packet, hack, hpending, hid, hopcode, hstatus, earlier, hmem, horigin⟩ := h
  exact ⟨packet, hack, hpending, hid, hopcode, hstatus, earlier, List.mem_cons_of_mem _ hmem,
    horigin⟩

variable {requestId : Nat}

theorem requestId_of_not_foreign {packet : List UInt8} {ack : GenCpAck}
    (hack : decodeAck packet = .ok ack) (hforeign : foreign requestId packet = false) :
    ack.header.requestId = requestId := by
  obtain ⟨hlen, -, -, -, -, hid, -⟩ := decodeAck_ok hack
  have hackId : ackId packet = some (fieldBE packet 6 2) := if_neg (Nat.not_lt.mpr hlen)
  rw [hid]
  simpa [foreign, hackId] using hforeign

variable {opcode : OpCode} {encoded : List UInt8}

theorem retryLoop_ok (attempt : Nat) (device : GigeDevice) (rounds : List Attempt) {ack : GenCpAck}
    (h : (retryLoop opcode requestId encoded attempt device rounds).1 = some (.ok ack)) :
    Answers opcode requestId rounds ack := by
  induction rounds generalizing attempt device with
  | nil => cases h
  | cons round rounds ih =>
    revert h
    apply retryLoop_round fun called =>
      called.1 = some (.ok ack) → Answers opcode requestId (round :: rounds) ack
    · intro _ error h
      cases h
    · exact fun _ _ h => (ih _ _ h).cons round
    · intro _ _ h
      cases h
    · intro _ result hok h
      obtain ⟨packet, hended, hack, hopcode, hstatus⟩ := hok ack (Option.some.inj h)
      rw [← GigeDevice.serve_wait device requestId encoded round] at hended
      obtain ⟨hforeign, hpending, horigin⟩ :=
        received_of_wait round.turns _ (by simp [Terms.start]) hended
      exact ⟨packet, hack, hpending, requestId_of_not_foreign hack hforeign, hopcode, hstatus,
        round, List.mem_cons_self .., horigin⟩
    · exact fun _ _ h => (ih _ _ h).cons round
    · exact fun _ _ h => (ih _ _ h).cons round

def Record.isCommand : Record → Bool
  | .command _ => true
  | _ => false

/-- What a transaction sends: `count` commands at most, all of them `encoded`,
and keepalives of its own. -/
structure Sends (requestId : Nat) (encoded : List UInt8) (count : Nat) (sent : List Record) :
    Prop where
  commands : ∀ datagram, .command datagram ∈ sent → datagram = encoded
  keepalives : ∀ active datagram, .keepalive active datagram ∈ sent → active = requestId
  count : sent.countP Record.isCommand ≤ count

variable {count : Nat} {sent : List Record}

theorem Sends.quiet (h : Sends requestId encoded count sent) {entry : Record}
    (hcommand : entry.isCommand = false)
    (hkeepalive : ∀ active datagram, entry = .keepalive active datagram → active = requestId) :
    Sends requestId encoded count (entry :: sent) where
  commands := by
    intro datagram hmem
    rcases List.mem_cons.mp hmem with rfl | hmem
    · cases hcommand
    · exact h.commands datagram hmem
  keepalives := by
    intro active datagram hmem
    rcases List.mem_cons.mp hmem with heq | hmem
    · exact hkeepalive active datagram heq.symm
    · exact h.keepalives active datagram hmem
  count := by
    rw [List.countP_cons_of_neg (by simp [hcommand])]
    exact h.count

theorem Sends.command (h : Sends requestId encoded count sent) :
    Sends requestId encoded (count + 1) (.command encoded :: sent) where
  commands := by
    intro datagram hmem
    rcases List.mem_cons.mp hmem with heq | hmem
    · cases heq
      rfl
    · exact h.commands datagram hmem
  keepalives := by
    intro active datagram hmem
    rcases List.mem_cons.mp hmem with heq | hmem
    · cases heq
    · exact h.keepalives active datagram hmem
  count := by
    rw [List.countP_cons_of_pos rfl]
    exact Nat.succ_le_succ h.count

theorem Sends.mono {more : Nat} (h : Sends requestId encoded count sent) (hle : count ≤ more) :
    Sends requestId encoded more sent :=
  { h with count := h.count.trans hle }

/-- The wire of a transaction that began with `before` on it. -/
def SentSince (before : List Record) (requestId : Nat) (encoded : List UInt8) (count : Nat)
    (device : GigeDevice) : Prop :=
  ∃ sent, device.wire = sent ++ before ∧ Sends requestId encoded count sent

theorem serve_sends {before : List Record}
    {device : GigeDevice} (h : SentSince before requestId encoded count device) (round : Attempt) :
    SentSince before requestId encoded (count + 1)
      (device.serve requestId encoded round).device := by
  apply serve_invariant (SentSince before requestId encoded (count + 1))
  · rintro served time failure ⟨sent, hwire, hsends⟩
    obtain ⟨id, taken, hnext⟩ := served.keepaliveId_frame requestId
    unfold GigeDevice.sendInflightKeepalive
    simp only [hnext]
    cases failure with
    | some kind => exact ⟨sent, hwire, hsends⟩
    | none =>
      refine ⟨_ :: sent, congrArg (List.cons _) hwire, hsends.quiet rfl ?_⟩
      rintro active datagram heq
      cases heq
      rfl
  · rintro served ⟨sent, hwire, hsends⟩
    exact ⟨.pending :: sent, congrArg (List.cons _) hwire, hsends.quiet rfl (by simp)⟩
  · obtain ⟨sent, hwire, hsends⟩ := h
    exact ⟨.command encoded :: sent, congrArg (List.cons _) hwire, hsends.command⟩

theorem retryLoop_sends {before : List Record} {opcode : OpCode} {requestId count : Nat}
    {encoded : List UInt8} (attempt : Nat) (device : GigeDevice) (rounds : List Attempt)
    (hattempt : attempt ≤ Consts.maxRetries) (h : SentSince before requestId encoded count device)
    (hcount : count + Consts.maxRetries + 1 ≤ Consts.maxRetries + attempt) :
    SentSince before requestId encoded Consts.maxRetries
      (retryLoop opcode requestId encoded attempt device rounds).2 := by
  have hfew : ∀ {fewer after}, SentSince before requestId encoded fewer after →
      fewer ≤ Consts.maxRetries →
      SentSince before requestId encoded Consts.maxRetries after := by
    rintro fewer after ⟨sent, hwire, hsends⟩ hle
    exact ⟨sent, hwire, hsends.mono hle⟩
  induction rounds generalizing attempt device count with
  | nil => exact hfew h (by omega)
  | cons round rounds ih =>
    have hserved := serve_sends h round
    apply retryLoop_round (SentSince before requestId encoded Consts.maxRetries ·.2)
    · exact fun _ _ => hfew h (by omega)
    · exact fun _ hroom => ih _ _ (by omega) h (by omega)
    · exact fun _ _ => hfew hserved (by omega)
    · exact fun _ _ _ => hfew hserved (by omega)
    · intro _ hroom
      obtain ⟨sent, hwire, hsends⟩ := hserved
      have hbusy : SentSince before requestId encoded (count + 1)
          ((device.serve requestId encoded round).device.record .busy) :=
        ⟨.busy :: sent, congrArg (List.cons _) hwire, hsends.quiet rfl (by simp)⟩
      exact ih _ _ (by omega) hbusy (by omega)
    · exact fun _ hroom => ih _ _ (by omega) hserved (by omega)

def Turn.isForeign (requestId : Nat) (turn : Turn) : Bool :=
  match turn.wake with
  | .datagram bytes => foreign requestId (bytes.take bufferSize)
  | _ => false

/-- A round without the datagrams of other transactions. -/
def Attempt.drained (requestId : Nat) (round : Attempt) : Attempt :=
  { round with turns := round.turns.filter fun turn => !turn.isForeign requestId }

theorem Session.turn_foreign {turn : Turn} (session : Session)
    (h : turn.isForeign terms.requestId = true) : session.turn terms turn = session := by
  obtain ⟨time, wake⟩ := turn
  cases wake with
  | datagram bytes =>
    have hforeign : foreign terms.requestId (bytes.take bufferSize) = true := h
    simp [Session.turn, Wait.wake, Session.wakeDevice, hforeign]
  | _ => cases h

theorem run_drained (terms : Terms) (session : Session) (turns : List Turn) :
    run (Session.turn terms) session (turns.filter fun turn => !turn.isForeign terms.requestId) =
      run (Session.turn terms) session turns := by
  induction turns generalizing session with
  | nil => rfl
  | cons turn rest ih =>
    cases hforeign : turn.isForeign terms.requestId with
    | false =>
      rw [List.filter_cons_of_pos (by simp [hforeign]), run_cons, run_cons, ih]
    | true =>
      rw [List.filter_cons_of_neg (by simp [hforeign]), run_cons,
        Session.turn_foreign session hforeign, ih]

theorem serve_drained (device : GigeDevice) (requestId : Nat) (encoded : List UInt8)
    (round : Attempt) :
    device.serve requestId encoded (round.drained requestId) =
      device.serve requestId encoded round :=
  run_drained (device.terms requestId) _ round.turns

theorem retryLoop_drained (attempt : Nat) (device : GigeDevice) (rounds : List Attempt) :
    retryLoop opcode requestId encoded attempt device (rounds.map (Attempt.drained requestId)) =
      retryLoop opcode requestId encoded attempt device rounds := by
  induction rounds generalizing attempt device with
  | nil => rfl
  | cons round rounds ih =>
    rw [List.map_cons]
    cases hsend : round.sendError with
    | some kind =>
      have hdrained : (round.drained requestId).sendError = some kind := hsend
      rw [retryLoop_unsent hsend, retryLoop_unsent hdrained, ih]
      rfl
    | none =>
      have hdrained : (round.drained requestId).sendError = none := hsend
      rw [retryLoop_sent hsend, retryLoop_sent hdrained, serve_drained,
        ← GigeDevice.serve_wait device requestId encoded (round.drained requestId),
        ← GigeDevice.serve_wait device requestId encoded round, serve_drained]
      cases (device.serve requestId encoded round).wait.ended with
      | none => rfl
      | some outcome => cases outcome <;> simp only [settle, ih]

/-- The runtime serves an elapsed deadline before anything else. -/
def Wait.Prompt (wait : Wait) (turn : Turn) : Prop :=
  wait.ended = none → turn.time < wait.deadline ∨ turn.wake = .deadline

/-- The longest extension one PENDING_ACK is granted. -/
def Terms.maxGrant (terms : Terms) : Nat := max Consts.maxPendingAckWait terms.controlTimeout

/-- When a wait that began at `sentAt` is over at the latest. -/
def Terms.limit (terms : Terms) (sentAt : Nat) : Nat :=
  sentAt + terms.controlTimeout + Consts.maxPendingAcks * terms.maxGrant

theorem grantedWait_le (terms : Terms) (requested : Nat) :
    grantedWait terms.controlTimeout requested ≤ terms.maxGrant := by
  unfold grantedWait Terms.maxGrant Consts.controlTimeout Consts.maxPendingAckWait
  omega

theorem deadline_turn {limit : Nat} {wait : Wait} {turn : Turn}
    (h : wait.deadline + wait.grants * terms.maxGrant ≤ limit) (hprompt : wait.Prompt turn) :
    (wait.turn terms turn).deadline + (wait.turn terms turn).grants * terms.maxGrant ≤ limit := by
  cases hended : wait.ended with
  | some ending => rwa [Wait.turn_ended (by simp [hended])]
  | none =>
    rw [Wait.turn_waiting hended]
    have htime := hprompt hended
    obtain ⟨time, wake⟩ := turn
    cases wake with
    | deadline => 
      simp only [Wait.wake]
      split
      · exact h
      · exact h
    | heartbeat failure =>
      simp only [Wait.wake]
      split
      · exact h
      · exact h
    | error kind =>
      simp only [Wait.wake]
      split
      · exact h
      · exact h
    | datagram bytes =>
      simp only [Wait.wake]
      split
      · exact h
      · unfold Wait.hear
        cases parsePendingAck (bytes.take bufferSize) with
        | none => exact h
        | some asked =>
          cases hgrants : wait.grants with
          | zero =>
            rw [hgrants] at h
            simpa [hgrants] using h
          | succ grants =>
            have hbefore : time < wait.deadline := by simpa using htime
            have hgranted := grantedWait_le terms asked.2
            rw [hgrants, Nat.add_mul, Nat.one_mul] at h
            dsimp only
            omega

theorem ended_of_limit {limit : Nat} (turns : List Turn) (wait : Wait)
    (hlimit : wait.deadline + wait.grants * terms.maxGrant ≤ limit)
    (hprompt : Guarded (Wait.turn terms) Wait.Prompt wait turns)
    (hlong : ∃ turn ∈ turns, limit ≤ turn.time) :
    (run (Wait.turn terms) wait turns).ended ≠ none := by
  induction turns generalizing wait with
  | nil => simp at hlong
  | cons turn rest ih =>
    rw [run_cons]
    obtain ⟨late, hmem, hlate⟩ := hlong
    rcases List.mem_cons.mp hmem with rfl | hmem
    · have hended : (wait.turn terms late).ended ≠ none := by
        cases hended : wait.ended with
        | some ending => simp [hended]
        | none =>
          have hdeadline : wait.deadline ≤ late.time := by omega
          have hwake : late.wake = .deadline :=
            (hprompt.1 hended).resolve_left (Nat.not_lt.mpr hdeadline)
          rw [Wait.turn_waiting hended]
          simp [Wait.wake, hwake, hdeadline]
      rwa [Wait.run_ended rest (Option.isSome_iff_ne_none.mpr hended)]
    · exact ih _ (deadline_turn hlimit hprompt.1) hprompt.2 ⟨late, hmem, hlate⟩

/-- The script of a round, if its command left, reaches the limit of the wait,
and the runtime serves its deadlines. -/
def Terms.LongEnough (terms : Terms) (round : Attempt) : Prop :=
  round.sendError = none →
    Guarded (Wait.turn terms) Wait.Prompt (terms.start round.sentAt) round.turns ∧
      ∃ turn ∈ round.turns, terms.limit round.sentAt ≤ turn.time

theorem retryLoop_returns (attempt : Nat) (device : GigeDevice) (rounds : List Attempt)
    (hattempt : attempt ≤ Consts.maxRetries) (hrounds : Consts.maxRetries < attempt + rounds.length)
    (hlong : ∀ round ∈ rounds, (device.terms requestId).LongEnough round) :
    (retryLoop opcode requestId encoded attempt device rounds).1 ≠ none := by
  induction rounds generalizing attempt device with
  | nil =>
    rw [List.length_nil] at hrounds
    omega
  | cons round rounds ih =>
    rw [List.length_cons] at hrounds
    have hrest : ∀ later ∈ rounds, (device.terms requestId).LongEnough later :=
      fun later hmem => hlong later (List.mem_cons_of_mem _ hmem)
    have hterms := serve_terms device requestId encoded round
    apply retryLoop_round (·.1 ≠ none)
    · simp
    · exact fun _ hroom => ih _ _ (by omega) (by omega) hrest
    · intro hsend hended
      obtain ⟨hprompt, hlate⟩ := hlong round (List.mem_cons_self ..) hsend
      exact absurd hended (ended_of_limit _ _ (le_refl _) hprompt hlate)
    · simp
    · intro _ hroom
      refine ih _ _ (by omega) (by omega) ?_
      rw [GigeDevice.terms_record, hterms]
      exact hrest
    · intro _ hroom
      refine ih _ _ (by omega) (by omega) ?_
      rw [hterms]
      exact hrest

/-- Whatever the socket does to the calls made on a device, an Ok result is this
command's SUCCESS; a call sends its command four times at most, the same bytes
each time; without the datagrams of other transactions it goes the same way; no
id sent is zero, none comes back among 65534 consecutive ones, and none a
keepalive uses is that of its transaction; and the call returns. -/
theorem transactions_matched (requestId : Nat) (hpos : 0 < requestId) (hlt : requestId < 65536)
    (controlTimeout : Nat) (period : Option Nat) (lastCommandSent : Nat)
    (memoryAccessOnly : Bool) (ops : List ControlOp) (opcode : OpCode) (payload : List UInt8)
    (rounds : List Attempt) :
    let device := run GigeDevice.apply (GigeDevice.opened requestId controlTimeout period
      lastCommandSent memoryAccessOnly) ops
    let call := transactWithRetry opcode payload device rounds
    (∀ ack, call.1 = some (.ok ack) → Answers opcode device.requestId rounds ack) ∧
      (∃ sent, call.2.wire = sent ++ device.wire ∧
        Sends device.requestId (commandDatagram opcode payload device.requestId)
          Consts.maxRetries sent) ∧
      transactWithRetry opcode payload device
        (rounds.map (Attempt.drained device.requestId)) = call ∧
      (∀ datagram, .command datagram ∈ call.2.wire → fieldBE datagram 6 2 ≠ 0) ∧
      (∀ active datagram, .keepalive active datagram ∈ call.2.wire →
        fieldBE datagram 6 2 ≠ 0 ∧ fieldBE datagram 6 2 ≠ active) ∧
      (∀ window, window <:+: call.2.issues → window.length ≤ 65534 →
        (window.map Issue.requestId).Nodup) ∧
      (Consts.maxRetries ≤ rounds.length →
        (∀ round ∈ rounds, (device.terms device.requestId).LongEnough round) →
        call.1 ≠ none) := by
  intro device call
  have hissued : device.Issued requestId :=
    issued_run hpos hlt controlTimeout period lastCommandSent memoryAccessOnly ops
  have hafter : call.2.Issued requestId := (hissued.transact opcode payload rounds).toIssued
  have hnonzero : ∀ issue ∈ call.2.issues, issue.requestId ≠ 0 := by
    intro issue hmem
    rw [hafter.tickets issue hmem]
    exact (Library.RoundRobin.ticket_pos ..).ne'
  refine ⟨?_, ?_, ?_, ?_, ?_, ?_, ?_⟩
  · exact fun ack h => retryLoop_ok _ _ _ h
  · apply @retryLoop_sends _ _ _ 0 _ 1 _ _ (by decide)
    · exact ⟨[], rfl, by simp, by simp, by simp⟩
    · decide
  · exact retryLoop_drained _ _ _
  · intro datagram hmem
    obtain ⟨issue, hissue, heq⟩ := hafter.commands datagram hmem
    rw [heq]
    exact hnonzero issue hissue
  · intro active datagram hmem
    obtain ⟨issue, hissue, hactive, heq⟩ := hafter.keepalives active datagram hmem
    rw [heq]
    exact ⟨hnonzero issue hissue, hafter.apart issue hissue active hactive⟩
  · exact fun window hwindow hlength => hafter.nodup hwindow hlength
  · intro hrounds hlong
    exact retryLoop_returns _ _ _ (by decide) (by omega) hlong

/-- A register read whose wait drains a late answer to another id first. -/
theorem transactions_matched_read :
    Answers .readRegister 1
      [⟨none, none, 0,
        [⟨3, .datagram [0, 0, 0, 0x81, 0, 4, 0, 9, 1, 1, 1, 1]⟩,
          ⟨5, .datagram [0, 0, 0, 0x81, 0, 4, 0, 1, 0, 0, 0, 2]⟩]⟩]
      ⟨⟨0, .readRegister, 4, 1⟩, [0, 0, 0, 2]⟩ :=
  (transactions_matched 1 (by decide) (by decide) 500 none 0 false [] .readRegister
    [0, 0, 0x0a, 0] _).1 _ (by decide +kernel)

end VivaGenicam.Gvcp
