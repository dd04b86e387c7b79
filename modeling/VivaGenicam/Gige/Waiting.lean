import VivaGenicam.Gige.Transaction
import VivaGenicam.Library.Transition

/-!
The wait for one acknowledgement as a machine with one state and one step: its
deadline, when the last command left, whether ICMP errors are ignored, how many
PENDING_ACKs it will still honour, and how it ended. The two nested receive
loops run this machine, whatever they do to the device on the way.
-/

namespace VivaGenicam.Gvcp

open Library.Bytes Library.Transition

/-- A datagram with a request id, of another transaction than `requestId`. -/
def foreign (requestId : Nat) (packet : List UInt8) : Bool :=
  match ackId packet with
  | some id => decide (id ≠ requestId)
  | none => false

/-- What stays fixed during a wait. -/
structure Terms where
  requestId : Nat
  controlTimeout : Nat
  keepalivePeriod : Option Nat

structure Wait where
  deadline : Nat
  lastCommandSent : Nat
  tolerateIcmp : Bool
  grants : Nat
  asked : Bool
  ended : Option AckRecv
deriving DecidableEq, Repr

def Wait.heartbeatDue (terms : Terms) (wait : Wait) (time : Nat) : Bool :=
  match terms.keepalivePeriod with
  | none => false
  | some period => decide (wait.lastCommandSent + period ≤ time)

/-- What a datagram for the transaction, read at `time`, does to its wait. -/
def Wait.hear (terms : Terms) (wait : Wait) (time : Nat) (packet : List UInt8) : Wait :=
  match parsePendingAck packet with
  | none => { wait with ended := some (.received packet) }
  | some (_, requested) =>
    match wait.grants with
    | 0 => { wait with asked := true, ended := some .timedOut }
    | grants + 1 =>
      { wait with
        asked := true
        grants := grants
        tolerateIcmp := true
        deadline := time + grantedWait terms.controlTimeout requested }

/-- What one wake of the receive loop does to a wait that has not ended. -/
def Wait.wake (terms : Terms) (wait : Wait) (turn : Turn) : Wait :=
  match turn.wake with
  | .deadline =>
    if wait.deadline ≤ turn.time then { wait with ended := some .timedOut } else wait
  | .heartbeat _ =>
    if wait.heartbeatDue terms turn.time then
      { wait with tolerateIcmp := true, lastCommandSent := turn.time }
    else wait
  | .error kind =>
    if wait.tolerateIcmp && isIcmpError kind then wait
    else { wait with ended := some (.io kind) }
  | .datagram bytes =>
    if foreign terms.requestId (bytes.take bufferSize) then wait
    else wait.hear terms turn.time (bytes.take bufferSize)

def Wait.turn (terms : Terms) (wait : Wait) (turn : Turn) : Wait :=
  if wait.ended.isSome then wait else wait.wake terms turn

def Terms.start (terms : Terms) (sentAt : Nat) : Wait where
  deadline := sentAt + terms.controlTimeout
  lastCommandSent := sentAt
  tolerateIcmp := false
  grants := Consts.maxPendingAcks
  asked := false
  ended := none

/-- How the wait of a round stands once its script is through. -/
def Terms.wait (terms : Terms) (round : Attempt) : Wait :=
  run (Wait.turn terms) (terms.start round.sentAt) round.turns

@[simp] theorem Wait.turn_ended {terms : Terms} {wait : Wait} {turn : Turn}
    (h : wait.ended.isSome = true) : wait.turn terms turn = wait := by
  simp [Wait.turn, h]

theorem Wait.turn_waiting {terms : Terms} {wait : Wait} {turn : Turn}
    (h : wait.ended = none) : wait.turn terms turn = wait.wake terms turn := by
  simp [Wait.turn, h]

theorem Wait.run_ended {terms : Terms} {wait : Wait} (turns : List Turn)
    (h : wait.ended.isSome = true) : run (Wait.turn terms) wait turns = wait := by
  induction turns with
  | nil => rfl
  | cons turn rest ih => rw [run_cons, Wait.turn_ended h, ih]

/-! ## The receive loops run the machine -/

/-- What the outer loop makes of the inner one's result. -/
def absorb (requestId grants : Nat) (received : Received) : Received :=
  match received.outcome with
  | some (.received packet) =>
    match parsePendingAck packet with
    | none => received
    | some (_, requested) =>
      let asked := received.device.record .pending
      match grants with
      | 0 => { received with outcome := some .timedOut, device := asked }
      | grants + 1 =>
        recvAbsorbingPending requestId grants (grantedWait asked.controlTimeout requested)
          true asked received.time received.rest
  | _ => received

/-- The two loops from the middle of the inner one on. -/
def absorbFrom (requestId grants deadline : Nat) (tolerateIcmp : Bool) (device : GigeDevice)
    (time : Nat) (turns : List Turn) : Received :=
  absorb requestId grants (recvForRequest requestId deadline tolerateIcmp device time turns)

theorem recvAbsorbingPending_eq (requestId grants wait : Nat) (committed : Bool)
    (device : GigeDevice) (time : Nat) (turns : List Turn) :
    recvAbsorbingPending requestId grants wait committed device time turns =
      absorbFrom requestId grants (time + wait) committed device time turns := by
  rw [recvAbsorbingPending.eq_def]
  rfl

/-- What the loops do with a datagram for the transaction. -/
def absorbPacket (requestId grants : Nat) (device : GigeDevice) (time : Nat)
    (packet : List UInt8) (rest : List Turn) : Received :=
  match parsePendingAck packet with
  | none => ⟨some (.received packet), device, time, rest⟩
  | some (_, requested) =>
    match grants with
    | 0 => ⟨some .timedOut, device.record .pending, time, rest⟩
    | grants + 1 =>
      absorbFrom requestId grants (time + grantedWait device.controlTimeout requested) true
        (device.record .pending) time rest

theorem absorb_received (requestId grants : Nat) (device : GigeDevice) (time : Nat)
    (packet : List UInt8) (rest : List Turn) :
    absorb requestId grants ⟨some (.received packet), device, time, rest⟩ =
      absorbPacket requestId grants device time packet rest := by
  unfold absorb absorbPacket
  dsimp only
  cases parsePendingAck packet with
  | none => rfl
  | some asked =>
    cases grants with
    | zero => rfl
    | succ grants => exact recvAbsorbingPending_eq ..

theorem absorbFrom_cons (requestId grants deadline : Nat) (tolerateIcmp : Bool)
    (device : GigeDevice) (time : Nat) (turn : Turn) (rest : List Turn) :
    absorbFrom requestId grants deadline tolerateIcmp device time (turn :: rest) =
      match turn.wake with
      | .deadline =>
        if deadline ≤ turn.time then ⟨some .timedOut, device, turn.time, rest⟩
        else absorbFrom requestId grants deadline tolerateIcmp device time rest
      | .heartbeat failure =>
        if device.heartbeatDue turn.time then
          absorbFrom requestId grants deadline true
            (device.sendInflightKeepalive requestId turn.time failure) time rest
        else absorbFrom requestId grants deadline tolerateIcmp device time rest
      | .error kind =>
        if tolerateIcmp && isIcmpError kind then
          absorbFrom requestId grants deadline tolerateIcmp device time rest
        else ⟨some (.io kind), device, turn.time, rest⟩
      | .datagram bytes =>
        if foreign requestId (bytes.take bufferSize) then
          absorbFrom requestId grants deadline tolerateIcmp device time rest
        else absorbPacket requestId grants device turn.time (bytes.take bufferSize) rest := by
  unfold absorbFrom
  rw [recvForRequest]
  cases turn.wake with
  | deadline =>
    dsimp only
    split
    · rfl
    · rfl
  | heartbeat failure =>
    dsimp only
    split
    · rfl
    · rfl
  | error kind =>
    dsimp only
    split
    · rfl
    · rfl
  | datagram bytes =>
    cases hack : ackId (bytes.take bufferSize) with
    | none =>
      simp only [foreign, hack, Bool.false_eq_true, if_false]
      exact absorb_received ..
    | some id =>
      by_cases hid : id = requestId
      · simp only [foreign, hack, hid, ne_eq, not_true_eq_false, decide_false,
          Bool.false_eq_true, if_false]
        exact absorb_received ..
      · simp only [foreign, hack, hid, ne_eq, not_false_eq_true, decide_true, if_true]

/-- A wait, and the device that waits. -/
structure Session where
  wait : Wait
  device : GigeDevice

def GigeDevice.terms (device : GigeDevice) (requestId : Nat) : Terms where
  requestId := requestId
  controlTimeout := device.controlTimeout
  keepalivePeriod := device.inflightKeepalivePeriod

/-- What one wake of the receive loop does to the device. -/
def Session.wakeDevice (terms : Terms) (session : Session) (turn : Turn) : GigeDevice :=
  match turn.wake with
  | .heartbeat failure =>
    if session.wait.heartbeatDue terms turn.time then
      session.device.sendInflightKeepalive terms.requestId turn.time failure
    else session.device
  | .datagram bytes =>
    if foreign terms.requestId (bytes.take bufferSize) then session.device
    else
      match parsePendingAck (bytes.take bufferSize) with
      | none => session.device
      | some _ => session.device.record .pending
  | _ => session.device

def Session.turn (terms : Terms) (session : Session) (turn : Turn) : Session :=
  if session.wait.ended.isSome then session
  else ⟨session.wait.wake terms turn, session.wakeDevice terms turn⟩

theorem Session.wait_turn (terms : Terms) (session : Session) (turn : Turn) :
    (session.turn terms turn).wait = session.wait.turn terms turn := by
  unfold Session.turn Wait.turn
  split
  · rfl
  · rfl

theorem Session.wait_run (terms : Terms) (session : Session) (turns : List Turn) :
    (run (Session.turn terms) session turns).wait =
      run (Wait.turn terms) session.wait turns := by
  induction turns generalizing session with
  | nil => rfl
  | cons turn rest ih => rw [run_cons, run_cons, ih, Session.wait_turn]

theorem Session.run_ended {terms : Terms} {session : Session} (turns : List Turn)
    (h : session.wait.ended.isSome = true) : run (Session.turn terms) session turns = session := by
  induction turns with
  | nil => rfl
  | cons turn rest ih =>
    have hturn : session.turn terms turn = session := by simp [Session.turn, h]
    rw [run_cons, hturn, ih]

theorem Session.turn_cases (terms : Terms) (session : Session) (turn : Turn) :
    session.turn terms turn = session ∨
      (∃ ending, session.turn terms turn =
          ⟨{ session.wait with ended := some ending }, session.device⟩ ∧
        ∀ packet, ending = .received packet →
          foreign terms.requestId packet = false ∧ parsePendingAck packet = none ∧
            ∃ bytes, turn.wake = .datagram bytes ∧ packet = bytes.take bufferSize) ∨
      (∃ failure, session.turn terms turn =
        ⟨{ session.wait with tolerateIcmp := true, lastCommandSent := turn.time },
          session.device.sendInflightKeepalive terms.requestId turn.time failure⟩) ∨
      (session.turn terms turn).wait.asked = true ∧
        (∀ packet, (session.turn terms turn).wait.ended ≠ some (.received packet)) ∧
        (session.turn terms turn).wait.lastCommandSent = session.wait.lastCommandSent ∧
        (session.turn terms turn).device = session.device.record .pending := by
  cases hended : session.wait.ended with
  | some ending => exact Or.inl (by simp [Session.turn, hended])
  | none =>
    have hturn : session.turn terms turn =
        ⟨session.wait.wake terms turn, session.wakeDevice terms turn⟩ := by
      simp [Session.turn, hended]
    obtain ⟨time, wake⟩ := turn
    rw [hturn]
    cases wake with
    | deadline =>
      simp only [Wait.wake, Session.wakeDevice]
      split
      · exact Or.inr (Or.inl ⟨.timedOut, rfl, by simp⟩)
      · exact Or.inl rfl
    | heartbeat failure =>
      simp only [Wait.wake, Session.wakeDevice]
      split
      · exact Or.inr (Or.inr (Or.inl ⟨failure, rfl⟩))
      · exact Or.inl rfl
    | error kind =>
      simp only [Wait.wake, Session.wakeDevice]
      split
      · exact Or.inl rfl
      · exact Or.inr (Or.inl ⟨.io kind, rfl, by simp⟩)
    | datagram bytes =>
      simp only [Wait.wake, Session.wakeDevice]
      split
      · exact Or.inl rfl
      · rename_i hforeign
        unfold Wait.hear
        cases hpending : parsePendingAck (bytes.take bufferSize) with
        | none =>
          refine Or.inr (Or.inl ⟨_, rfl, ?_⟩)
          rintro packet heq
          cases heq
          exact ⟨Bool.eq_false_iff.mpr hforeign, hpending, bytes, rfl, rfl⟩
        | some asked =>
          refine Or.inr (Or.inr (Or.inr ?_))
          cases hgrants : session.wait.grants with
          | zero => exact ⟨rfl, by simp, rfl, rfl⟩
          | succ grants => exact ⟨rfl, by simp [hended], rfl, rfl⟩

@[simp] theorem GigeDevice.terms_record (device : GigeDevice) (requestId : Nat)
    (entry : Record) : (device.record entry).terms requestId = device.terms requestId := rfl

@[simp] theorem GigeDevice.lastCommandSent_record (device : GigeDevice) (entry : Record) :
    (device.record entry).lastCommandSent = device.lastCommandSent := rfl

theorem GigeDevice.keepaliveId_frame (device : GigeDevice) (active : Nat) :
    ∃ requestId taken, (device.keepaliveId active).2 =
      { device with requestId := requestId, taken := taken } := by
  unfold GigeDevice.keepaliveId
  dsimp only
  split
  · exact ⟨_, _, rfl⟩
  · exact ⟨_, _, rfl⟩

theorem GigeDevice.sendInflightKeepalive_frame (device : GigeDevice) (active time : Nat)
    (failure : Option IoErrorKind) :
    ∃ requestId taken issues wire, device.sendInflightKeepalive active time failure =
      { device with
        requestId := requestId, taken := taken, issues := issues, wire := wire,
        lastCommandSent := time } := by
  obtain ⟨requestId, taken, hnext⟩ := device.keepaliveId_frame active
  unfold GigeDevice.sendInflightKeepalive
  simp only [hnext]
  cases failure with
  | none => exact ⟨_, _, _, _, rfl⟩
  | some kind => exact ⟨_, _, _, _, rfl⟩

@[simp] theorem GigeDevice.terms_sendInflightKeepalive (device : GigeDevice)
    (requestId active time : Nat) (failure : Option IoErrorKind) :
    (device.sendInflightKeepalive active time failure).terms requestId =
      device.terms requestId := by
  obtain ⟨_, _, _, _, heq⟩ := device.sendInflightKeepalive_frame active time failure
  rw [heq]
  rfl

@[simp] theorem GigeDevice.lastCommandSent_sendInflightKeepalive (device : GigeDevice)
    (active time : Nat) (failure : Option IoErrorKind) :
    (device.sendInflightKeepalive active time failure).lastCommandSent = time := by
  obtain ⟨_, _, _, _, heq⟩ := device.sendInflightKeepalive_frame active time failure
  rw [heq]

theorem absorbFrom_session (terms : Terms) (wait : Wait) (device : GigeDevice) (time : Nat)
    (turns : List Turn) (hterms : device.terms terms.requestId = terms)
    (hlast : device.lastCommandSent = wait.lastCommandSent) (hended : wait.ended = none) :
    (absorbFrom terms.requestId wait.grants wait.deadline wait.tolerateIcmp device time
        turns).outcome = (run (Session.turn terms) ⟨wait, device⟩ turns).wait.ended ∧
      (absorbFrom terms.requestId wait.grants wait.deadline wait.tolerateIcmp device time
        turns).device = (run (Session.turn terms) ⟨wait, device⟩ turns).device := by
  induction turns generalizing wait device time with
  | nil => exact ⟨hended.symm, rfl⟩
  | cons turn rest ih =>
    obtain ⟨at_, wake⟩ := turn
    have hturn : Session.turn terms ⟨wait, device⟩ ⟨at_, wake⟩ =
        ⟨wait.wake terms ⟨at_, wake⟩, Session.wakeDevice terms ⟨wait, device⟩ ⟨at_, wake⟩⟩ := by
      simp [Session.turn, hended]
    have hdue : device.heartbeatDue at_ = wait.heartbeatDue terms at_ := by
      unfold GigeDevice.heartbeatDue Wait.heartbeatDue
      rw [← hterms, hlast]
      rfl
    rw [run_cons, hturn, absorbFrom_cons]
    cases wake with
    | deadline =>
      simp only [Wait.wake, Session.wakeDevice]
      split
      · rw [Session.run_ended rest rfl]
        exact ⟨rfl, rfl⟩
      · exact ih wait device time hterms hlast hended
    | heartbeat failure =>
      simp only [Wait.wake, Session.wakeDevice, hdue]
      split
      · exact ih { wait with tolerateIcmp := true, lastCommandSent := at_ } _ time
          (by simpa using hterms) (by simp) hended
      · exact ih wait device time hterms hlast hended
    | error kind =>
      simp only [Wait.wake, Session.wakeDevice]
      split
      · exact ih wait device time hterms hlast hended
      · rw [Session.run_ended rest rfl]
        exact ⟨rfl, rfl⟩
    | datagram bytes =>
      simp only [Wait.wake, Session.wakeDevice]
      split
      · exact ih wait device time hterms hlast hended
      · unfold absorbPacket Wait.hear
        cases hpending : parsePendingAck (bytes.take bufferSize) with
        | none =>
          rw [Session.run_ended rest rfl]
          exact ⟨rfl, rfl⟩
        | some asked =>
          cases hgrants : wait.grants with
          | zero =>
            rw [Session.run_ended rest rfl]
            exact ⟨rfl, rfl⟩
          | succ grants =>
            have htimeout : device.controlTimeout = terms.controlTimeout := by
              rw [← hterms]
              rfl
            simp only [htimeout]
            exact ih ⟨at_ + grantedWait terms.controlTimeout asked.2, wait.lastCommandSent, true,
              grants, true, wait.ended⟩ (device.record .pending) at_ hterms hlast hended

def GigeDevice.sendAt (device : GigeDevice) (encoded : List UInt8) (sentAt : Nat) : GigeDevice :=
  { device.record (.command encoded) with lastCommandSent := sentAt }

/-- A round whose send succeeds, with its script played through. -/
def GigeDevice.serve (device : GigeDevice) (requestId : Nat) (encoded : List UInt8)
    (round : Attempt) : Session :=
  run (Session.turn (device.terms requestId))
    ⟨(device.terms requestId).start round.sentAt, device.sendAt encoded round.sentAt⟩ round.turns

@[simp] theorem GigeDevice.serve_wait (device : GigeDevice) (requestId : Nat)
    (encoded : List UInt8) (round : Attempt) :
    (device.serve requestId encoded round).wait = (device.terms requestId).wait round :=
  Session.wait_run ..

/-- What the retry loop does with the outcome of a wait. -/
def settle (opcode : OpCode) (requestId : Nat) (encoded : List UInt8) (attempt : Nat)
    (rounds : List Attempt) (device : GigeDevice) :
    Option AckRecv → Option (Except GigeError GenCpAck) × GigeDevice
  | none => (none, device)
  | some (.received packet) =>
    match decodeAck packet with
    | .error error => (some (.error (.genCp error)), device)
    | .ok ack =>
      if ack.header.opcode ≠ opcode then
        (some (.error (.malformedAck (commandName opcode) "answers another command")), device)
      else if (GigeStatus.fromRaw ack.header.status).isSuccess then (some (.ok ack), device)
      else if (GigeStatus.fromRaw ack.header.status).isRetryable &&
          decide (attempt < Consts.maxRetries) then
        retryLoop opcode requestId encoded (attempt + 1) (device.record .busy) rounds
      else (some (.error (.status (GigeStatus.fromRaw ack.header.status))), device)
  | some (.io kind) =>
    if Consts.maxRetries ≤ attempt then (some (.error (.io kind)), device)
    else retryLoop opcode requestId encoded (attempt + 1) device rounds
  | some .timedOut =>
    if Consts.maxRetries ≤ attempt then (some (.error .timeout), device)
    else retryLoop opcode requestId encoded (attempt + 1) device rounds

variable {opcode : OpCode} {requestId attempt : Nat} {encoded : List UInt8} {device : GigeDevice}
  {round : Attempt} {rounds : List Attempt}

theorem retryLoop_unsent {kind : IoErrorKind} (hsend : round.sendError = some kind) :
    retryLoop opcode requestId encoded attempt device (round :: rounds) =
      if Consts.maxRetries ≤ attempt then (some (.error (.io kind)), device)
      else
        match round.refreshRoute kind with
        | some failure => (some (.error (.io failure)), device)
        | none => retryLoop opcode requestId encoded (attempt + 1) device rounds := by
  rw [retryLoop, hsend] <;> rfl

theorem retryLoop_sent (hsend : round.sendError = none) :
    retryLoop opcode requestId encoded attempt device (round :: rounds) =
      settle opcode requestId encoded attempt rounds (device.serve requestId encoded round).device
        ((device.terms requestId).wait round).ended := by
  obtain ⟨houtcome, hdevice⟩ := absorbFrom_session (device.terms requestId)
    ((device.terms requestId).start round.sentAt) (device.sendAt encoded round.sentAt)
    round.sentAt round.turns rfl rfl rfl
  rw [Session.wait_run] at houtcome
  change _ = ((device.terms requestId).wait round).ended at houtcome
  change _ = (device.serve requestId encoded round).device at hdevice
  rw [← houtcome, ← hdevice, retryLoop, hsend]
  simp only [recvAbsorbingPending_eq]
  rfl

/-- Whether a packet answers the command with the BUSY status. -/
def busyAnswer (opcode : OpCode) (packet : List UInt8) : Bool :=
  match decodeAck packet with
  | .error _ => false
  | .ok ack =>
    decide (ack.header.opcode = opcode) && (GigeStatus.fromRaw ack.header.status).isRetryable

/-- An answer is final or, where it is BUSY and rounds are left, one more reason
to send; what is returned as Ok answers the command with SUCCESS. -/
theorem settle_received (opcode : OpCode) (requestId : Nat) (encoded : List UInt8)
    (attempt : Nat) (rounds : List Attempt) (device : GigeDevice) (packet : List UInt8) :
    ∃ result, settle opcode requestId encoded attempt rounds device (some (.received packet)) =
        (if busyAnswer opcode packet = true ∧ attempt < Consts.maxRetries then
          retryLoop opcode requestId encoded (attempt + 1) (device.record .busy) rounds
        else (some result, device)) ∧
      ∀ ack, result = .ok ack → decodeAck packet = .ok ack ∧ ack.header.opcode = opcode ∧
        GigeStatus.fromRaw ack.header.status = .common .success := by
  unfold settle busyAnswer
  cases hack : decodeAck packet with
  | error error => exact ⟨.error (.genCp error), by simp [hack], by simp⟩
  | ok ack =>
    dsimp only
    by_cases hopcode : ack.header.opcode = opcode
    · by_cases hsuccess : GigeStatus.fromRaw ack.header.status = .common .success
      · refine ⟨.ok ack, by simp [hack, hopcode, hsuccess, GigeStatus.isSuccess,
          GigeStatus.isRetryable], ?_⟩
        rintro ack heq
        cases heq
        exact ⟨rfl, hopcode, hsuccess⟩
      · exact ⟨.error (.status (GigeStatus.fromRaw ack.header.status)),
          by simp [hack, hopcode, hsuccess, GigeStatus.isSuccess], by simp⟩
    · exact ⟨.error (.malformedAck (commandName opcode) "answers another command"),
        by simp [hack, hopcode], by simp⟩

theorem settle_unanswered (opcode : OpCode) (requestId : Nat) (encoded : List UInt8)
    (attempt : Nat) (rounds : List Attempt) (device : GigeDevice) {outcome : AckRecv}
    (hanswer : ∀ packet, outcome ≠ .received packet) :
    ∃ error, settle opcode requestId encoded attempt rounds device (some outcome) =
      if Consts.maxRetries ≤ attempt then (some (.error error), device)
      else retryLoop opcode requestId encoded (attempt + 1) device rounds := by
  cases outcome with
  | received packet => exact absurd rfl (hanswer packet)
  | io kind => exact ⟨.io kind, rfl⟩
  | timedOut => exact ⟨.timeout, rfl⟩

/-- A round ends the call or, while attempts are left, the command is sent again; it ends the
call with Ok only on an answer with SUCCESS. -/
theorem retryLoop_round (motive : Option (Except GigeError GenCpAck) × GigeDevice → Prop)
    (hfailed : round.sendError ≠ none → ∀ error, motive (some (.error error), device))
    (hrefreshed : round.sendError ≠ none → attempt < Consts.maxRetries →
      motive (retryLoop opcode requestId encoded (attempt + 1) device rounds))
    (hwaiting : round.sendError = none → ((device.terms requestId).wait round).ended = none →
      motive (none, (device.serve requestId encoded round).device))
    (hsettled : round.sendError = none → ∀ result,
      (∀ ack, result = .ok ack → ∃ packet,
        ((device.terms requestId).wait round).ended = some (.received packet) ∧
          decodeAck packet = .ok ack ∧ ack.header.opcode = opcode ∧
          GigeStatus.fromRaw ack.header.status = .common .success) →
      motive (some result, (device.serve requestId encoded round).device))
    (hbusy : round.sendError = none → attempt < Consts.maxRetries →
      motive (retryLoop opcode requestId encoded (attempt + 1)
        ((device.serve requestId encoded round).device.record .busy) rounds))
    (hunanswered : round.sendError = none → attempt < Consts.maxRetries →
      motive (retryLoop opcode requestId encoded (attempt + 1)
        (device.serve requestId encoded round).device rounds)) :
    motive (retryLoop opcode requestId encoded attempt device (round :: rounds)) := by
  cases hsend : round.sendError with
  | some kind =>
    have hunsent : round.sendError ≠ none := by simp [hsend]
    rw [retryLoop_unsent hsend]
    split
    · exact hfailed hunsent _
    · rename_i hroom
      cases round.refreshRoute kind with
      | some failure => exact hfailed hunsent _
      | none => exact hrefreshed hunsent (not_le.mp hroom)
  | none =>
    rw [retryLoop_sent hsend]
    cases hended : ((device.terms requestId).wait round).ended with
    | none => exact hwaiting hsend hended
    | some outcome =>
      by_cases hanswer : ∃ packet, outcome = .received packet
      · obtain ⟨packet, rfl⟩ := hanswer
        obtain ⟨result, hsettle, hok⟩ := settle_received opcode requestId encoded attempt rounds
          (device.serve requestId encoded round).device packet
        rw [hsettle]
        split
        · rename_i hretried
          exact hbusy hsend hretried.2
        · exact hsettled hsend _ fun ack hack => ⟨packet, hended, hok ack hack⟩
      · obtain ⟨error, hsettle⟩ := settle_unanswered opcode requestId encoded attempt rounds
          (device.serve requestId encoded round).device
          (fun packet heq => hanswer ⟨packet, heq⟩)
        rw [hsettle]
        split
        · exact hsettled hsend _ fun ack hack => by cases hack
        · rename_i hroom
          exact hunanswered hsend (not_le.mp hroom)

theorem serve_invariant (inv : GigeDevice → Prop)
    (hbeat : ∀ device time failure, inv device →
      inv (device.sendInflightKeepalive requestId time failure))
    (hpending : ∀ device, inv device → inv (device.record .pending))
    (device : GigeDevice) (round : Attempt) (hsent : inv (device.sendAt encoded round.sentAt)) :
    inv (device.serve requestId encoded round).device := by
  apply run_invariant (Session.turn (device.terms requestId)) (fun _ _ => True)
    (fun session => inv session.device)
  · rintro session turn h -
    rcases session.turn_cases (device.terms requestId) turn with heq | ⟨ending, heq, -⟩ |
      ⟨failure, heq⟩ | ⟨-, -, -, hdevice⟩
    · rwa [heq]
    · rwa [heq]
    · rw [heq]
      exact hbeat _ _ _ h
    · rw [hdevice]
      exact hpending _ h
  · exact hsent
  · exact guarded_of_forall _ _ _ _ fun _ _ _ => trivial

theorem retryLoop_invariant (inv : GigeDevice → Prop)
    (hsend : ∀ device time, inv device → inv (device.sendAt encoded time))
    (hbeat : ∀ device time failure, inv device →
      inv (device.sendInflightKeepalive requestId time failure))
    (hpending : ∀ device, inv device → inv (device.record .pending))
    (hbusy : ∀ device, inv device → inv (device.record .busy))
    (attempt : Nat) (device : GigeDevice) (rounds : List Attempt) (h : inv device) :
    inv (retryLoop opcode requestId encoded attempt device rounds).2 := by
  induction rounds generalizing attempt device with
  | nil => exact h
  | cons round rounds ih =>
    have hserved := serve_invariant inv hbeat hpending device round (hsend _ _ h)
    apply retryLoop_round fun called => inv called.2
    · exact fun _ _ => h
    · exact fun _ _ => ih _ _ h
    · exact fun _ _ => hserved
    · exact fun _ _ _ => hserved
    · exact fun _ _ => ih _ _ (hbusy _ hserved)
    · exact fun _ _ => ih _ _ hserved

theorem serve_terms (device : GigeDevice) (requestId : Nat) (encoded : List UInt8)
    (round : Attempt) :
    (device.serve requestId encoded round).device.terms requestId = device.terms requestId := by
  apply serve_invariant (fun served => served.terms requestId = device.terms requestId)
  · rintro served time failure h
    rw [GigeDevice.terms_sendInflightKeepalive, h]
  · rintro served h
    rw [GigeDevice.terms_record, h]
  · rfl

end VivaGenicam.Gvcp
