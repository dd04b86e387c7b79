import VivaGenicam.Gige.Gvcp

/-!
One GVCP transaction: sending a command, waiting for its acknowledgement on a
socket that also carries keepalive replies and late answers, granting the time
a PENDING_ACK asks for, and sending the command again. The network is a script:
for each attempt, how its send ended and what the receive loop's `select` then
woke up for, and when. A script that ends leaves the call waiting.

The journals `issues` and `wire` are not the program's. They record the request
ids the device hands out and what a transaction sends and hears, newest first.
-/

namespace VivaGenicam.Gvcp

open Library.Bytes

/-- A request id handed out: to a command, or to a keepalive sent while the
transaction `active` waits. `position` counts the ids taken before it. -/
structure Issue where
  position : Nat
  requestId : Nat
  active : Option Nat
deriving DecidableEq, Repr

/-- What crosses the wire for a transaction; a keepalive names the transaction
it is sent for. -/
inductive Record where
  | command (datagram : List UInt8)
  | keepalive (active : Nat) (datagram : List UInt8)
  | pending
  | busy
deriving DecidableEq, Repr

structure GigeDevice where
  controlTimeout : Nat
  inflightKeepalivePeriod : Option Nat
  lastCommandSent : Nat
  requestId : Nat
  memoryAccessOnly : Bool
  taken : Nat
  issues : List Issue
  wire : List Record
deriving DecidableEq, Repr

/-- What the receive loop's `select` wakes up for. A wake for a deadline that
has not passed, or for a keepalive that is not due, changes nothing. -/
inductive Wake where
  | deadline
  | heartbeat (failure : Option IoErrorKind)
  | datagram (bytes : List UInt8)
  | error (kind : IoErrorKind)
deriving DecidableEq, Repr

structure Turn where
  time : Nat
  wake : Wake
deriving DecidableEq, Repr

/-- One round of the retry loop: the result of its send, of the reconnection a
failed send may call for, and what the wait after a good send wakes up for. -/
structure Attempt where
  sendError : Option IoErrorKind
  reconnectError : Option IoErrorKind
  sentAt : Nat
  turns : List Turn
deriving DecidableEq, Repr

inductive AckRecv where
  | received (packet : List UInt8)
  | io (kind : IoErrorKind)
  | timedOut
deriving DecidableEq, Repr

/-- How and when a receive loop ended, and what it left of the script; no outcome,
and no time of its own, while it is still waiting. -/
structure Received where
  outcome : Option AckRecv
  device : GigeDevice
  time : Nat
  rest : List Turn
deriving DecidableEq, Repr

/-- The size of the receive buffer; what is longer is cut off. -/
def bufferSize : Nat := headerSize + Consts.gencpMaxBlock + Consts.gencpWriteOverhead

namespace GigeDevice

def record (device : GigeDevice) (entry : Record) : GigeDevice :=
  { device with wire := entry :: device.wire }

def nextRequestId (device : GigeDevice) : Nat × GigeDevice :=
  let id := device.requestId
  let next := (device.requestId + 1) % 65536
  (id, { device with
    requestId := if next = 0 then 1 else next
    taken := device.taken + 1 })

def issue (device : GigeDevice) (requestId : Nat) (active : Option Nat) : GigeDevice :=
  { device with
    issues := ⟨device.taken - 1, requestId, active⟩ :: device.issues }

def keepaliveDatagram (device : GigeDevice) (requestId : Nat) : List UInt8 :=
  let payload := encodeBE 4 Consts.controlChannelPrivilege ++
    if device.memoryAccessOnly then encodeBE 2 0 ++ encodeBE 2 4 else []
  let opcode := if device.memoryAccessOnly then OpCode.readMem else OpCode.readRegister
  GvcpRequestHeader.encode
    { flags := ⟨true, false, false⟩, command := opcode.commandCode,
      length := payload.length % 65536, requestId := requestId } payload

/-- The id of the next keepalive: the one after the active transaction's, where
the counter has come round to that. -/
def keepaliveId (device : GigeDevice) (activeRequestId : Nat) : Nat × GigeDevice :=
  let first := device.nextRequestId
  if first.1 = activeRequestId then first.2.nextRequestId else first

def sendInflightKeepalive (device : GigeDevice) (activeRequestId time : Nat)
    (failure : Option IoErrorKind) : GigeDevice :=
  let next := device.keepaliveId activeRequestId
  let issued := next.2.issue next.1 (some activeRequestId)
  match failure with
  | some _ => { issued with lastCommandSent := time }
  | none =>
    { issued.record (.keepalive activeRequestId (issued.keepaliveDatagram next.1)) with
      lastCommandSent := time }

def heartbeatDue (device : GigeDevice) (time : Nat) : Bool :=
  match device.inflightKeepalivePeriod with
  | none => false
  | some period => decide (device.lastCommandSent + period ≤ time)

end GigeDevice

/-- The request id a datagram answers, where it is long enough to have one. -/
def ackId (packet : List UInt8) : Option Nat :=
  if packet.length < headerSize then none else some (fieldBE packet 6 2)

/-- Wait until `deadline` for the datagram that answers `requestId`, draining
those that answer another id and sending the keepalives that fall due. -/
def recvForRequest (requestId deadline : Nat) :
    (tolerateIcmp : Bool) → GigeDevice → (time : Nat) → List Turn → Received
  | _, device, time, [] => ⟨none, device, time, []⟩
  | tolerateIcmp, device, time, turn :: rest =>
    match turn.wake with
    | .deadline =>
      if deadline ≤ turn.time then ⟨some .timedOut, device, turn.time, rest⟩
      else recvForRequest requestId deadline tolerateIcmp device time rest
    | .heartbeat failure =>
      if device.heartbeatDue turn.time then
        recvForRequest requestId deadline true
          (device.sendInflightKeepalive requestId turn.time failure) time rest
      else recvForRequest requestId deadline tolerateIcmp device time rest
    | .error kind =>
      if tolerateIcmp && isIcmpError kind then
        recvForRequest requestId deadline tolerateIcmp device time rest
      else ⟨some (.io kind), device, turn.time, rest⟩
    | .datagram bytes =>
      match ackId (bytes.take bufferSize) with
      | some id =>
        if id ≠ requestId then
          recvForRequest requestId deadline tolerateIcmp device time rest
        else ⟨some (.received (bytes.take bufferSize)), device, turn.time, rest⟩
      | none => ⟨some (.received (bytes.take bufferSize)), device, turn.time, rest⟩

/-- The wait a PENDING_ACK that asks for `requested` is granted. -/
def grantedWait (controlTimeout requested : Nat) : Nat :=
  max (max Consts.controlTimeout (min requested Consts.maxPendingAckWait)) controlTimeout

/-- Receive one acknowledgement, extending the wait for each PENDING_ACK until
`grants` of them have been honoured. -/
def recvAbsorbingPending (requestId : Nat) :
    (grants wait : Nat) → (committed : Bool) → GigeDevice → (time : Nat) → List Turn → Received
  | grants, wait, committed, device, time, turns =>
    let received := recvForRequest requestId (time + wait) committed device time turns
    match received.outcome with
    | some (.received packet) =>
      match parsePendingAck packet with
      | none => received
      | some (_, requested) =>
        let asked := received.device.record .pending
        match grants with
        | 0 => { received with outcome := some .timedOut, device := asked }
        | grants + 1 =>
          recvAbsorbingPending requestId grants (grantedWait asked.controlTimeout requested)
            true asked received.time received.rest
    | _ => received

/-- A failed send is retried on a refreshed route where the address became
unavailable; refreshing it may fail too. -/
def Attempt.refreshRoute (attempt : Attempt) (kind : IoErrorKind) : Option IoErrorKind :=
  if kind = .addrNotAvailable then attempt.reconnectError else none

/-- The retry loop from its `attempt`-th round on. -/
def retryLoop (opcode : OpCode) (requestId : Nat) (encoded : List UInt8) :
    (attempt : Nat) → GigeDevice → List Attempt → Option (Except GigeError GenCpAck) × GigeDevice
  | _, device, [] => (none, device)
  | attempt, device, round :: rounds =>
    match round.sendError with
    | some kind =>
      if Consts.maxRetries ≤ attempt then (some (.error (.io kind)), device)
      else
        match round.refreshRoute kind with
        | some failure => (some (.error (.io failure)), device)
        | none => retryLoop opcode requestId encoded (attempt + 1) device rounds
    | none =>
      let sent := { device.record (.command encoded) with lastCommandSent := round.sentAt }
      let received := recvAbsorbingPending requestId Consts.maxPendingAcks sent.controlTimeout
        false sent round.sentAt round.turns
      match received.outcome with
      | none => (none, received.device)
      | some (.received packet) =>
        match decodeAck packet with
        | .error error => (some (.error (.genCp error)), received.device)
        | .ok ack =>
          if ack.header.opcode ≠ opcode then
            (some (.error (.malformedAck (commandName opcode) "answers another command")),
              received.device)
          else
            let status := GigeStatus.fromRaw ack.header.status
            if status.isSuccess then (some (.ok ack), received.device)
            else if status.isRetryable && decide (attempt < Consts.maxRetries) then
              retryLoop opcode requestId encoded (attempt + 1) (received.device.record .busy)
                rounds
            else (some (.error (.status status)), received.device)
      | some (.io kind) =>
        if Consts.maxRetries ≤ attempt then (some (.error (.io kind)), received.device)
        else retryLoop opcode requestId encoded (attempt + 1) received.device rounds
      | some .timedOut =>
        if Consts.maxRetries ≤ attempt then (some (.error .timeout), received.device)
        else retryLoop opcode requestId encoded (attempt + 1) received.device rounds

/-- A command's datagram under a request id. -/
def commandDatagram (opcode : OpCode) (payload : List UInt8) (requestId : Nat) : List UInt8 :=
  GvcpRequestHeader.encode
    { flags := ⟨true, false, false⟩, command := opcode.commandCode,
      length := payload.length % 65536, requestId := requestId } payload

def transactWithRetry (opcode : OpCode) (payload : List UInt8) (device : GigeDevice)
    (rounds : List Attempt) : Option (Except GigeError GenCpAck) × GigeDevice :=
  let next := device.nextRequestId
  retryLoop opcode next.1 (commandDatagram opcode payload next.1) 1 (next.2.issue next.1 none)
    rounds

end VivaGenicam.Gvcp
