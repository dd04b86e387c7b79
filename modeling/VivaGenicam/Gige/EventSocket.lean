import Mathlib.Data.List.Destutter
import VivaGenicam.Gige.Events
import VivaGenicam.Library.Outbox

/-!
The socket that devices send their events to. Its receive thread acknowledges
each message and queues its events, but for a copy of the message before it; the
application takes them from the front. The runs below interleave any datagrams of
any senders with the application's calls.
-/

namespace VivaGenicam.Gvcp

open Library Library.Bytes

namespace Consts

def eventAck : Nat := 0x00C1
def eventdataAck : Nat := 0x00C3

end Consts

def MessageHeader.ackOpcode (header : MessageHeader) : Nat :=
  if header.command = Consts.eventdataCommand then Consts.eventdataAck else Consts.eventAck

/-- The acknowledgement of a command on the message channel. -/
def encodeEventAck (ackOpcode requestId : Nat) : List UInt8 :=
  encodeBE 2 0 ++ encodeBE 2 ackOpcode ++ encodeBE 2 0 ++ encodeBE 2 requestId

structure EventStats where
  messages : Nat := 0
  acknowledged : Nat := 0
  retransmissions : Nat := 0
  events : Nat := 0
  dropped : Nat := 0
  malformed : Nat := 0

/-- What tells a message of one sender from the one before it: the request id and
the bytes behind the header. -/
abbrev MessageKey := Nat × List UInt8

variable {Address : Type}

structure EventSocket (Address : Type) where
  capacity : Nat
  events : List (EventPacket Address) := []
  /-- The receive thread's failure, reported once after the queue drains. -/
  failed : Option String := none
  ended : Bool := false
  stats : EventStats := {}
  lastMessage : Address → Option MessageKey := fun _ => none

def EventSocket.bindWithCapacity (capacity : Nat) : EventSocket Address :=
  { capacity := max capacity 1 }

def EventSocket.stopped : String := "the GVCP message channel's receive thread has stopped"

def EventSocket.tryTake (socket : EventSocket Address) :
    Option (Except String (EventPacket Address)) × EventSocket Address :=
  match socket.events with
  | event :: events => (some (.ok event), { socket with events })
  | [] =>
    match socket.failed with
    | some err => (some (.error err), { socket with failed := none })
    | none => (if socket.ended then some (.error stopped) else none, socket)

variable [DecidableEq Address]

/-- One datagram, with its acknowledgement when it asks for one; `sent` tells
whether that could be sent. -/
def EventSocket.handleDatagram (socket : EventSocket Address) (src : Address) (data : List UInt8)
    (sent : Bool) : Option (List UInt8) × EventSocket Address :=
  match parseDatagram src data with
  | .error _ =>
    (none, { socket with stats.malformed := socket.stats.malformed + 1 })
  | .ok (header, events) =>
    let ack :=
      if header.ackRequired then some (encodeEventAck header.ackOpcode header.requestId) else none
    let stats := { socket.stats with
      messages := socket.stats.messages + 1
      acknowledged := socket.stats.acknowledged + if header.ackRequired && sent then 1 else 0 }
    let message := (header.requestId, data.drop headerSize)
    let lastMessage := Function.update socket.lastMessage src (some message)
    if socket.lastMessage src = some message then
      (ack, { socket with
        stats := { stats with retransmissions := stats.retransmissions + 1 }
        lastMessage })
    else if events = [] then (ack, { socket with stats, lastMessage })
    else
      let queue := socket.events ++ events
      let excess := queue.length - socket.capacity
      (ack, { socket with
        events := queue.drop excess
        stats := { stats with
          events := stats.events + events.length
          dropped := stats.dropped + excess }
        lastMessage })

inductive SocketOp (Address : Type) where
  | datagram (src : Address) (data : List UInt8) (sent : Bool)
  | take
  /-- The receive thread ends, with or without a failure of the socket. -/
  | stop (failure : Option String)

/-- A socket in use: what its callers were given, and what the devices were answered. -/
structure EventSession (Address : Type) where
  socket : EventSocket Address
  results : List (Except String (EventPacket Address)) := []
  acks : List (Address × List UInt8) := []

def EventSession.step (session : EventSession Address) : SocketOp Address → EventSession Address
  | .datagram src data sent =>
    -- The thread that has ended reads no more.
    if session.socket.ended then session
    else
      let (ack, socket) := session.socket.handleDatagram src data sent
      { session with socket, acks := session.acks ++ (ack.map (src, ·)).toList }
  | .take =>
    let (result, socket) := session.socket.tryTake
    { session with socket, results := session.results ++ result.toList }
  | .stop failure =>
    if session.socket.ended then session
    else
      { session with socket := { session.socket with
          failed := failure.or session.socket.failed
          ended := true } }

def EventSession.opened (capacity : Nat) : EventSession Address :=
  { socket := .bindWithCapacity capacity }

def EventSession.run (session : EventSession Address) (ops : List (SocketOp Address)) :
    EventSession Address :=
  ops.foldl EventSession.step session

structure EventMessage (Address : Type) where
  src : Address
  key : MessageKey
  ack : Option (List UInt8)
  events : List (EventPacket Address)

def EventMessage.read (src : Address) (data : List UInt8) : Option (EventMessage Address) :=
  match parseDatagram src data with
  | .error _ => none
  | .ok (header, events) => some {
      src
      key := (header.requestId, data.drop headerSize)
      ack := if header.ackRequired then
        some (encodeEventAck header.ackOpcode header.requestId) else none
      events }

/-- The messages that reach the receive thread before it ends. -/
def arrived : List (SocketOp Address) → List (EventMessage Address)
  | [] => []
  | .datagram src data _ :: ops => (EventMessage.read src data).toList ++ arrived ops
  | .take :: ops => arrived ops
  | .stop _ :: _ => []

/-- The datagrams that reach the receive thread and are no message. -/
def discarded : List (SocketOp Address) → Nat
  | [] => 0
  | .datagram src data _ :: ops =>
    (if (EventMessage.read src data).isNone then 1 else 0) + discarded ops
  | .take :: ops => discarded ops
  | .stop _ :: _ => 0

/-- The failure that ends a run's receive thread. -/
def ending : List (SocketOp Address) → Option String
  | [] => none
  | .stop failure :: _ => failure
  | _ :: ops => ending ops

/-- The last message of each sender. -/
def latest (last : Address → Option MessageKey) (messages : List (EventMessage Address)) :
    Address → Option MessageKey :=
  messages.foldl (fun last message => Function.update last message.src (some message.key)) last

/-- The messages that do not repeat the one their sender sent before. -/
def fresh (last : Address → Option MessageKey) :
    List (EventMessage Address) → List (EventMessage Address)
  | [] => []
  | message :: messages =>
    let rest := fresh (Function.update last message.src (some message.key)) messages
    if last message.src = some message.key then rest else message :: rest

/-- The events that a socket queues of the messages that arrive. -/
def accepted (messages : List (EventMessage Address)) : List (EventPacket Address) :=
  (fresh (fun _ => none) messages).flatMap EventMessage.events

omit [DecidableEq Address] in
theorem EventMessage.src_of_read {src : Address} {data : List UInt8}
    {message : EventMessage Address} (h : EventMessage.read src data = some message) :
    src = message.src := by
  unfold EventMessage.read at h
  split at h
  · cases h
  · cases h
    rfl

theorem fresh_append (last : Address → Option MessageKey)
    (messages more : List (EventMessage Address)) :
    fresh last (messages ++ more) = fresh last messages ++ fresh (latest last messages) more := by
  induction messages generalizing last with
  | nil => rfl
  | cons message messages ih =>
    simp only [List.cons_append, fresh, latest, List.foldl_cons, ih]
    split
    · rfl
    · rfl

theorem fresh_sublist (last : Address → Option MessageKey)
    (messages : List (EventMessage Address)) : (fresh last messages).Sublist messages := by
  induction messages generalizing last with
  | nil => apply List.Sublist.refl
  | cons message messages ih =>
    rw [fresh]
    split
    · exact (ih _).cons _
    · exact (ih _).cons_cons _

/-- The events of a message, but none of one that repeats the message before it. -/
def EventSocket.newEvents (socket : EventSocket Address) (message : EventMessage Address) :
    List (EventPacket Address) :=
  if socket.lastMessage message.src = some message.key then [] else message.events

/-- A socket that has heard one more message, and whether it sent its acknowledgement. -/
def EventSocket.hear (socket : EventSocket Address) (message : EventMessage Address)
    (sent : Bool) : EventSocket Address :=
  let queue := socket.events ++ socket.newEvents message
  let excess := queue.length - socket.capacity
  { socket with
    events := queue.drop excess
    stats := { socket.stats with
      messages := socket.stats.messages + 1
      acknowledged :=
        socket.stats.acknowledged + if message.ack.isSome && sent then 1 else 0
      retransmissions := socket.stats.retransmissions +
        if socket.lastMessage message.src = some message.key then 1 else 0
      events := socket.stats.events + (socket.newEvents message).length
      dropped := socket.stats.dropped + excess }
    lastMessage := Function.update socket.lastMessage message.src (some message.key) }

theorem handleDatagram_malformed (socket : EventSocket Address) (src : Address)
    (data : List UInt8) (sent : Bool) (h : EventMessage.read src data = none) :
    socket.handleDatagram src data sent =
      (none, { socket with stats.malformed := socket.stats.malformed + 1 }) := by
  unfold EventMessage.read at h
  unfold EventSocket.handleDatagram
  split at h
  · rfl
  · cases h

theorem handleDatagram_message (socket : EventSocket Address) (src : Address)
    (data : List UInt8) (sent : Bool) (message : EventMessage Address)
    (h : EventMessage.read src data = some message)
    (hbound : socket.events.length ≤ socket.capacity) :
    socket.handleDatagram src data sent = (message.ack, socket.hear message sent) := by
  unfold EventMessage.read at h
  unfold EventSocket.handleDatagram
  split at h
  · cases h
  · rename_i header events heq
    cases h
    have hfull : socket.events.length - socket.capacity = 0 := by omega
    have hack : (if header.ackRequired then
        some (encodeEventAck header.ackOpcode header.requestId) else none).isSome =
          header.ackRequired := by
      split
      · rename_i hask
        rw [hask]
        rfl
      · rename_i hask
        rw [Bool.not_eq_true] at hask
        rw [hask]
        rfl
    simp only [EventSocket.hear, EventSocket.newEvents, hack]
    split
    · simp [hfull]
    · split
      · rename_i hempty
        simp [hempty, hfull]
      · simp

namespace EventSession

/-- What the callers were given of the events that were accepted: of those that have
left the queue, the ones not dropped, and behind them errors. -/
structure Handed (accepted : List (EventPacket Address)) (outcome : Option (Option String))
    (session : EventSession Address) (box : Outbox (EventPacket Address)) (errors : List String)
    (count : Nat) : Prop where
  sound : box.Sound
  entered : box.entered = accepted
  queued : box.queued = session.socket.events
  dropped : (box.exits .dropped).length = session.socket.stats.dropped
  results : session.results = (box.exits .taken).map .ok ++ errors.map .error
  drained : errors ≠ [] → session.socket.events = []
  failed : session.socket.failed ≠ none → errors = []
  reported : errors ++ session.socket.failed.toList =
    outcome.join.toList ++ List.replicate count EventSocket.stopped
  live : outcome = none → count = 0

/-- What holds of a session whose receive thread heard `messages` and threw away
`garbage` datagrams; `outcome` says how it ended, once it has. -/
structure Accounts (capacity : Nat) (messages : List (EventMessage Address))
    (garbage : Nat) (outcome : Option (Option String)) (session : EventSession Address) : Prop where
  size : session.socket.capacity = capacity
  bounded : session.socket.events.length ≤ capacity
  last : session.socket.lastMessage = latest (fun _ => none) messages
  queue : ∃ box errors count, Handed (accepted messages) outcome session box errors count
  answers : session.acks =
    messages.filterMap fun message => message.ack.map (message.src, ·)
  heard : session.socket.stats.messages = messages.length
  events : session.socket.stats.events = (accepted messages).length
  repeats : session.socket.stats.retransmissions + (fresh (fun _ => none) messages).length =
    messages.length
  malformed : session.socket.stats.malformed = garbage
  ended : session.socket.ended = outcome.isSome

theorem accounts_opened (capacity : Nat) :
    (opened capacity : EventSession Address).Accounts (max capacity 1) [] 0 none where
  size := rfl
  bounded := Nat.zero_le _
  last := rfl
  queue := ⟨{}, [], 0, Outbox.sound_empty, rfl, rfl, rfl, rfl, fun _ => rfl, fun _ => rfl, rfl,
    fun _ => rfl⟩
  answers := rfl
  heard := rfl
  events := rfl
  repeats := rfl
  malformed := rfl
  ended := rfl

variable {capacity garbage : Nat} {messages : List (EventMessage Address)}
  {outcome : Option (Option String)} {session : EventSession Address}

theorem step_take (session : EventSession Address) :
    session.step .take = { session with
      socket := session.socket.tryTake.2
      results := session.results ++ session.socket.tryTake.1.toList } := rfl

theorem step_stop (session : EventSession Address) (failure : Option String) :
    session.step (.stop failure) = if session.socket.ended then session
      else { session with socket := { session.socket with
        failed := failure.or session.socket.failed
        ended := true } } := rfl

theorem step_datagram (session : EventSession Address) (src : Address)
    (data : List UInt8) (sent : Bool) :
    session.step (.datagram src data sent) = if session.socket.ended then session
      else { session with
        socket := (session.socket.handleDatagram src data sent).2
        acks := session.acks ++
          ((session.socket.handleDatagram src data sent).1.map (src, ·)).toList } := rfl

omit [DecidableEq Address] in
/-- Before the receive thread ends, no error is given and none is waiting. -/
theorem Handed.silent {accepted : List (EventPacket Address)} {box : Outbox (EventPacket Address)}
    {errors : List String} {count : Nat}
    (h : Handed accepted none session box errors count) :
    errors = [] ∧ session.socket.failed = none := by
  have hreported := h.reported
  rw [h.live rfl, Option.join_none, Option.toList_none, List.nil_append, List.replicate_zero,
    List.append_eq_nil_iff] at hreported
  exact ⟨hreported.1, Option.toList_eq_nil_iff.mp hreported.2⟩

theorem Accounts.take (h : session.Accounts capacity messages garbage outcome) :
    (session.step .take).Accounts capacity messages garbage outcome := by
  obtain ⟨box, errors, count, hqueue⟩ := h.queue
  cases hevents : session.socket.events with
  | cons event events =>
    have htake : session.socket.tryTake =
        (some (.ok event), { session.socket with events }) := by
      simp only [EventSocket.tryTake, hevents]
    have herr : errors = [] := by
      by_contra hne
      rw [hqueue.drained hne] at hevents
      cases hevents
    rw [step_take, htake]
    refine { h with
      bounded := ?_
      queue := ⟨box.leave .taken 1, errors, count, { hqueue with
        sound := hqueue.sound.leave _ _
        queued := ?_
        dropped := ?_
        results := ?_
        drained := fun hne => absurd herr hne }⟩ }
    · have := h.bounded
      rw [hevents, List.length_cons] at this
      show events.length ≤ capacity
      omega
    · simp only [Outbox.leave, hqueue.queued, hevents, List.drop_succ_cons, List.drop_zero]
    · rw [Outbox.exits_leave]
      simpa using hqueue.dropped
    · rw [Outbox.exits_leave, hqueue.results, herr, hqueue.queued, hevents]
      simp
  | nil =>
    cases hfailure : session.socket.failed with
    | some err =>
      have htake : session.socket.tryTake =
          (some (.error err), { session.socket with failed := none }) := by
        simp only [EventSocket.tryTake, hevents, hfailure]
      have herr : errors = [] := hqueue.failed (by rw [hfailure]; exact Option.some_ne_none _)
      have hreported := hqueue.reported
      rw [herr, hfailure] at hreported
      rw [step_take, htake]
      refine { h with
        queue := ⟨box, errors ++ [err], count, { hqueue with
          results := ?_
          drained := fun _ => hevents
          failed := fun hne => absurd rfl hne
          reported := ?_ }⟩ }
      · rw [hqueue.results]
        simp
      · rw [herr]
        simpa using hreported
    | none =>
      cases hended : session.socket.ended with
      | true =>
        have htake : session.socket.tryTake =
            (some (.error EventSocket.stopped), session.socket) := by
          simp only [EventSocket.tryTake, hevents, hfailure, hended, if_true]
        have hreported := hqueue.reported
        rw [hfailure, Option.toList_none, List.append_nil] at hreported
        rw [step_take, htake]
        refine { h with
          queue := ⟨box, errors ++ [EventSocket.stopped], count + 1, { hqueue with
            results := ?_
            drained := fun _ => hevents
            failed := fun hne => absurd hfailure hne
            reported := ?_
            live := ?_ }⟩ }
        · rw [hqueue.results]
          simp
        · rw [hfailure, Option.toList_none, List.append_nil, hreported, List.append_assoc,
            ← List.replicate_succ']
        · intro hlate
          rw [h.ended, hlate] at hended
          cases hended
      | false =>
        have htake : session.socket.tryTake = (none, session.socket) := by
          simp only [EventSocket.tryTake, hevents, hfailure, hended, if_neg Bool.false_ne_true]
        rw [step_take, htake, Option.toList_none, List.append_nil]
        exact h

theorem Accounts.stop {failure : Option String}
    (h : session.Accounts capacity messages garbage none) :
    (session.step (.stop failure)).Accounts capacity messages garbage (some failure) := by
  obtain ⟨box, errors, count, hqueue⟩ := h.queue
  obtain ⟨herr, hfail⟩ := hqueue.silent
  have hended : session.socket.ended = false := h.ended
  rw [step_stop, hended, if_neg Bool.false_ne_true]
  refine { h with
    queue := ⟨box, errors, 0, { hqueue with
      failed := fun _ => herr
      reported := ?_
      live := fun hlate => by cases hlate }⟩
    ended := rfl }
  rw [herr, hfail]
  simp

theorem Accounts.hear {message : EventMessage Address} {sent : Bool}
    (h : session.Accounts capacity messages garbage none) :
    ({ session with
        socket := session.socket.hear message sent
        acks := session.acks ++ (message.ack.map (message.src, ·)).toList } :
      EventSession Address).Accounts capacity (messages ++ [message]) garbage none := by
  obtain ⟨box, errors, count, hqueue⟩ := h.queue
  obtain ⟨herr, -⟩ := hqueue.silent
  have hfresh : fresh (fun _ => none) (messages ++ [message]) =
      fresh (fun _ => none) messages ++
        if session.socket.lastMessage message.src = some message.key then [] else [message] := by
    rw [fresh_append, ← h.last]
    rfl
  have haccepted : accepted (messages ++ [message]) =
      accepted messages ++ session.socket.newEvents message := by
    rw [accepted, accepted, hfresh, List.flatMap_append, EventSocket.newEvents]
    split
    · rfl
    · simp
  have hsize := h.size
  constructor
  · apply hsize
  · simp only [EventSocket.hear, List.length_drop, hsize]
    omega
  · rw [latest, List.foldl_append, EventSocket.hear, h.last]
    rfl
  · refine ⟨(box.enter (session.socket.newEvents message)).leave .dropped
        ((session.socket.events ++ session.socket.newEvents message).length - capacity),
      errors, count, { hqueue with
        sound := (hqueue.sound.enter _).leave _ _
        entered := ?_
        queued := ?_
        dropped := ?_
        results := ?_
        drained := fun hne => absurd herr hne }⟩
    · rw [haccepted, ← hqueue.entered]
      rfl
    · simp only [Outbox.leave, Outbox.enter, hqueue.queued, EventSocket.hear, hsize]
    · rw [Outbox.exits_leave, Outbox.exits_enter, if_pos rfl, List.length_append, hqueue.dropped,
        List.length_take, Outbox.enter, hqueue.queued, EventSocket.hear, hsize]
      congr 1
      apply Nat.min_eq_left
      apply Nat.sub_le
    · rw [Outbox.exits_leave, Outbox.exits_enter, if_neg Exit.noConfusion, List.append_nil]
      exact hqueue.results
  · rw [List.filterMap_append, ← h.answers]
    cases hack : message.ack with
    | none => simp [hack]
    | some ack => simp [hack]
  · rw [List.length_append, List.length_singleton, EventSocket.hear, h.heard]
  · rw [haccepted, List.length_append, EventSocket.hear, h.events]
  · have := h.repeats
    simp only [hfresh, EventSocket.hear, List.length_append, List.length_singleton]
    split
    · rw [List.length_nil]
      omega
    · rw [List.length_singleton]
      omega
  · exact h.malformed
  · exact h.ended

/-- Once the receive thread has ended, only the callers go on. -/
theorem Accounts.step_ended {failure : Option String}
    (h : session.Accounts capacity messages garbage (some failure)) (op : SocketOp Address) :
    (session.step op).Accounts capacity messages garbage (some failure) := by
  have hended : session.socket.ended = true := h.ended
  cases op with
  | datagram src data sent =>
    rw [step_datagram, if_pos hended]
    exact h
  | take => exact h.take
  | stop failure =>
    rw [step_stop, if_pos hended]
    exact h

theorem Accounts.run_ended {failure : Option String}
    (h : session.Accounts capacity messages garbage (some failure)) (ops : List (SocketOp Address)) :
    (session.run ops).Accounts capacity messages garbage (some failure) := by
  induction ops generalizing session with
  | nil => exact h
  | cons op ops ih =>
    apply ih
    exact h.step_ended op

theorem Accounts.run (h : session.Accounts capacity messages garbage none)
    (ops : List (SocketOp Address)) :
    ∃ outcome, (session.run ops).Accounts capacity (messages ++ arrived ops)
      (garbage + discarded ops) outcome ∧ outcome.join = ending ops := by
  induction ops generalizing session messages garbage with
  | nil =>
    rw [arrived, discarded, List.append_nil]
    exact ⟨none, h, rfl⟩
  | cons op ops ih =>
    have hended : ¬ session.socket.ended = true := by
      rw [h.ended]
      exact Bool.false_ne_true
    show ∃ outcome, ((session.step op).run ops).Accounts _ _ _ outcome ∧ _
    cases op with
    | datagram src data sent =>
      rw [step_datagram, if_neg hended]
      cases hread : EventMessage.read src data with
      | none =>
        rw [handleDatagram_malformed _ _ _ _ hread, arrived, discarded, hread, ← Nat.add_assoc]
        apply ih
        simp only [Option.map_none, Option.toList_none, List.append_nil]
        obtain ⟨box, errors, count, hqueue⟩ := h.queue
        exact { h with
          queue := ⟨box, errors, count, { hqueue with sound := hqueue.sound }⟩
          malformed := congrArg (· + 1) h.malformed }
      | some message =>
        have hsrc : src = message.src := EventMessage.src_of_read hread
        have hbound : session.socket.events.length ≤ session.socket.capacity := by
          rw [h.size]
          exact h.bounded
        rw [handleDatagram_message _ _ _ _ _ hread hbound, arrived, discarded, hread,
          Option.toList_some, ← List.append_assoc, hsrc, Option.isNone_some,
          if_neg Bool.false_ne_true, Nat.zero_add]
        apply ih
        exact h.hear
    | take => exact ih h.take
    | stop failure =>
      rw [arrived, discarded, List.append_nil]
      exact ⟨some failure, h.stop.run_ended ops, rfl⟩

theorem accounts_run (capacity : Nat) (ops : List (SocketOp Address)) :
    ∃ outcome, ((opened capacity).run ops).Accounts (max capacity 1) (arrived ops)
      (discarded ops) outcome ∧ outcome.join = ending ops := by
  have hopened : (opened capacity : EventSession Address).Accounts
      (max capacity 1) [] 0 none := accounts_opened capacity
  have h := hopened.run ops
  rw [List.nil_append, Nat.zero_add] at h
  exact h

end EventSession

/-- Whatever the senders, the order of their datagrams and the pace of the callers:
of the events accepted, a part at the front has left the queue, which never holds
more than its capacity. What the callers were given is in order, what they missed
is counted, and an error comes after all of it, the failure itself once. -/
theorem events_of_run (capacity : Nat) (ops : List (SocketOp Address)) :
    let session := (EventSession.opened capacity).run ops
    session.socket.events.length ≤ max capacity 1 ∧
    ∃ (gone taken : List (EventPacket Address)) (errors : List String) (count : Nat),
      accepted (arrived ops) = gone ++ session.socket.events ∧
      session.results = taken.map .ok ++ errors.map .error ∧
      taken.Sublist gone ∧ gone.length = taken.length + session.socket.stats.dropped ∧
      (errors ≠ [] → session.socket.events = []) ∧
      errors ++ session.socket.failed.toList =
        (ending ops).toList ++ List.replicate count EventSocket.stopped := by
  obtain ⟨outcome, h, hending⟩ := EventSession.accounts_run capacity ops
  obtain ⟨box, errors, count, hqueue⟩ := h.queue
  refine ⟨h.bounded, box.left.map Prod.fst, box.exits .taken, errors, count, ?_, hqueue.results,
    ?_, ?_, hqueue.drained, ?_⟩
  · rw [← hqueue.entered, ← hqueue.queued]
    exact hqueue.sound.symm
  · apply List.Sublist.map
    apply List.filter_sublist
  · have hlength := hqueue.sound.length_eq
    rw [← hqueue.sound, List.length_append, hqueue.dropped] at hlength
    omega
  · rw [← hending]
    exact hqueue.reported

/-- Every message of a run that asks is answered, a repeated one too, in the order
they came, and every datagram is counted once. -/
theorem answers_of_run (capacity : Nat) (ops : List (SocketOp Address)) :
    let session := (EventSession.opened capacity).run ops
    session.acks =
      ((arrived ops).filterMap fun message => message.ack.map (message.src, ·)) ∧
    session.socket.stats.messages = (arrived ops).length ∧
    session.socket.stats.malformed = discarded ops ∧
    session.socket.stats.retransmissions + (fresh (fun _ => none) (arrived ops)).length =
      session.socket.stats.messages ∧
    session.socket.stats.events = (accepted (arrived ops)).length := by
  obtain ⟨outcome, h, -⟩ := EventSession.accounts_run capacity ops
  refine ⟨h.answers, h.heard, h.malformed, ?_, h.events⟩
  rw [h.heard]
  exact h.repeats

theorem fresh_congr {last last' : Address → Option MessageKey}
    {messages : List (EventMessage Address)}
    (h : ∀ message ∈ messages, last message.src = last' message.src) :
    fresh last messages = fresh last' messages := by
  induction messages generalizing last last' with
  | nil => rfl
  | cons message messages ih =>
    have hrest : fresh (Function.update last message.src (some message.key)) messages =
        fresh (Function.update last' message.src (some message.key)) messages := by
      apply ih
      intro other hother
      rw [Function.update_apply, Function.update_apply, h other (List.mem_cons_of_mem _ hother)]
    simp only [fresh, hrest, h message List.mem_cons_self]

/-- The messages of other senders do not tell which of one sender's repeat. -/
theorem fresh_of_sender (last : Address → Option MessageKey)
    (messages : List (EventMessage Address)) (src : Address) :
    (fresh last messages).filter (·.src = src) = fresh last (messages.filter (·.src = src)) := by
  induction messages generalizing last with
  | nil => rfl
  | cons message messages ih =>
    by_cases hsrc : message.src = src
    · simp only [fresh, hsrc, List.filter_cons, decide_true, if_true]
      split
      · apply ih
      · rw [List.filter_cons, if_pos (decide_eq_true hsrc), ih]
    · have hother : fresh (Function.update last message.src (some message.key))
          (messages.filter (·.src = src)) = fresh last (messages.filter (·.src = src)) := by
        apply fresh_congr
        intro other hmem
        have hsame := of_decide_eq_true (List.mem_filter.mp hmem).2
        apply Function.update_of_ne
        rw [hsame]
        exact Ne.symm hsrc
      rw [List.filter_cons, if_neg (by simpa using hsrc), ← hother, ← ih]
      simp only [fresh]
      split
      · rfl
      · rw [List.filter_cons, if_neg (by simpa using hsrc)]

theorem cons_fresh_eq_destutter {last : Address → Option MessageKey}
    {message : EventMessage Address} {messages : List (EventMessage Address)}
    (hlast : last message.src = some message.key)
    (hsrc : ∀ other ∈ messages, other.src = message.src) :
    message :: fresh last messages =
      messages.destutter' (fun m other => m.key ≠ other.key) message := by
  induction messages generalizing last message with
  | nil => rfl
  | cons other messages ih =>
    have hother : other.src = message.src := hsrc other List.mem_cons_self
    have hrest : ∀ later ∈ messages, later.src = message.src := fun later hmem =>
      hsrc later (List.mem_cons_of_mem _ hmem)
    by_cases hkey : message.key = other.key
    · rw [List.destutter'_cons_neg _ (not_not_intro hkey), fresh, hother, hlast, hkey, if_pos rfl]
      apply ih
      · rw [Function.update_self, hkey]
      · exact hrest
    · rw [List.destutter'_cons_pos _ hkey, fresh, hother, hlast,
        if_neg fun heq => hkey (Option.some.inj heq)]
      congr 1
      apply ih
      · rw [hother, Function.update_self]
      · intro later hmem
        rw [hother]
        exact hrest later hmem

theorem fresh_eq_destutter {messages : List (EventMessage Address)} {src : Address}
    (hsrc : ∀ message ∈ messages, message.src = src) :
    fresh (fun _ => none) messages = messages.destutter (fun m other => m.key ≠ other.key) := by
  cases messages with
  | nil => rfl
  | cons message messages =>
    rw [fresh, if_neg (Option.some_ne_none _).symm, List.destutter_cons']
    apply cons_fresh_eq_destutter
    · apply Function.update_self
    · intro other hmem
      rw [hsrc other (List.mem_cons_of_mem _ hmem), hsrc message List.mem_cons_self]

omit [DecidableEq Address] in
theorem src_of_parseDatagram {src : Address} {data : List UInt8} {header : MessageHeader}
    {events : List (EventPacket Address)} (h : parseDatagram src data = .ok (header, events))
    {event : EventPacket Address} (hevent : event ∈ events) : event.src = src := by
  unfold parseDatagram at h
  cases hparse : MessageHeader.parse data with
  | error err =>
    rw [hparse] at h
    cases h
  | ok parsed =>
    rw [hparse] at h
    change (if _ then _ else _) = Except.ok _ at h
    split at h
    · cases h
    · split at h
      · cases h
        rw [List.mem_singleton.mp hevent]
        rfl
      · split at h
        · cases h
        · cases h
          obtain ⟨entry, -, heq⟩ := List.mem_map.mp hevent
          rw [← heq]
          rfl

omit [DecidableEq Address] in
theorem EventMessage.src_of_mem_events {src : Address} {data : List UInt8}
    {message : EventMessage Address} (h : EventMessage.read src data = some message)
    {event : EventPacket Address} (hevent : event ∈ message.events) :
    event.src = message.src := by
  unfold EventMessage.read at h
  split at h
  · cases h
  · rename_i header events hparse
    cases h
    exact src_of_parseDatagram hparse hevent

omit [DecidableEq Address] in
theorem src_of_arrived {ops : List (SocketOp Address)} {message : EventMessage Address}
    (h : message ∈ arrived ops) {event : EventPacket Address} (hevent : event ∈ message.events) :
    event.src = message.src := by
  induction ops with
  | nil => cases h
  | cons op ops ih =>
    cases op with
    | datagram src data sent =>
      rw [arrived, List.mem_append, Option.mem_toList] at h
      rcases h with hread | hrest
      · exact EventMessage.src_of_mem_events hread hevent
      · exact ih hrest
    | take => exact ih h
    | stop failure => cases h

theorem filter_flatMap_events {messages : List (EventMessage Address)}
    (h : ∀ message ∈ messages, ∀ event ∈ message.events, event.src = message.src) (src : Address) :
    (messages.flatMap EventMessage.events).filter (·.src = src) =
      (messages.filter (·.src = src)).flatMap EventMessage.events := by
  induction messages with
  | nil => rfl
  | cons message messages ih =>
    have hrest := ih fun other hmem => h other (List.mem_cons_of_mem _ hmem)
    have hown := h message List.mem_cons_self
    rw [List.flatMap_cons, List.filter_append, hrest, List.filter_cons]
    by_cases hsrc : message.src = src
    · rw [if_pos (decide_eq_true hsrc), List.flatMap_cons]
      congr 1
      apply List.filter_eq_self.mpr
      intro event hmem
      rw [hown event hmem]
      exact decide_eq_true hsrc
    · rw [if_neg (by simpa using hsrc)]
      apply List.append_left_eq_self.mpr
      apply List.filter_eq_nil_iff.mpr
      intro event hmem
      rw [hown event hmem]
      simpa using hsrc

/-- Of each sender the socket accepts the events of its messages in the order they
came, but for those whose request id and bytes are those of the message before: the
datagrams of other senders in between change nothing. -/
theorem accepted_of_sender (ops : List (SocketOp Address)) (src : Address) :
    (accepted (arrived ops)).filter (·.src = src) =
      (((arrived ops).filter (·.src = src)).destutter
        (fun message other => message.key ≠ other.key)).flatMap EventMessage.events := by
  have hown : ∀ message ∈ fresh (fun _ => none) (arrived ops), ∀ event ∈ message.events,
      event.src = message.src := by
    intro message hmem event hevent
    exact src_of_arrived ((fresh_sublist _ _).subset hmem) hevent
  rw [accepted, filter_flatMap_events hown, fresh_of_sender]
  congr 1
  apply fresh_eq_destutter
  intro message hmem
  exact of_decide_eq_true (List.mem_filter.mp hmem).2

end VivaGenicam.Gvcp
