import VivaGenicam.Gige.Gvcp
import VivaGenicam.Library.Firsts

/-!
The GVCP action command: one datagram sent, by broadcast as a rule, and the
replies of however many cameras collected until the time is up. What the socket
receives meanwhile is given.
-/

namespace VivaGenicam.Gvcp

open Library.Bytes Library.Firsts

def Consts.gvcpPort : Nat := 3956
def Consts.actionCommand : Nat := 0x0100
def Consts.actionAck : Nat := 0x0101

inductive IpAddr where
  | v4 (address : UInt32)
  | v6 (address : BitVec 128)
deriving DecidableEq, Repr

structure SocketAddr where
  ip : IpAddr
  port : Nat
deriving DecidableEq, Repr

inductive IoErrorCause where
  | invalidData (message : String)
  | invalidInput (message : String)
  | socket (kind : IoErrorKind)
deriving DecidableEq, Repr

structure ActionParams where
  deviceKey : Nat
  groupKey : Nat
  groupMask : Nat
  scheduledTime : Option Nat
deriving DecidableEq, Repr

/-- A device's error answer to an action command. -/
structure ActionRefusal where
  source : IpAddr
  status : GigeStatus
deriving DecidableEq, Repr

structure AckSummary where
  sent : Nat
  acks : Nat
  refusals : List ActionRefusal
deriving DecidableEq, Repr

structure GvcpAckHeader where
  status : GigeStatus
  command : Nat
  length : Nat
  requestId : Nat
deriving DecidableEq, Repr

/-- An unscheduled command stops before the action time. -/
def encodePayload (params : ActionParams) : List UInt8 :=
  encodeBE 4 params.deviceKey ++ encodeBE 4 params.groupKey ++ encodeBE 4 params.groupMask ++
    match params.scheduledTime with
    | some ticks => encodeBE 8 ticks
    | none => []

def parseAck (buf : List UInt8) : Except IoErrorCause GvcpAckHeader :=
  if buf.length < 8 then .error (.invalidData "acknowledgement shorter than GVCP header")
  else
    .ok {
      status := .fromRaw (fieldBE buf 0 2)
      command := fieldBE buf 2 2
      length := fieldBE buf 4 2
      requestId := fieldBE buf 6 2 }

def isBroadcast (addr : SocketAddr) : Bool := addr.ip = .v4 0xFFFFFFFF

def actionPacket (destination : SocketAddr) (params : ActionParams) (requestId : Nat) :
    List UInt8 :=
  let payload := encodePayload params
  GvcpRequestHeader.encode {
    flags := {
      ackRequired := true
      broadcast := isBroadcast destination
      scheduledAction := params.scheduledTime.isSome }
    command := Consts.actionCommand
    length := payload.length
    requestId := requestId } payload

structure Datagram where
  bytes : List UInt8
  src : SocketAddr
deriving DecidableEq, Repr

inductive Reception where
  | datagram (datagram : Datagram)
  | failed (kind : IoErrorKind)
deriving DecidableEq, Repr

/-- What the loop counts, with the sources whose success was seen. -/
structure Collected where
  seen : List IpAddr
  summary : AckSummary
deriving DecidableEq, Repr

/-- One datagram, of which the buffer holds 512 bytes. -/
def receiveAck (requestId : Nat) (state : Collected) (datagram : Datagram) :
    Except IoErrorCause Collected :=
  match parseAck (datagram.bytes.take 512) with
  | .error error => .error error
  | .ok header =>
    .ok (if header.requestId ≠ requestId then state
      -- A refusal may come back under the command's own opcode.
      else if header.command ≠ Consts.actionAck ∧ header.command ≠ Consts.actionCommand then state
      else if ¬ header.status.isSuccess then
        if state.summary.refusals.any fun refusal => refusal.source = datagram.src.ip then state
        else
          { state with summary := { state.summary with
              refusals := state.summary.refusals ++ [⟨datagram.src.ip, header.status⟩] } }
      else if header.command = Consts.actionAck ∧ datagram.src.ip ∉ state.seen then
        { seen := state.seen ++ [datagram.src.ip]
          summary := { state.summary with acks := state.summary.acks + 1 } }
      else state)

/-- The loop over what is received until the time is up. -/
def collectAcks (requestId : Nat) : Collected → List Reception →
    Except IoErrorCause AckSummary
  | state, [] => .ok state.summary
  | state, .failed _ :: _ => .ok state.summary
  | state, .datagram datagram :: rest =>
    match receiveAck requestId state datagram with
    | .error error => .error error
    | .ok next => collectAcks requestId next rest

/-- The socket's part in one command: how opening it and sending went, and what it
receives while the command waits. -/
structure ActionSocket where
  sent : Except IoErrorKind Unit
  received : List Reception

/-- Send a GVCP action command and collect acknowledgements. -/
def sendAction (broadcast : SocketAddr) (params : ActionParams) (timeoutMs requestId : Nat)
    (socket : List UInt8 → SocketAddr → ActionSocket) : Except IoErrorCause AckSummary :=
  let destination : SocketAddr := ⟨broadcast.ip, Consts.gvcpPort⟩
  match destination.ip with
  | .v6 _ => .error (.invalidInput "IPv6 destinations are not supported for actions")
  | .v4 _ =>
    let use := socket (actionPacket destination params requestId) destination
    match use.sent with
    | .error kind => .error (.socket kind)
    | .ok () =>
      if timeoutMs = 0 then .ok ⟨1, 0, []⟩
      else collectAcks requestId ⟨[], ⟨1, 0, []⟩⟩ use.received

/-- The datagram carries a GVCP header. -/
abbrev Datagram.Whole (datagram : Datagram) : Prop := 8 ≤ datagram.bytes.length

def acknowledges (requestId : Nat) (datagram : Datagram) : Bool :=
  fieldBE datagram.bytes 6 2 = requestId ∧ fieldBE datagram.bytes 2 2 = Consts.actionAck ∧
    (GigeStatus.fromRaw (fieldBE datagram.bytes 0 2)).isSuccess

/-- A refusal of the request, under its acknowledgement's opcode or its own. -/
def refusal (requestId : Nat) (datagram : Datagram) : Option ActionRefusal :=
  if fieldBE datagram.bytes 6 2 = requestId ∧
      (fieldBE datagram.bytes 2 2 = Consts.actionAck ∨
        fieldBE datagram.bytes 2 2 = Consts.actionCommand) ∧
      ¬ (GigeStatus.fromRaw (fieldBE datagram.bytes 0 2)).isSuccess then
    some ⟨datagram.src.ip, .fromRaw (fieldBE datagram.bytes 0 2)⟩
  else none

/-- The sources of the request's successes, in order of arrival. -/
def successes (requestId : Nat) (datagrams : List Datagram) : List IpAddr :=
  (datagrams.filter (acknowledges requestId)).map fun datagram => datagram.src.ip

/-- The first refusal of the request by each source. -/
def firstRefusal (requestId : Nat) (datagrams : List Datagram) (source : IpAddr) :
    Option ActionRefusal :=
  (datagrams.filterMap (refusal requestId)).find? fun refusal => refusal.source = source

/-- What the loop has after these datagrams. -/
def collectedFrom (requestId : Nat) (datagrams : List Datagram) : Collected :=
  { seen := firsts id (successes requestId datagrams)
    summary := {
      sent := 1
      acks := (firsts id (successes requestId datagrams)).length
      refusals := firsts ActionRefusal.source (datagrams.filterMap (refusal requestId)) } }

theorem parseAck_take {bytes : List UInt8} (h : 8 ≤ bytes.length) :
    parseAck (bytes.take 512) = .ok {
      status := .fromRaw (fieldBE bytes 0 2)
      command := fieldBE bytes 2 2
      length := fieldBE bytes 4 2
      requestId := fieldBE bytes 6 2 } := by
  have hfield : ∀ offset, offset ≤ 510 →
      fieldBE (bytes.take 512) offset 2 = fieldBE bytes offset 2 := by
    intro offset hoffset
    rw [fieldBE, fieldBE, List.drop_take, List.take_take, Nat.min_eq_left (by omega)]
  rw [parseAck, if_neg (by rw [List.length_take]; omega), hfield 0 (by decide),
    hfield 2 (by decide), hfield 4 (by decide), hfield 6 (by decide)]

theorem parseAck_short {bytes : List UInt8} (h : ¬ 8 ≤ bytes.length) :
    parseAck (bytes.take 512) =
      .error (.invalidData "acknowledgement shorter than GVCP header") := by
  rw [parseAck, if_pos (by rw [List.length_take]; omega)]

variable {datagrams : List Datagram}

section Collecting

variable (requestId : Nat)

theorem successes_concat (datagrams : List Datagram) (datagram : Datagram) :
    successes requestId (datagrams ++ [datagram]) =
      if acknowledges requestId datagram then successes requestId datagrams ++ [datagram.src.ip]
      else successes requestId datagrams := by
  unfold successes
  rw [List.filter_append, List.map_append, List.filter_singleton]
  split <;> simp [*]

variable {datagram : Datagram}

theorem unrelated_step (datagrams : List Datagram) (hnot : acknowledges requestId datagram = false)
    (hnone : refusal requestId datagram = none) :
    collectedFrom requestId (datagrams ++ [datagram]) = collectedFrom requestId datagrams := by
  rw [collectedFrom, collectedFrom, successes_concat, hnot, List.filterMap_append,
    List.filterMap_cons_none hnone, List.filterMap_nil, List.append_nil]
  rfl

theorem acknowledged_step (datagrams : List Datagram)
    (hyes : acknowledges requestId datagram = true) (hnone : refusal requestId datagram = none)
    (hack : fieldBE datagram.bytes 2 2 = Consts.actionAck) :
    (if fieldBE datagram.bytes 2 2 = Consts.actionAck ∧
        datagram.src.ip ∉ (collectedFrom requestId datagrams).seen then
      { seen := (collectedFrom requestId datagrams).seen ++ [datagram.src.ip]
        summary := { (collectedFrom requestId datagrams).summary with
          acks := (collectedFrom requestId datagrams).summary.acks + 1 } }
      else collectedFrom requestId datagrams) =
      collectedFrom requestId (datagrams ++ [datagram]) := by
  have hafter : collectedFrom requestId (datagrams ++ [datagram]) =
      { seen := keep id (firsts id (successes requestId datagrams)) datagram.src.ip
        summary := { (collectedFrom requestId datagrams).summary with
          acks :=
            (keep id (firsts id (successes requestId datagrams)) datagram.src.ip).length } } := by
    rw [collectedFrom, successes_concat, hyes, List.filterMap_append,
      List.filterMap_cons_none hnone, List.filterMap_nil, List.append_nil, if_pos rfl,
      firsts_concat]
    rfl
  rw [hafter, keep]
  by_cases hseen : datagram.src.ip ∈ firsts id (successes requestId datagrams)
  · rw [if_neg fun hnew => hnew.2 hseen, if_pos (by simpa using hseen)]
    rfl
  · rw [if_pos ⟨hack, hseen⟩, if_neg (by simpa using hseen), List.length_append]
    rfl

theorem refused_step (datagrams : List Datagram) (hnot : acknowledges requestId datagram = false)
    (hrefused : refusal requestId datagram =
      some ⟨datagram.src.ip, .fromRaw (fieldBE datagram.bytes 0 2)⟩) :
    (if ((collectedFrom requestId datagrams).summary.refusals.any fun refusal =>
        refusal.source = datagram.src.ip) then collectedFrom requestId datagrams
      else
        { collectedFrom requestId datagrams with
          summary := { (collectedFrom requestId datagrams).summary with
            refusals := (collectedFrom requestId datagrams).summary.refusals ++
              [⟨datagram.src.ip, .fromRaw (fieldBE datagram.bytes 0 2)⟩] } }) =
      collectedFrom requestId (datagrams ++ [datagram]) := by
  have hafter : collectedFrom requestId (datagrams ++ [datagram]) =
      { collectedFrom requestId datagrams with
        summary := { (collectedFrom requestId datagrams).summary with
          refusals := keep ActionRefusal.source (collectedFrom requestId datagrams).summary.refusals
            ⟨datagram.src.ip, .fromRaw (fieldBE datagram.bytes 0 2)⟩ } } := by
    rw [collectedFrom, successes_concat, hnot, List.filterMap_append,
      List.filterMap_cons_some hrefused, List.filterMap_nil, firsts_concat]
    rfl
  rw [hafter, keep]
  split <;> rfl

theorem receiveAck_collectedFrom (datagrams : List Datagram) (hwhole : datagram.Whole) :
    receiveAck requestId (collectedFrom requestId datagrams) datagram =
      .ok (collectedFrom requestId (datagrams ++ [datagram])) := by
  rw [receiveAck, parseAck_take hwhole]
  dsimp only
  congr 1
  by_cases hid : fieldBE datagram.bytes 6 2 = requestId
  · rw [if_neg (not_not_intro hid)]
    by_cases hsuccess : (GigeStatus.fromRaw (fieldBE datagram.bytes 0 2)).isSuccess = true
    · have hnone : refusal requestId datagram = none := by simp [refusal, hsuccess]
      rw [if_neg (not_not_intro hsuccess)]
      by_cases hack : fieldBE datagram.bytes 2 2 = Consts.actionAck
      · rw [if_neg fun hother => hother.1 hack]
        exact acknowledged_step requestId datagrams
          (by simp [acknowledges, hid, hack, hsuccess]) hnone hack
      · have hnot : acknowledges requestId datagram = false := by simp [acknowledges, hack]
        have hother : ¬ (fieldBE datagram.bytes 2 2 = Consts.actionAck ∧
            datagram.src.ip ∉ (collectedFrom requestId datagrams).seen) :=
          fun hcounted => hack hcounted.1
        rw [unrelated_step requestId datagrams hnot hnone, if_neg hother, ite_self]
    · have hnot : acknowledges requestId datagram = false := by simp [acknowledges, hsuccess]
      rw [if_pos hsuccess]
      by_cases hopcode : fieldBE datagram.bytes 2 2 ≠ Consts.actionAck ∧
          fieldBE datagram.bytes 2 2 ≠ Consts.actionCommand
      · have hnone : refusal requestId datagram = none := by simp [refusal, hopcode]
        rw [if_pos hopcode, unrelated_step requestId datagrams hnot hnone]
      · rw [if_neg hopcode]
        refine refused_step requestId datagrams hnot ?_
        rw [refusal, if_pos ⟨hid, by simpa only [ne_eq, not_and_or, not_not] using hopcode,
          hsuccess⟩]
  · have hnot : acknowledges requestId datagram = false := by simp [acknowledges, hid]
    have hnone : refusal requestId datagram = none := by simp [refusal, hid]
    rw [if_pos hid, unrelated_step requestId datagrams hnot hnone]

theorem collectAcks_whole (before : List Datagram)
    (hwhole : ∀ datagram ∈ datagrams, datagram.Whole) :
    collectAcks requestId (collectedFrom requestId before) (datagrams.map .datagram) =
      .ok (collectedFrom requestId (before ++ datagrams)).summary := by
  induction datagrams generalizing before with
  | nil => rw [List.append_nil, List.map_nil, collectAcks]
  | cons datagram rest ih =>
    rw [List.map_cons, collectAcks,
      receiveAck_collectedFrom requestId before (hwhole datagram (by simp))]
    dsimp only
    rw [ih (before ++ [datagram]) fun other hmem => hwhole other (by simp [hmem]),
      List.append_assoc, List.singleton_append]

theorem collectAcks_short (state : Collected) (hshort : ∃ datagram ∈ datagrams, ¬ datagram.Whole) :
    collectAcks requestId state (datagrams.map .datagram) =
      .error (.invalidData "acknowledgement shorter than GVCP header") := by
  induction datagrams generalizing state with
  | nil =>
    obtain ⟨datagram, hmem, -⟩ := hshort
    cases hmem
  | cons datagram rest ih =>
    rw [List.map_cons, collectAcks, receiveAck]
    by_cases hwhole : datagram.Whole
    · rw [parseAck_take hwhole]
      obtain ⟨other, hmem, hother⟩ := hshort
      rcases List.mem_cons.mp hmem with rfl | hmem
      · exact absurd hwhole hother
      · exact ih _ ⟨other, hmem, hother⟩
    · rw [parseAck_short hwhole]

end Collecting

/-- As many acknowledgements as there are sources that succeeded, and each source's
first refusal, once. -/
structure CountedOnce (requestId : Nat) (datagrams : List Datagram) (summary : AckSummary) :
    Prop where
  acks : summary.acks = (successes requestId datagrams).toFinset.card
  nodup : (summary.refusals.map ActionRefusal.source).Nodup
  first : ∀ source, (summary.refusals.find? fun refusal => refusal.source = source) =
    firstRefusal requestId datagrams source

/-- The command's outcome when these datagrams are received while it waits. -/
def outcome (address : UInt32) (port : Nat) (params : ActionParams) (timeoutMs requestId : Nat)
    (datagrams : List Datagram) : Except IoErrorCause AckSummary :=
  sendAction ⟨.v4 address, port⟩ params timeoutMs requestId
    fun _ _ => ⟨.ok (), datagrams.map .datagram⟩

/-- The replies are counted once per camera, whatever else is received and in whichever
order, but for which of a source's refusals is its first. -/
def CountsReplies (address : UInt32) (port : Nat) (params : ActionParams)
    (timeoutMs requestId : Nat) (datagrams : List Datagram) : Prop :=
  ∃ summary, outcome address port params timeoutMs requestId datagrams = .ok summary ∧
    CountedOnce requestId datagrams summary ∧
    ∀ reordered : List Datagram, reordered.Perm datagrams →
      (∀ source, firstRefusal requestId reordered source =
        firstRefusal requestId datagrams source) →
      ∃ other, outcome address port params timeoutMs requestId reordered = .ok other ∧
        other.sent = summary.sent ∧ other.acks = summary.acks ∧
        other.refusals.Perm summary.refusals

theorem countedOnce_collectedFrom (requestId : Nat) (datagrams : List Datagram) :
    CountedOnce requestId datagrams (collectedFrom requestId datagrams).summary := by
  refine ⟨?_, nodup_firsts _ _, fun source => find?_firsts _ _ source⟩
  rw [collectedFrom, length_firsts, List.map_id]

theorem outcome_whole {address : UInt32} {port : Nat} {params : ActionParams}
    {timeoutMs requestId : Nat} (htimeout : 0 < timeoutMs)
    (hwhole : ∀ datagram ∈ datagrams, datagram.Whole) :
    outcome address port params timeoutMs requestId datagrams =
      .ok (collectedFrom requestId datagrams).summary := by
  rw [outcome, sendAction]
  dsimp only
  rw [if_neg (by omega)]
  exact collectAcks_whole requestId [] hwhole

/-- One datagram shorter than a GVCP header loses every reply, and nothing else does:
the replies are counted once per camera exactly when no such datagram comes. -/
theorem counts_replies_iff_whole (address : UInt32) (port : Nat) (params : ActionParams)
    (requestId : Nat) (datagrams : List Datagram) {timeoutMs : Nat} (htimeout : 0 < timeoutMs) :
    CountsReplies address port params timeoutMs requestId datagrams ↔
      ∀ datagram ∈ datagrams, datagram.Whole := by
  constructor
  · rintro ⟨summary, houtcome, -⟩
    by_contra hshort
    simp only [not_forall, exists_prop] at hshort
    rw [outcome, sendAction] at houtcome
    dsimp only at houtcome
    rw [if_neg (by omega), collectAcks_short requestId _ hshort] at houtcome
    cases houtcome
  · intro hwhole
    refine ⟨_, outcome_whole htimeout hwhole, countedOnce_collectedFrom requestId datagrams, ?_⟩
    intro reordered hperm hfirst
    refine ⟨_, outcome_whole htimeout fun datagram hmem => hwhole datagram (hperm.subset hmem),
      rfl, ?_, perm_firsts hfirst⟩
    have hsources : (successes requestId reordered).Perm (successes requestId datagrams) :=
      (hperm.filter _).map _
    rw [(countedOnce_collectedFrom requestId reordered).acks,
      (countedOnce_collectedFrom requestId datagrams).acks, List.toFinset_eq_of_perm _ _ hsources]

/-- A camera's acknowledgement of request 0x8000. -/
def sampleAck : Datagram := ⟨[0, 0, 1, 1, 0, 0, 0x80, 0], .v4 0x0A000001, 3956⟩

theorem counts_replies_one_camera :
    CountsReplies 0xFFFFFFFF 3956 ⟨1, 1, 1, none⟩ 100 0x8000 [sampleAck] :=
  (counts_replies_iff_whole _ _ _ _ _ (by decide)).mpr (by decide)

/-- One stray byte after it, and the command reports an error. -/
theorem a_stray_byte_loses_the_reply :
    ¬ CountsReplies 0xFFFFFFFF 3956 ⟨1, 1, 1, none⟩ 100 0x8000
      [sampleAck, ⟨[0], .v4 0x0A000002, 9⟩] := by
  rintro ⟨summary, houtcome, -⟩
  have herror : outcome 0xFFFFFFFF 3956 ⟨1, 1, 1, none⟩ 100 0x8000
      [sampleAck, ⟨[0], .v4 0x0A000002, 9⟩] =
      .error (.invalidData "acknowledgement shorter than GVCP header") := rfl
  rw [herror] at houtcome
  cases houtcome

end VivaGenicam.Gvcp
