import VivaGenicam.Gige.Gvcp
import VivaGenicam.Library.Bytes
import VivaGenicam.Pixel.Sizes

/-!
Events on the GVCP message channel: commands of a device that pack fixed-size
entries, or one entry and its data.
-/

namespace VivaGenicam.Gvcp

open Library.Bytes Pixel

namespace Consts

def flagAckRequired : UInt8 := 0x01
def flagExtendedIds : UInt8 := 0x10
def maxEventSize : Nat := 2048
def eventCommand : Nat := 0x00C0
def eventdataCommand : Nat := 0x00C2
def eventEntry : Nat := 16
def eventEntryExtended : Nat := 24

end Consts

def hasFlag (flags flag : UInt8) : Bool := flags &&& flag != 0

/-- Header of a datagram received on the GVCP message channel. -/
structure MessageHeader where
  command : Nat
  length : Nat
  requestId : Nat
  ackRequired : Bool
  extendedIds : Bool
deriving DecidableEq, Repr

def MessageHeader.parse (data : List UInt8) : Except String MessageHeader :=
  if data.length < headerSize then .error "packet too short"
  else if Consts.maxEventSize < data.length then .error "packet too large"
  else if data.getD 0 0 ≠ gvcpCmdKey then .error "not a GVCP command packet"
  else
    let flags := data.getD 1 0
    let command := fieldBE data 2 2
    let length := fieldBE data 4 2
    let requestId := fieldBE data 6 2
    if command ≠ Consts.eventCommand ∧ command ≠ Consts.eventdataCommand then
      .error "unexpected opcode for event packet"
    else if length + headerSize ≠ data.length then .error "length mismatch"
    else
      .ok {
        command, length, requestId
        ackRequired := hasFlag flags Consts.flagAckRequired
        extendedIds := hasFlag flags Consts.flagExtendedIds }

/-- Size of one event entry given the extended-ID flag. -/
def entrySize (extendedIds : Bool) : Nat :=
  if extendedIds then Consts.eventEntryExtended else Consts.eventEntry

variable {Address : Type}

/-- A single GVCP event; `raw` is the event as the device sent it, the entry and
then any data. -/
structure EventPacket (Address : Type) where
  src : Address
  eventId : Nat
  timestampDev : Nat
  streamChannel : Nat
  blockId : Nat
  payload : List UInt8
  raw : List UInt8
deriving DecidableEq, Repr

def EventPacket.parseEntry (src : Address) (header : MessageHeader)
    (entry payload raw : List UInt8) : EventPacket Address where
  src
  eventId := fieldBE entry 2 2
  timestampDev := fieldBE entry (if header.extendedIds then 16 else 8) 8
  streamChannel := fieldBE entry 4 2
  blockId := if header.extendedIds then fieldBE entry 8 8 else fieldBE entry 6 2
  payload
  raw

/-- Every event carried by one message-channel datagram. -/
def parseDatagram (src : Address) (data : List UInt8) :
    Except String (MessageHeader × List (EventPacket Address)) := do
  let header ← MessageHeader.parse data
  let size := entrySize header.extendedIds
  let body := data.drop headerSize
  if body.length < size then .error "event payload shorter than one entry"
  else if header.command = Consts.eventdataCommand then
    .ok (header, [.parseEntry src header body (body.drop size) body])
  else if header.length % size ≠ 0 then
    .error "event payload is not a whole number of entries"
  else
    .ok (header, (chunksExact size body).map fun entry => .parseEntry src header entry [] entry)

/-- An event whose fields fit an entry with block ids of 16 or of 64 bits. -/
structure Event (extendedIds : Bool) where
  reserved : Nat
  eventId : Nat
  streamChannel : Nat
  /-- Only in front of a block id of 64 bits. -/
  blockReserved : Nat
  blockId : Nat
  timestamp : Nat
  eventId_lt : eventId < 2 ^ 16
  streamChannel_lt : streamChannel < 2 ^ 16
  blockId_lt : blockId < if extendedIds then 2 ^ 64 else 2 ^ 16
  timestamp_lt : timestamp < 2 ^ 64

def Event.encode : {extendedIds : Bool} → Event extendedIds → List UInt8
  | true, event =>
    encodeBE 2 event.reserved ++ (encodeBE 2 event.eventId ++
      (encodeBE 2 event.streamChannel ++ (encodeBE 2 event.blockReserved ++
        (encodeBE 8 event.blockId ++ encodeBE 8 event.timestamp))))
  | false, event =>
    encodeBE 2 event.reserved ++ (encodeBE 2 event.eventId ++
      (encodeBE 2 event.streamChannel ++ (encodeBE 2 event.blockId ++
        encodeBE 8 event.timestamp)))

/-- The event a host makes of one that came from `src` with `data` behind its entry. -/
def Event.received {extendedIds : Bool} (event : Event extendedIds) (src : Address)
    (data : List UInt8) : EventPacket Address where
  src
  eventId := event.eventId
  timestampDev := event.timestamp
  streamChannel := event.streamChannel
  blockId := event.blockId
  payload := data
  raw := event.encode ++ data

def encodeCommand (flags : UInt8) (command requestId : Nat) (body : List UInt8) : List UInt8 :=
  [gvcpCmdKey, flags] ++ (encodeBE 2 command ++
    (encodeBE 2 body.length ++ (encodeBE 2 requestId ++ body)))

def commandHeader (flags : UInt8) (command requestId length : Nat) : MessageHeader where
  command
  length
  requestId
  ackRequired := hasFlag flags Consts.flagAckRequired
  extendedIds := hasFlag flags Consts.flagExtendedIds

/-- A command packet of one of the two event opcodes whose length field equals
its body, which holds whole entries or starts with one. -/
structure IsEventDatagram (data : List UInt8) : Prop where
  fits : headerSize ≤ data.length
  key : data.getD 0 0 = gvcpCmdKey
  length : fieldBE data 4 2 + headerSize = data.length
  entry : entrySize (hasFlag (data.getD 1 0) Consts.flagExtendedIds) ≤
    (data.drop headerSize).length
  opcode : fieldBE data 2 2 = Consts.eventdataCommand ∨
    fieldBE data 2 2 = Consts.eventCommand ∧
      entrySize (hasFlag (data.getD 1 0) Consts.flagExtendedIds) ∣ (data.drop headerSize).length

theorem entrySize_pos (extendedIds : Bool) : 0 < entrySize extendedIds := by
  cases extendedIds <;> decide

variable {extendedIds : Bool}

theorem Event.length_encode (event : Event extendedIds) :
    event.encode.length = entrySize extendedIds := by
  cases extendedIds with
  | true => simp [Event.encode, entrySize, Consts.eventEntryExtended]
  | false => simp [Event.encode, entrySize, Consts.eventEntry]

theorem Event.parseEntry_encode (event : Event extendedIds) (src : Address)
    (header : MessageHeader) (hheader : header.extendedIds = extendedIds) (data : List UInt8) :
    EventPacket.parseEntry src header (event.encode ++ data) data (event.encode ++ data) =
      event.received src data := by
  have heventId := event.eventId_lt
  have hstreamChannel := event.streamChannel_lt
  have hblockId := event.blockId_lt
  have htimestamp := event.timestamp_lt
  cases extendedIds with
  | true =>
    simp only [if_true] at hblockId
    simp [EventPacket.parseEntry, Event.received, hheader, Event.encode, fieldBE_skip]
    exact ⟨fieldBE_first _ heventId, fieldBE_first _ htimestamp, fieldBE_first _ hstreamChannel,
      fieldBE_first _ hblockId⟩
  | false =>
    simp only [Bool.false_eq_true, if_false] at hblockId
    simp [EventPacket.parseEntry, Event.received, hheader, Event.encode, fieldBE_skip]
    exact ⟨fieldBE_first _ heventId, fieldBE_first _ htimestamp, fieldBE_first _ hstreamChannel,
      fieldBE_first _ hblockId⟩

theorem length_encodeCommand (flags : UInt8) (command requestId : Nat) (body : List UInt8) :
    (encodeCommand flags command requestId body).length = headerSize + body.length := by
  simp [encodeCommand, headerSize]
  omega

theorem drop_encodeCommand (flags : UInt8) (command requestId : Nat) (body : List UInt8) :
    (encodeCommand flags command requestId body).drop headerSize = body := by
  have hsplit : encodeCommand flags command requestId body =
      ([gvcpCmdKey, flags] ++ encodeBE 2 command ++ encodeBE 2 body.length ++
        encodeBE 2 requestId) ++ body := by
    simp [encodeCommand]
  rw [hsplit, List.drop_left' (by simp [headerSize])]

theorem encodeCommand_fields (flags : UInt8) {command requestId : Nat} {body : List UInt8}
    (hcommand : command < 2 ^ 16) (hrequestId : requestId < 2 ^ 16)
    (hbody : body.length < 2 ^ 16) :
    fieldBE (encodeCommand flags command requestId body) 2 2 = command ∧
      fieldBE (encodeCommand flags command requestId body) 4 2 = body.length ∧
      fieldBE (encodeCommand flags command requestId body) 6 2 = requestId := by
  have hfield : ∀ offset width, fieldBE (encodeCommand flags command requestId body) (2 + offset)
      width = fieldBE (encodeBE 2 command ++ (encodeBE 2 body.length ++
        (encodeBE 2 requestId ++ body))) offset width := by
    intro offset width
    rw [encodeCommand, fieldBE_append _ _ (by simp)]
    simp
  refine ⟨(hfield 0 2).trans ?_, (hfield 2 2).trans ?_, (hfield 4 2).trans ?_⟩
  · exact fieldBE_first _ hcommand
  · rw [fieldBE_skip _ _ _ (by decide)]
    exact fieldBE_first _ hbody
  · rw [fieldBE_skip _ _ _ (by decide), fieldBE_skip _ _ _ (by decide)]
    exact fieldBE_first _ hrequestId

variable {requestId : Nat}

theorem MessageHeader.parse_encodeCommand (flags : UInt8) {command : Nat}
    {body : List UInt8} (hcommand : command = Consts.eventCommand ∨
      command = Consts.eventdataCommand) (hrequestId : requestId < 2 ^ 16)
    (hfits : headerSize + body.length ≤ Consts.maxEventSize) :
    MessageHeader.parse (encodeCommand flags command requestId body) =
      .ok (commandHeader flags command requestId body.length) := by
  have hlength := length_encodeCommand flags command requestId body
  have hshort : body.length < 2 ^ 16 := by
    simp only [headerSize, Consts.maxEventSize] at hfits
    omega
  have hcode : command < 2 ^ 16 := by
    rcases hcommand with rfl | rfl
    · decide
    · decide
  have hfields := encodeCommand_fields flags hcode hrequestId hshort
  unfold MessageHeader.parse
  rw [if_neg (by omega), if_neg (by omega), if_neg (by simp [encodeCommand])]
  simp only [hfields]
  rw [if_neg (by tauto), if_neg (by omega)]
  rfl

theorem chunksExact_flatten {size : Nat} (hsize : 0 < size) {chunks : List (List UInt8)}
    (h : ∀ chunk ∈ chunks, chunk.length = size) : chunksExact size chunks.flatten = chunks := by
  induction chunks with
  | nil => simp [chunksExact]
  | cons chunk rest ih =>
    have hchunk := h chunk (by simp)
    have hrest := ih fun c hc => h c (List.mem_cons_of_mem chunk hc)
    have hcount : (chunk :: rest).flatten.length / size = rest.flatten.length / size + 1 := by
      rw [List.flatten_cons, List.length_append, hchunk, Nat.add_comm, Nat.add_div_right _ hsize]
    unfold chunksExact at hrest ⊢
    rw [hcount, List.range_succ_eq_map, List.map_cons, List.map_map, Nat.zero_mul, List.drop_zero,
      List.flatten_cons, List.take_left' hchunk]
    have hdrop : ∀ i, (chunk ++ rest.flatten).drop ((i + 1) * size) =
        rest.flatten.drop (i * size) := by
      intro i
      have hle : chunk.length ≤ (i + 1) * size := by
        rw [hchunk]
        exact Nat.le_mul_of_pos_left _ (by omega)
      rw [List.drop_append, List.drop_eq_nil_of_le hle, List.nil_append, hchunk, Nat.succ_mul,
        Nat.add_sub_cancel]
    refine congrArg (chunk :: ·) ((List.map_congr_left fun i _ => ?_).trans hrest)
    exact congrArg (List.take size) (hdrop i)

theorem length_flatMap_encode (events : List (Event extendedIds)) :
    (events.flatMap Event.encode).length = events.length * entrySize extendedIds := by
  induction events with
  | nil => simp
  | cons event rest ih =>
    rw [List.flatMap_cons, List.length_append, ih, event.length_encode, List.length_cons,
      Nat.succ_mul, Nat.add_comm]

theorem parseDatagram_events (src : Address) (flags : UInt8) (hrequestId : requestId < 2 ^ 16)
    {events : List (Event (hasFlag flags Consts.flagExtendedIds))} (hne : events ≠ [])
    (hfits : headerSize + (events.flatMap Event.encode).length ≤ Consts.maxEventSize) :
    parseDatagram src
        (encodeCommand flags Consts.eventCommand requestId (events.flatMap Event.encode)) =
      .ok (commandHeader flags Consts.eventCommand requestId (events.flatMap Event.encode).length,
        events.map fun event => event.received src []) := by
  have hsize := entrySize_pos (hasFlag flags Consts.flagExtendedIds)
  have hentries : ∀ chunk ∈ events.map Event.encode,
      chunk.length = entrySize (hasFlag flags Consts.flagExtendedIds) := by
    intro chunk hchunk
    obtain ⟨event, -, rfl⟩ := List.mem_map.mp hchunk
    exact event.length_encode
  have hlength := length_flatMap_encode events
  have hchunks := chunksExact_flatten hsize hentries
  rw [← List.flatMap_def] at hchunks
  have hlong : entrySize (hasFlag flags Consts.flagExtendedIds) ≤
      (events.flatMap Event.encode).length := by
    rw [hlength]
    exact Nat.le_mul_of_pos_left _ (List.length_pos_iff.mpr hne)
  unfold parseDatagram
  rw [MessageHeader.parse_encodeCommand flags (.inl rfl) hrequestId hfits]
  simp only [bind, Except.bind, drop_encodeCommand, commandHeader]
  rw [if_neg (by omega), if_neg (by decide), if_neg (by rw [hlength]; simp), hchunks, List.map_map]
  congr 2
  apply List.map_congr_left
  intro event _
  have hread := event.parseEntry_encode src
    (commandHeader flags Consts.eventCommand requestId (events.flatMap Event.encode).length) rfl []
  rwa [List.append_nil] at hread

theorem parseDatagram_eventdata (src : Address) (flags : UInt8)
    (hrequestId : requestId < 2 ^ 16) (event : Event (hasFlag flags Consts.flagExtendedIds))
    {data : List UInt8} (hfits : headerSize + (event.encode ++ data).length ≤ Consts.maxEventSize) :
    parseDatagram src
        (encodeCommand flags Consts.eventdataCommand requestId (event.encode ++ data)) =
      .ok (commandHeader flags Consts.eventdataCommand requestId (event.encode ++ data).length,
        [event.received src data]) := by
  have hlong : ¬ (event.encode ++ data).length <
      entrySize (hasFlag flags Consts.flagExtendedIds) := by
    rw [List.length_append, event.length_encode]
    omega
  unfold parseDatagram
  rw [MessageHeader.parse_encodeCommand flags (.inr rfl) hrequestId hfits]
  simp only [bind, Except.bind, drop_encodeCommand, commandHeader]
  rw [if_neg hlong, if_pos trivial, List.drop_left' event.length_encode]
  congr 3
  exact event.parseEntry_encode src
    (commandHeader flags Consts.eventdataCommand requestId (event.encode ++ data).length) rfl data

theorem MessageHeader.parse_ok_iff (data : List UInt8) (header : MessageHeader) :
    MessageHeader.parse data = .ok header ↔
      headerSize ≤ data.length ∧ data.length ≤ Consts.maxEventSize ∧
        data.getD 0 0 = gvcpCmdKey ∧
        (fieldBE data 2 2 = Consts.eventCommand ∨ fieldBE data 2 2 = Consts.eventdataCommand) ∧
        fieldBE data 4 2 + headerSize = data.length ∧
        header = commandHeader (data.getD 1 0) (fieldBE data 2 2) (fieldBE data 6 2)
          (fieldBE data 4 2) := by
  unfold MessageHeader.parse
  constructor
  · intro h
    split at h
    · cases h
    split at h
    · cases h
    split at h
    · cases h
    dsimp only at h
    split at h
    · cases h
    split at h
    · cases h
    · cases h
      refine ⟨by omega, by omega, by simp_all, by tauto, by omega, rfl⟩
  · rintro ⟨hlong, hshort, hkey, hcommand, hlength, rfl⟩
    dsimp only
    rw [if_neg (by omega), if_neg (by omega), if_neg (by simpa using hkey), if_neg (by tauto),
      if_neg (by omega)]
    rfl

theorem parseDatagram_accepts_iff (src : Address) (data : List UInt8) :
    (∃ result, parseDatagram src data = .ok result) ↔
      IsEventDatagram data ∧ data.length ≤ Consts.maxEventSize := by
  have hsize := entrySize_pos (hasFlag (data.getD 1 0) Consts.flagExtendedIds)
  unfold parseDatagram
  cases hheader : MessageHeader.parse data with
  | error problem =>
    constructor
    · rintro ⟨result, h⟩
      cases h
    · rintro ⟨h, hshort⟩
      have hok := (MessageHeader.parse_ok_iff data _).mpr
        ⟨h.fits, hshort, h.key, h.opcode.symm.imp_left And.left, h.length, rfl⟩
      rw [hheader] at hok
      cases hok
  | ok header =>
    obtain ⟨hlong, hshort, hkey, hcommand, hlength, hfields⟩ :=
      (MessageHeader.parse_ok_iff data header).mp hheader
    have hbody : (data.drop headerSize).length = fieldBE data 4 2 := by
      rw [List.length_drop]
      omega
    have hcode : header.command = fieldBE data 2 2 := congrArg MessageHeader.command hfields
    have hcount : header.length = fieldBE data 4 2 := congrArg MessageHeader.length hfields
    have hextended : header.extendedIds = hasFlag (data.getD 1 0) Consts.flagExtendedIds :=
      congrArg MessageHeader.extendedIds hfields
    simp only [bind, Except.bind]
    constructor
    · rintro ⟨result, h⟩
      rw [hbody, ← hcount] at h
      rw [← hcode] at hcommand
      split at h
      · cases h
      refine ⟨⟨hlong, hkey, hlength, ?_, ?_⟩, hshort⟩
      · rw [← hextended, hbody]
        omega
      rw [← hextended, ← hcode, hbody, ← hcount]
      split at h
      · rename_i hdata
        exact .inl hdata
      rename_i hdata
      split at h
      · cases h
      rename_i hwhole
      exact .inr ⟨hcommand.resolve_right hdata, Nat.dvd_of_mod_eq_zero (not_not.mp hwhole)⟩
    · rintro ⟨h, -⟩
      have hentry := h.entry
      have hkind := h.opcode
      rw [← hextended, hbody, ← hcount] at hentry
      rw [← hextended, ← hcode, hbody, ← hcount] at hkind
      rw [hbody, ← hcount, if_neg (by omega)]
      rcases hkind with hdata | ⟨hevent, hwhole⟩
      · rw [if_pos hdata]
        exact ⟨_, rfl⟩
      · have hother : header.command ≠ Consts.eventdataCommand := by
          rw [hevent]
          decide
        rw [if_neg hother, if_neg (by rw [Nat.mod_eq_zero_of_dvd hwhole]; simp)]
        exact ⟨_, rfl⟩

theorem isEventDatagram_eventdata (flags : UInt8) {requestId : Nat} {body : List UInt8}
    (hrequestId : requestId < 2 ^ 16) (hbody : body.length < 2 ^ 16)
    (hentry : entrySize (hasFlag flags Consts.flagExtendedIds) ≤ body.length) :
    IsEventDatagram (encodeCommand flags Consts.eventdataCommand requestId body) := by
  obtain ⟨hcommand, hlength, -⟩ := 
    @encodeCommand_fields flags Consts.eventdataCommand requestId body (by decide) hrequestId hbody
  have hwhole := length_encodeCommand flags Consts.eventdataCommand requestId body
  refine ⟨by omega, rfl, by omega, ?_, .inl hcommand⟩
  rw [drop_encodeCommand]
  exact hentry

end VivaGenicam.Gvcp
