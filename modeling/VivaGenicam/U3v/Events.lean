import VivaGenicam.Library.Bytes
import VivaGenicam.U3v.Framing

/-!
Event commands of a USB3 Vision device: events laid end to end, each naming its
size, where 0 stands for the rest of the command.
-/

namespace VivaGenicam.U3v

open Library.Bytes

/-- `U3VE` read as a little-endian `u32`. -/
def eventPrefix : Nat := 0x45563355

def eventCommandHeaderSize : Nat := 12

/-- `event_size`, `event_id` and the timestamp. -/
def eventHeaderSize : Nat := 12

def eventCmd : Nat := 0x0C00

/-- One event a USB3 Vision device sent; `raw` is the event as the device laid it
out, from its size on. -/
structure U3vEvent where
  id : Nat
  timestamp : Nat
  data : List UInt8
  raw : List UInt8
deriving DecidableEq, Repr

def malformedEvent (problem : String) : U3vError := .malformed "event command" problem

/-- The size of the event `rest` starts with. -/
def eventSize (rest : List UInt8) : Except U3vError Nat :=
  let size := fieldLE rest 0 2
  if size = 0 then .ok rest.length
  else if size < eventHeaderSize then
    .error (malformedEvent "declares an event shorter than its header")
  else if rest.length < size then
    .error (malformedEvent "declares an event longer than the command")
  else .ok size

theorem eventSize_ok {rest : List UInt8} {size : Nat} (h : eventSize rest = .ok size) :
    fieldLE rest 0 2 = 0 ∧ size = rest.length ∨
      fieldLE rest 0 2 = size ∧ eventHeaderSize ≤ size ∧ size ≤ rest.length := by
  unfold eventSize at h
  dsimp only at h
  split at h
  · cases h
    exact .inl ⟨by assumption, rfl⟩
  split at h
  · cases h
  split at h
  · cases h
  · cases h
    exact .inr ⟨rfl, by omega, by omega⟩

def readEvents (rest : List UInt8) : Except U3vError (List U3vEvent) :=
  if rest = [] then .ok []
  else if rest.length < eventHeaderSize then
    .error (malformedEvent "ends inside an event header")
  else
    match _hsize : eventSize rest with
    | .error err => .error err
    | .ok size =>
      let raw := rest.take size
      let event : U3vEvent := {
        id := fieldLE rest 2 2
        timestamp := fieldLE rest 4 8
        data := raw.drop eventHeaderSize
        raw }
      (readEvents (rest.drop size)).map (event :: ·)
termination_by rest.length
decreasing_by
  have hbounds := eventSize_ok _hsize
  have hheader : eventHeaderSize = 12 := rfl
  rw [List.length_drop]
  omega

def parseEventCommand (packet : List UInt8) : Except U3vError (List U3vEvent) :=
  if packet.length < eventCommandHeaderSize then
    .error (malformedEvent "is shorter than its header")
  else if fieldLE packet 0 4 ≠ eventPrefix then
    .error (malformedEvent "lacks the U3VE prefix")
  else if fieldLE packet 6 2 ≠ eventCmd then
    .error (malformedEvent "is not an EVENT_CMD")
  else
    let length := fieldLE packet 8 2
    if packet.length < eventCommandHeaderSize + length then
      .error (malformedEvent "is shorter than its length field")
    else readEvents ((packet.drop eventCommandHeaderSize).take length)

/-- An event whose id and timestamp fit their fields. -/
structure EventMessage where
  id : Nat
  timestamp : Nat
  data : List UInt8
  id_lt : id < 2 ^ 16
  timestamp_lt : timestamp < 2 ^ 64

def EventMessage.size (event : EventMessage) : Nat := eventHeaderSize + event.data.length

/-- The event's bytes under the size it declares. -/
def EventMessage.encode (declared : Nat) (event : EventMessage) : List UInt8 :=
  encodeLE 2 declared ++ (encodeLE 2 event.id ++ (encodeLE 8 event.timestamp ++ event.data))

def EventMessage.received (declared : Nat) (event : EventMessage) : U3vEvent where
  id := event.id
  timestamp := event.timestamp
  data := event.data
  raw := event.encode declared

/-- What each event declares: its size, or 0 for the last one if `openEnd`. -/
def declaredSizes (openEnd : Bool) : List EventMessage → List (Nat × EventMessage)
  | [] => []
  | [event] => [(if openEnd then 0 else event.size, event)]
  | event :: rest => (event.size, event) :: declaredSizes openEnd rest

def layOut (events : List (Nat × EventMessage)) : List UInt8 :=
  events.flatMap fun entry => entry.2.encode entry.1

def receivedEvents (events : List (Nat × EventMessage)) : List U3vEvent :=
  events.map fun entry => entry.2.received entry.1

def totalSize (events : List EventMessage) : Nat := (events.map EventMessage.size).sum

def encodeEventCommand (flags requestId : Nat) (scd : List UInt8) : List UInt8 :=
  encodeLE 4 eventPrefix ++ (encodeLE 2 flags ++ (encodeLE 2 eventCmd ++
    (encodeLE 2 scd.length ++ (encodeLE 2 requestId ++ scd))))

theorem EventMessage.length_encode (declared : Nat) (event : EventMessage) :
    (event.encode declared).length = event.size := by
  simp [EventMessage.encode, EventMessage.size, eventHeaderSize]
  omega

theorem declaredSizes_cons (openEnd : Bool) (event : EventMessage) {rest : List EventMessage}
    (hne : rest ≠ []) :
    declaredSizes openEnd (event :: rest) = (event.size, event) :: declaredSizes openEnd rest := by
  cases rest with
  | nil => exact absurd rfl hne
  | cons next more => rfl

theorem length_layOut (openEnd : Bool) (events : List EventMessage) :
    (layOut (declaredSizes openEnd events)).length = totalSize events := by
  induction events with
  | nil => rfl
  | cons event rest ih =>
    cases rest with
    | nil => simp [declaredSizes, layOut, totalSize, EventMessage.length_encode]
    | cons next more =>
      rw [declaredSizes_cons openEnd event (by simp)]
      simp only [layOut, totalSize, List.flatMap_cons, List.length_append, List.map_cons,
        List.sum_cons, EventMessage.length_encode] at ih ⊢
      omega

theorem readEvents_nil : readEvents [] = .ok [] := by
  rw [readEvents, if_pos rfl]

theorem readEvents_cons (event : EventMessage) {declared : Nat} {after : List UInt8}
    (hdeclared : declared = event.size ∧ event.size < 2 ^ 16 ∨ declared = 0 ∧ after = []) :
    readEvents (event.encode declared ++ after) =
      (readEvents after).map (event.received declared :: ·) := by
  have hlength := event.length_encode declared
  have hwhole : (event.encode declared ++ after).length = event.size + after.length := by
    rw [List.length_append, hlength]
  have hpos : eventHeaderSize ≤ event.size := Nat.le_add_right _ _
  have hheader : eventHeaderSize = 12 := rfl
  have hfirst : fieldLE (event.encode declared ++ after) 0 2 = declared := by
    have hfits : declared < 256 ^ 2 := by
      rcases hdeclared with ⟨rfl, hlt⟩ | ⟨rfl, -⟩
      · exact hlt
      · decide
    rw [EventMessage.encode, List.append_assoc]
    exact fieldLE_first _ hfits
  have hsize : eventSize (event.encode declared ++ after) = .ok event.size := by
    simp only [eventSize, hfirst]
    rcases hdeclared with ⟨rfl, -⟩ | ⟨rfl, rfl⟩
    · rw [if_neg (by omega), if_neg (by omega), if_neg (by omega)]
    · rw [if_pos rfl, hwhole]
      rfl
  have hfields : fieldLE (event.encode declared ++ after) 2 2 = event.id ∧
      fieldLE (event.encode declared ++ after) 4 8 = event.timestamp := by
    simp only [EventMessage.encode, List.append_assoc]
    constructor
    · rw [fieldLE_skip _ _ _ (by decide)]
      exact fieldLE_first _ event.id_lt
    · rw [fieldLE_skip _ _ _ (by decide), fieldLE_skip _ _ _ (by decide)]
      exact fieldLE_first _ event.timestamp_lt
  have hdata : (event.encode declared).drop eventHeaderSize = event.data := by
    have hsplit : event.encode declared =
        (encodeLE 2 declared ++ encodeLE 2 event.id ++ encodeLE 8 event.timestamp) ++
          event.data := by
      simp [EventMessage.encode]
    rw [hsplit, List.drop_left' (by simp [eventHeaderSize])]
  have hne : event.encode declared ++ after ≠ [] := by
    intro h
    rw [h, List.length_nil] at hwhole
    omega
  rw [readEvents, if_neg hne, if_neg (by omega)]
  split
  · rename_i err herr
    rw [hsize] at herr
    cases herr
  · rename_i size hok
    rw [hsize] at hok
    cases hok
    simp only [hfields, List.take_left' hlength, List.drop_left' hlength, hdata]
    rfl

theorem readEvents_layOut (openEnd : Bool) (events : List EventMessage)
    (hfits : totalSize events < 2 ^ 16) :
    readEvents (layOut (declaredSizes openEnd events)) =
      .ok (receivedEvents (declaredSizes openEnd events)) := by
  induction events with
  | nil => exact readEvents_nil
  | cons event rest ih =>
    simp only [totalSize, List.map_cons, List.sum_cons] at hfits ih
    cases rest with
    | nil =>
      have hread := @readEvents_cons event (if openEnd then 0 else event.size) [] (by
          cases openEnd with
          | true => exact .inr ⟨rfl, rfl⟩
          | false => exact .inl ⟨rfl, by omega⟩)
      rw [readEvents_nil, List.append_nil] at hread
      simpa [declaredSizes, layOut, receivedEvents, Except.map] using hread
    | cons next more =>
      rw [declaredSizes_cons openEnd event (by simp)]
      have hread := @readEvents_cons event event.size
        (layOut (declaredSizes openEnd (next :: more))) (.inl ⟨rfl, by omega⟩)
      rw [ih (by omega)] at hread
      exact hread

theorem exists_message {rest : List UInt8} {size : Nat} (hheader : eventHeaderSize ≤ size)
    (hsize : size ≤ rest.length) :
    ∃ message : EventMessage, message.size = size ∧
      rest.take size = message.encode (fieldLE rest 0 2) ∧
      message.received (fieldLE rest 0 2) = {
        id := fieldLE rest 2 2
        timestamp := fieldLE rest 4 8
        data := (rest.take size).drop eventHeaderSize
        raw := rest.take size } := by
  have hvalue : eventHeaderSize = 12 := rfl
  let message : EventMessage := {
    id := fieldLE rest 2 2
    timestamp := fieldLE rest 4 8
    data := (rest.take size).drop eventHeaderSize
    id_lt := fieldLE_lt rest 2 2
    timestamp_lt := fieldLE_lt rest 4 8 }
  have hencode : rest.take size = message.encode (fieldLE rest 0 2) := by
    have hsplit : size = 2 + (2 + (8 + (size - eventHeaderSize))) := by omega
    have hdata : (rest.take size).drop eventHeaderSize =
        (rest.drop eventHeaderSize).take (size - eventHeaderSize) := List.drop_take ..
    simp only [EventMessage.encode, message]
    rw [encodeLE_fieldLE (by omega), encodeLE_fieldLE (by omega), encodeLE_fieldLE (by omega),
      hdata]
    conv_lhs => rw [hsplit, List.take_add, List.take_add, List.take_add]
    simp only [List.drop_drop, List.drop_zero, hvalue]
  refine ⟨message, ?_, hencode, ?_⟩
  · simp only [EventMessage.size, message, List.length_drop, List.length_take]
    omega
  · simp only [EventMessage.received, ← hencode, message]

theorem exists_layOut (rest : List UInt8) {events : List U3vEvent} (hshort : rest.length < 2 ^ 16)
    (h : readEvents rest = .ok events) :
    ∃ openEnd messages, rest = layOut (declaredSizes openEnd messages) ∧
      events = receivedEvents (declaredSizes openEnd messages) := by
  induction hlength : rest.length using Nat.strong_induction_on generalizing rest events with
  | _ n ih =>
    have hvalue : eventHeaderSize = 12 := rfl
    by_cases hempty : rest = []
    · subst hempty
      rw [readEvents_nil] at h
      cases h
      exact ⟨false, [], rfl, rfl⟩
    rw [readEvents.eq_def, if_neg hempty] at h
    split at h
    · cases h
    rename_i hlong
    split at h
    · cases h
    rename_i size hsize
    have hbounds := eventSize_ok hsize
    obtain ⟨message, hmessage, hencode, hreceived⟩ :=
      @exists_message rest size (by omega) (by omega)
    have hwhole : rest = message.encode (fieldLE rest 0 2) ++ rest.drop size := by
      rw [← hencode, List.take_append_drop]
    dsimp only at h
    rw [← hreceived] at h
    cases hmore : readEvents (rest.drop size) with
    | error err =>
      rw [hmore] at h
      cases h
    | ok more =>
      rw [hmore] at h
      cases h
      obtain ⟨openEnd, messages, hdrop, rfl⟩ := ih (rest.drop size).length
        (by rw [List.length_drop]; omega) _ (by rw [List.length_drop]; omega) hmore rfl
      by_cases hlast : messages = []
      · -- the last event: its size, or 0 for the rest
        subst hlast
        have hnone : rest.drop size = [] := hdrop
        rw [hnone, List.append_nil] at hwhole
        have hdeclared : (if decide (fieldLE rest 0 2 = 0) then 0 else message.size) =
            fieldLE rest 0 2 := by
          by_cases hzero : fieldLE rest 0 2 = 0
          · simp [hzero]
          · simp only [hzero, decide_false, Bool.false_eq_true, if_false]
            omega
        refine ⟨decide (fieldLE rest 0 2 = 0), [message], ?_, ?_⟩
        · simpa only [declaredSizes, layOut, hdeclared, List.flatMap_cons, List.flatMap_nil,
            List.append_nil] using hwhole
        · simp only [declaredSizes, receivedEvents, hdeclared, List.map_cons, List.map_nil]
      · have hpos : 0 < (rest.drop size).length := by
          obtain ⟨next, others, rfl⟩ := List.exists_cons_of_ne_nil hlast
          rw [hdrop, length_layOut]
          simp only [totalSize, List.map_cons, List.sum_cons, EventMessage.size, hvalue]
          omega
        have hdeclared : fieldLE rest 0 2 = message.size := by
          rw [List.length_drop] at hpos
          omega
        refine ⟨openEnd, message :: messages, ?_, ?_⟩
        · rw [declaredSizes_cons openEnd message hlast, ← hdeclared]
          exact hwhole.trans (congrArg (message.encode (fieldLE rest 0 2) ++ ·) hdrop)
        · rw [declaredSizes_cons openEnd message hlast, ← hdeclared]
          rfl

theorem parseEventCommand_encode {flags requestId : Nat} {scd : List UInt8}
    (hscd : scd.length < 2 ^ 16) (trailing : List UInt8) :
    parseEventCommand (encodeEventCommand flags requestId scd ++ trailing) = readEvents scd := by
  have hlength : (encodeEventCommand flags requestId scd).length = 12 + scd.length := by
    simp [encodeEventCommand]
    omega
  have hfields : fieldLE (encodeEventCommand flags requestId scd ++ trailing) 0 4 = eventPrefix ∧
      fieldLE (encodeEventCommand flags requestId scd ++ trailing) 6 2 = eventCmd ∧
      fieldLE (encodeEventCommand flags requestId scd ++ trailing) 8 2 = scd.length := by
    simp only [encodeEventCommand, List.append_assoc]
    refine ⟨fieldLE_first _ (by decide), ?_, ?_⟩
    · rw [fieldLE_skip _ _ _ (by decide), fieldLE_skip _ _ _ (by decide)]
      exact fieldLE_first _ (by decide)
    · rw [fieldLE_skip _ _ _ (by decide), fieldLE_skip _ _ _ (by decide),
        fieldLE_skip _ _ _ (by decide)]
      exact fieldLE_first _ hscd
  have hbody : (encodeEventCommand flags requestId scd ++ trailing).drop eventCommandHeaderSize =
      scd ++ trailing := by
    have hsplit : encodeEventCommand flags requestId scd ++ trailing =
        (encodeLE 4 eventPrefix ++ encodeLE 2 flags ++ encodeLE 2 eventCmd ++
          encodeLE 2 scd.length ++ encodeLE 2 requestId) ++ (scd ++ trailing) := by
      simp [encodeEventCommand]
    rw [hsplit, List.drop_left' (by simp [eventCommandHeaderSize])]
  have hheader : eventCommandHeaderSize = 12 := rfl
  unfold parseEventCommand
  simp only [hfields, hbody]
  rw [if_neg (by rw [List.length_append]; omega), if_neg (by simp), if_neg (by simp),
    if_neg (by rw [List.length_append]; omega), List.take_left]

theorem exists_eventCommand {packet : List UInt8} {events : List U3vEvent}
    (h : parseEventCommand packet = .ok events) :
    ∃ flags requestId scd trailing, scd.length < 2 ^ 16 ∧
      packet = encodeEventCommand flags requestId scd ++ trailing ∧ readEvents scd = .ok events := by
  unfold parseEventCommand at h
  split at h
  · cases h
  rename_i hlong
  split at h
  · cases h
  rename_i hprefix
  split at h
  · cases h
  rename_i hcommand
  dsimp only at h
  split at h
  · cases h
  rename_i hlength
  have hheader : eventCommandHeaderSize = 12 := rfl
  have hcount : ((packet.drop eventCommandHeaderSize).take (fieldLE packet 8 2)).length =
      fieldLE packet 8 2 := by
    rw [List.length_take, List.length_drop]
    omega
  refine ⟨fieldLE packet 4 2, fieldLE packet 10 2,
    (packet.drop eventCommandHeaderSize).take (fieldLE packet 8 2),
    packet.drop (eventCommandHeaderSize + fieldLE packet 8 2), ?_, ?_, h⟩
  · rw [hcount]
    exact fieldLE_lt packet 8 2
  · have hsplit : packet = packet.take (4 + (2 + (2 + (2 + (2 + fieldLE packet 8 2))))) ++
        packet.drop (eventCommandHeaderSize + fieldLE packet 8 2) := by
      rw [hheader, show 4 + (2 + (2 + (2 + (2 + fieldLE packet 8 2)))) = 12 + fieldLE packet 8 2 by
        omega, List.take_append_drop]
    rw [encodeEventCommand, hcount, ← not_not.mp hprefix, ← not_not.mp hcommand,
      encodeLE_fieldLE (by omega), encodeLE_fieldLE (by omega), encodeLE_fieldLE (by omega),
      encodeLE_fieldLE (by omega), encodeLE_fieldLE (by omega)]
    conv_lhs => rw [hsplit, List.take_add, List.take_add, List.take_add, List.take_add,
      List.take_add]
    simp only [List.drop_drop, List.drop_zero, hheader]

theorem parseEventCommand_iff (packet : List UInt8) (events : List U3vEvent) :
    parseEventCommand packet = .ok events ↔
      ∃ flags requestId openEnd messages trailing, totalSize messages < 2 ^ 16 ∧
        packet = encodeEventCommand flags requestId (layOut (declaredSizes openEnd messages)) ++
          trailing ∧
        events = receivedEvents (declaredSizes openEnd messages) := by
  constructor
  · intro h
    obtain ⟨flags, requestId, scd, trailing, hscd, rfl, hread⟩ := exists_eventCommand h
    obtain ⟨openEnd, messages, rfl, rfl⟩ := exists_layOut scd hscd hread
    rw [length_layOut] at hscd
    exact ⟨flags, requestId, openEnd, messages, trailing, hscd, rfl, rfl⟩
  · rintro ⟨flags, requestId, openEnd, messages, trailing, hfits, rfl, rfl⟩
    rw [parseEventCommand_encode (by rwa [length_layOut]) trailing]
    exact readEvents_layOut openEnd messages hfits

end VivaGenicam.U3v
