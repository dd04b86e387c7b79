import VivaGenicam.Gige.Events
import VivaGenicam.U3v.Events

/-!
Event messages of both transports: what a device sends is what a host reads, and
nothing else is read.
-/

namespace VivaGenicam.Camera

open Gvcp
open U3v (EventMessage U3vEvent parseEventCommand encodeEventCommand layOut declaredSizes
  receivedEvents totalSize parseEventCommand_iff)

/-- Events come back from the commands of either protocol, one event at least and
no more than the receive buffer holds over GVCP; and only such commands are read. -/
theorem event_message_codecs {Address : Type} (src : Address) :
    (∀ (flags : UInt8) (requestId : Nat), requestId < 2 ^ 16 →
      (∀ events : List (Event (hasFlag flags Consts.flagExtendedIds)), events ≠ [] →
        headerSize + (events.flatMap Event.encode).length ≤ Consts.maxEventSize →
        parseDatagram src (encodeCommand flags Consts.eventCommand requestId
            (events.flatMap Event.encode)) =
          .ok (commandHeader flags Consts.eventCommand requestId
              (events.flatMap Event.encode).length,
            events.map fun event => event.received src [])) ∧
      ∀ (event : Event (hasFlag flags Consts.flagExtendedIds)) (data : List UInt8),
        headerSize + (event.encode ++ data).length ≤ Consts.maxEventSize →
        parseDatagram src (encodeCommand flags Consts.eventdataCommand requestId
            (event.encode ++ data)) =
          .ok (commandHeader flags Consts.eventdataCommand requestId (event.encode ++ data).length,
            [event.received src data])) ∧
      (∀ data : List UInt8, (∃ result, parseDatagram src data = .ok result) ↔
        IsEventDatagram data ∧ data.length ≤ Consts.maxEventSize) ∧
      (∀ (flags requestId : Nat) (openEnd : Bool) (messages : List EventMessage)
          (trailing : List UInt8), totalSize messages < 2 ^ 16 →
        parseEventCommand (encodeEventCommand flags requestId
            (layOut (declaredSizes openEnd messages)) ++ trailing) =
          .ok (receivedEvents (declaredSizes openEnd messages))) ∧
      ∀ (packet : List UInt8) (events : List U3vEvent),
        parseEventCommand packet = .ok events ↔
          ∃ flags requestId openEnd messages trailing, totalSize messages < 2 ^ 16 ∧
            packet = encodeEventCommand flags requestId (layOut (declaredSizes openEnd messages)) ++
              trailing ∧
            events = receivedEvents (declaredSizes openEnd messages) := by
  refine ⟨fun flags requestId hrequestId => ⟨fun events hne hfits => ?_,
    fun event data hfits => ?_⟩, parseDatagram_accepts_iff src,
    fun flags requestId openEnd messages trailing hfits => ?_, parseEventCommand_iff⟩
  · exact parseDatagram_events src flags hrequestId hne hfits
  · exact parseDatagram_eventdata src flags hrequestId event hfits
  · exact (parseEventCommand_iff _ _).mpr
      ⟨flags, requestId, openEnd, messages, trailing, hfits, rfl, rfl⟩

def exposureEnd : Event false where
  reserved := 0
  eventId := 0x9001
  streamChannel := 0
  blockReserved := 0
  blockId := 7
  timestamp := 1000
  eventId_lt := by decide
  streamChannel_lt := by decide
  blockId_lt := by decide
  timestamp_lt := by decide

theorem event_message_codecs_exposureEnd :
    parseDatagram () (encodeCommand 1 Consts.eventdataCommand 5 (exposureEnd.encode ++ [3, 4])) =
      .ok (commandHeader 1 Consts.eventdataCommand 5 18, [exposureEnd.received () [3, 4]]) :=
  ((event_message_codecs ()).1 1 5 (by decide)).2 exposureEnd [3, 4] (by decide)

/-- A command without an event is refused, and so is an event datagram that exceeds
the receive buffer. -/
theorem not_every_event_datagram_is_read :
    ¬ ((∀ events : List (Event false),
          headerSize + (events.flatMap Event.encode).length ≤ Consts.maxEventSize →
          parseDatagram () (encodeCommand 0 Consts.eventCommand 0 (events.flatMap Event.encode)) =
            .ok (commandHeader 0 Consts.eventCommand 0 (events.flatMap Event.encode).length,
              events.map fun event => event.received () [])) ∨
        ∀ data : List UInt8, (∃ result, parseDatagram () data = .ok result) ↔
          IsEventDatagram data) := by
  rintro (hevents | hdatagrams)
  · have hnone := hevents [] (by decide)
    have hrefused : parseDatagram () (encodeCommand 0 Consts.eventCommand 0 []) =
        .error "event payload shorter than one entry" := by decide
    rw [List.flatMap_nil, hrefused] at hnone
    cases hnone
  · have hlength : (List.replicate 2041 (0 : UInt8)).length = 2041 := List.length_replicate
    have hdatagram := @isEventDatagram_eventdata 0 0 (List.replicate 2041 0) (by decide)
      (by omega) (by rw [hlength]; decide)
    have hfits := ((parseDatagram_accepts_iff () _).mp ((hdatagrams _).mpr hdatagram)).2
    rw [length_encodeCommand, hlength] at hfits
    exact absurd hfits (by decide)

end VivaGenicam.Camera
