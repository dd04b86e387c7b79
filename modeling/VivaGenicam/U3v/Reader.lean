import VivaGenicam.Library.Checked
import VivaGenicam.Stream.Delivery
import VivaGenicam.U3v.Framing

/-!
The reader thread of a USB3 Vision stream: it counts the block ids it did not
see and delivers what it read. With the GVSP receive engine's `deliver`, the
accounting law of `StreamStats`.
-/

namespace VivaGenicam.U3v

open Library Library.Transition Stream

/-- The extended chunk flag; alone, chunk data. -/
def chunkFlag : Nat := 0x4000

/-- What the counters need of a frame. -/
structure Frame where
  blockId : Nat
  payloadType : Nat
  payload : List UInt8
  status : FrameStatus
deriving DecidableEq, Repr

def toFrame (raw : RawFrame) : Frame where
  blockId := raw.leader.blockId
  payloadType := raw.leader.payloadType
  payload := raw.payload
  status :=
    match raw.trailer with
    | none => .trailerMissing
    | some trailer =>
      if trailer.status &&& 0x8000 ≠ 0 then .u3vDeviceStatus (U3vStatus.fromRaw trailer.status)
      else if raw.payload.length < trailer.validPayloadSize then .incomplete 0
      else .complete

/-- `deliver` of the USB3 Vision reader. -/
def deliver (raw : RawFrame) (deliverIncomplete : Bool) : Decision Frame :=
  let payloadType := raw.leader.payloadType
  if payloadType &&& (0xFFFF - chunkFlag) ≠ payloadTypeImage ∧ payloadType ≠ chunkFlag then
    .unsupported
  else
    let frame := toFrame raw
    if !frame.status.isComplete && !deliverIncomplete then .incomplete else .queue frame

/-- How many frames `read_loop` records as missed before a block; `none` when the
arithmetic on 64 bits overflows. -/
def missedSince (last : Option Nat) (id : Nat) : Option Nat :=
  match last with
  | none => some 0
  | some last => do
    let next ← Checked.add last 1
    if id > next then
      let distance ← Checked.sub id last
      Checked.sub distance 1
    else
      some 0

/-- The reader thread with what it shares. -/
structure Reader where
  delivery : Delivery Frame := {}
  lastBlock : Option Nat := none
  framesMissed : Nat := 0
  overflowed : Bool := false
  /-- The ids of the blocks read; nothing reads these. -/
  ids : List Nat := []

namespace Reader

def read (reader : Reader) (raw : RawFrame) : Reader :=
  let id := raw.leader.blockId
  match missedSince reader.lastBlock id with
  | none => { reader with overflowed := true }
  | some missed =>
    { reader with
      delivery := reader.delivery.give deliver raw
      lastBlock := some id
      framesMissed := (reader.framesMissed + missed) % 2 ^ 64
      ids := reader.ids ++ [id] }

/-- The thread reads the next block once it has delivered the one before. -/
def step (reader : Reader) (next : DeliveryStep RawFrame) : Reader :=
  match next with
  | .give raw =>
    match reader.delivery.delivering with
    | .idle => if reader.overflowed then reader else reader.read raw
    | _ => reader
  | other => { reader with delivery := reader.delivery.step deliver Frame.status other }

end Reader

/-- The ids skipped from one block to the next. -/
def skipped (last id : Nat) : Nat := if last < id then id - last - 1 else 0

/-- The ids skipped over a sequence of blocks. -/
def skippedIn : List Nat → Nat
  | last :: id :: rest => skipped last id + skippedIn (id :: rest)
  | _ => 0

theorem skippedIn_concat (ids : List Nat) (last id : Nat) (hlast : ids.getLast? = some last) :
    skippedIn (ids ++ [id]) = skippedIn ids + skipped last id := by
  induction ids with
  | nil => cases hlast
  | cons first rest ih =>
    cases rest with
    | nil =>
      cases hlast
      simp [skippedIn]
    | cons second rest =>
      rw [List.getLast?_cons_cons] at hlast
      have := ih hlast
      simp only [List.cons_append, skippedIn] at this ⊢
      omega

theorem missedSince_iff {last : Nat} (hlast : last < 2 ^ 64) (id : Nat) :
    missedSince (some last) id = some (skipped last id) ↔ last ≠ 2 ^ 64 - 1 := by
  constructor
  · rintro hmissed rfl
    simp [missedSince, Checked.add] at hmissed
  · intro hne
    have hadd : Checked.add last 1 = some (last + 1) := Checked.add_eq (by omega)
    simp only [missedSince, hadd, Option.bind_eq_bind, Option.bind_some]
    split
    · rename_i hgap
      rw [Checked.sub_eq (by omega), Option.bind_some, Checked.sub_eq (by omega), skipped,
        if_pos (by omega)]
    · unfold skipped
      split
      · exact congrArg some (by omega)
      · rfl

namespace Reader

/-- No block follows the one with the last 64-bit id, and the count of missed
frames has 64 bits. -/
def Permitted (reader : Reader) : DeliveryStep RawFrame → Prop
  | .give raw => raw.leader.blockId < 2 ^ 64 ∧
      ∀ last ∈ reader.lastBlock, last ≠ 2 ^ 64 - 1 ∧
        reader.framesMissed + skipped last raw.leader.blockId < 2 ^ 64
  | _ => True

/-- Every block read has one fate, and every id skipped is counted once. -/
structure Accounted (reader : Reader) : Prop where
  delivery : reader.delivery.Accounted Frame.status
  lastBlock_eq : reader.lastBlock = reader.ids.getLast?
  lastBlock_lt : ∀ last ∈ reader.lastBlock, last < 2 ^ 64
  framesMissed_eq : reader.framesMissed = skippedIn reader.ids
  not_overflowed : reader.overflowed = false

theorem Accounted.read {reader : Reader} (h : reader.Accounted) {raw : RawFrame}
    (hpermit : reader.Permitted (.give raw)) : (reader.read raw).Accounted := by
  obtain ⟨hid, hlast⟩ := hpermit
  have hmissed : ∃ missed, missedSince reader.lastBlock raw.leader.blockId = some missed ∧
      reader.framesMissed + missed = skippedIn (reader.ids ++ [raw.leader.blockId]) ∧
      reader.framesMissed + missed < 2 ^ 64 := by
    have hframes := h.framesMissed_eq
    cases hlastBlock : reader.lastBlock with
    | none =>
      have hids : reader.ids = [] := List.getLast?_eq_none_iff.mp (h.lastBlock_eq ▸ hlastBlock)
      rw [hids] at hframes ⊢
      refine ⟨0, rfl, hframes, ?_⟩
      rw [hframes]
      decide
    | some last =>
      obtain ⟨hne, hlt⟩ := hlast last hlastBlock
      refine ⟨skipped last raw.leader.blockId,
        (missedSince_iff (h.lastBlock_lt last hlastBlock) _).mpr hne, ?_, hlt⟩
      rw [skippedIn_concat _ last _ (h.lastBlock_eq ▸ hlastBlock), hframes]
  obtain ⟨missed, heq, hskipped, hlt⟩ := hmissed
  unfold Reader.read
  simp only [heq]
  exact
    { delivery := h.delivery.give deliver raw
      lastBlock_eq := (List.getLast?_concat ..).symm
      lastBlock_lt := fun last hmem => (Option.mem_some_iff.mp hmem) ▸ hid
      framesMissed_eq := (Nat.mod_eq_of_lt hlt).trans hskipped
      not_overflowed := h.not_overflowed }

theorem Accounted.other {reader : Reader} (h : reader.Accounted) (next : DeliveryStep RawFrame) :
    ({ reader with
      delivery := reader.delivery.step U3v.deliver Frame.status next } : Reader).Accounted :=
  { h with delivery := h.delivery.step U3v.deliver next }

theorem Accounted.step {reader : Reader} (h : reader.Accounted) (next : DeliveryStep RawFrame)
    (hpermit : reader.Permitted next) : (reader.step next).Accounted := by
  cases next with
  | give raw =>
    simp only [Reader.step, h.not_overflowed, Bool.false_eq_true, if_false]
    split
    · exact h.read hpermit
    · exact h
  | setDeliverIncomplete value => exact h.other (.setDeliverIncomplete value)
  | load => exact h.other .load
  | deliver => exact h.other .deliver
  | pop => exact h.other .pop
  | count => exact h.other .count
  | fail => exact h.other .fail
  | finish => exact h.other .finish

end Reader

/-- Whatever blocks are delivered and whenever frames are taken: each block given
is counted once or is queued, on either transport; the USB3 Vision reader counts
each id skipped, as long as none follows the last one 64 bits have, and that is
exactly when its arithmetic does not overflow. -/
theorem frames_accounted (blocks : List (DeliveryStep AssembledBlock))
    (frames : List (DeliveryStep RawFrame)) :
    ((run (Delivery.step deliverGige AssembledBlock.status) {} blocks).Accounted
        AssembledBlock.status ∧
      (run (Delivery.step deliverGige AssembledBlock.status) {} blocks).Balanced) ∧
    (Guarded Reader.step Reader.Permitted {} frames →
      (run Reader.step {} frames).Accounted ∧ (run Reader.step {} frames).delivery.Balanced) ∧
    ∀ last < 2 ^ 64, ∀ id,
      missedSince (some last) id = some (skipped last id) ↔ last ≠ 2 ^ 64 - 1 := by
  refine ⟨?_, fun hframes => ?_, fun last hlast id => missedSince_iff hlast id⟩
  · have h := Delivery.accounted_run deliverGige AssembledBlock.status blocks
    exact ⟨h, h.balanced⟩
  · have hstart : Reader.Accounted {} :=
      { delivery := Delivery.accounted_start _
        lastBlock_eq := rfl
        lastBlock_lt := nofun
        framesMissed_eq := rfl
        not_overflowed := rfl }
    have h := run_invariant Reader.step Reader.Permitted Reader.Accounted
      (fun _ next h hpermit => h.step next hpermit) {} frames hstart hframes
    exact ⟨h, h.delivery.balanced⟩

/-- A block of chunk data with a given id and no trailer. -/
def chunkFrame (blockId : Nat) : RawFrame where
  leader :=
    { blockId, payloadType := chunkFlag, timestamp := 0, pixelFormat := 0, width := 0, height := 0
      xOffset := 0, yOffset := 0, xPadding := 0 }
  payload := []
  trailer := none

instance Reader.Permitted.decidable (reader : Reader) (next : DeliveryStep RawFrame) :
    Decidable (reader.Permitted next) :=
  match next with
  | .give raw => inferInstanceAs (Decidable (raw.leader.blockId < 2 ^ 64 ∧
      ∀ last ∈ reader.lastBlock, last ≠ 2 ^ 64 - 1 ∧
        reader.framesMissed + skipped last raw.leader.blockId < 2 ^ 64))
  | .setDeliverIncomplete _ | .load | .deliver | .pop | .count | .fail | .finish => .isTrue trivial

/-- Ids 3, 7 and 1: three are missed. -/
theorem frames_accounted_gap :
    (run Reader.step {} [.give (chunkFrame 3), .deliver, .give (chunkFrame 7), .deliver,
      .give (chunkFrame 1)]).framesMissed = 3 ∧
    (run Reader.step {} [.give (chunkFrame 3), .deliver, .give (chunkFrame 7), .deliver,
      .give (chunkFrame 1)]).delivery.Balanced :=
  ⟨by decide, ((frames_accounted [] _).2.1 (by decide)).2⟩

/-- After the block with the last id, the next one's arithmetic overflows. -/
theorem last_id_overflows :
    missedSince (some (2 ^ 64 - 1)) 5 = none ∧ skipped (2 ^ 64 - 1) 5 = 0 ∧
      (run Reader.step {} [.give (chunkFrame (2 ^ 64 - 1)), .deliver,
        .give (chunkFrame 5)]).overflowed = true := by
  decide

end VivaGenicam.U3v
