import VivaGenicam.Library.Transition
import VivaGenicam.U3v.Pairing

/-!
Every leader a stream takes in opens one block, and every block is handed out
once, in the order of the leaders. What a frame holds is said by the events
between its leader and its trailer alone.
-/

namespace VivaGenicam.U3v

open Library.Transition

/-- The leader an event takes in, if it is one. -/
def Event.opens (layout : StreamLayout) : Event → Option Leader
  | .absorbed data _ _ _ => layout.asLeader data
  | .gaveUp => none

def leadersOf (layout : StreamLayout) (events : List Event) : List Leader :=
  events.filterMap (Event.opens layout)

/-- A transfer that is neither a leader nor a trailer. -/
def Event.Between (layout : StreamLayout) : Event → Prop
  | .absorbed data _ _ _ => layout.asLeader data = none ∧ layout.asTrailer data = none
  | .gaveUp => False

def Event.payload? : Event → Option (List UInt8)
  | .absorbed data _ _ (.payload _) => some data
  | _ => none

/-- Whether an event counted a transfer as skipped. -/
def Event.skips : Event → Bool
  | .absorbed _ _ _ .skipped | .absorbed _ _ _ (.payload true) => true
  | _ => false

/-- What a transfer turned out to be is what its bytes say. -/
def Event.Sound (layout : StreamLayout) : Event → Prop
  | .absorbed data _ _ .leader => (layout.asLeader data).isSome = true
  | .absorbed data _ _ .trailer => (layout.asTrailer data).isSome = true
  | .absorbed data _ _ (.payload _) => layout.asLeader data = none ∧ layout.asTrailer data = none
  | .absorbed data _ _ .skipped => layout.asLeader data = none
  | .gaveUp => True

/-- The payload transfers at the front of a block's transfers: up to the first
that came short, or that filled the block. -/
def payloadTransfers (capacity : Nat) : Nat → List Event → List (List UInt8)
  | received, .absorbed data _ requested _ :: rest =>
    if received < capacity then
      data ::
        if data.length < requested then []
        else payloadTransfers capacity (received + data.length) rest
    else []
  | _, _ => []

/-- Whether payload is due after a block's transfers. -/
def payloadDue (capacity : Nat) : Nat → List Event → Bool
  | received, [] => decide (received < capacity)
  | received, .absorbed data _ requested _ :: rest =>
    decide (received < capacity) && !decide (data.length < requested) &&
      payloadDue capacity (received + data.length) rest
  | _, .gaveUp :: _ => false

/-- After `events`, the leader after the first `count` was `leader`; `transfers`
came after it, and `later` after those. -/
structure Opened (layout : StreamLayout) (events : List Event) (count : Nat) (leader : Leader)
    (transfers later : List Event) : Prop where
  split : ∃ before data submitted requested,
    events = before ++ .absorbed data submitted requested .leader :: (transfers ++ later) ∧
      layout.asLeader data = some leader ∧ (leadersOf layout before).length = count
  between : ∀ event ∈ transfers, event.Between layout
  placed : transfers.filterMap Event.payload? =
    payloadTransfers layout.payloadCapacity 0 transfers

/-- The payload of a block after `transfers`. -/
def payloadOf (layout : StreamLayout) (transfers : List Event) : List UInt8 :=
  (payloadTransfers layout.payloadCapacity 0 transfers).flatten.take layout.payloadCapacity

/-- How `frame` was closed: by the trailer right after its transfers, or by none. -/
def Closed (layout : StreamLayout) (frame : RawFrame) (transfers later : List Event) : Prop :=
  match frame.trailer with
  | none => frame.payload = payloadOf layout transfers
  | some trailer =>
    trailer.blockId = frame.leader.blockId ∧
      frame.payload = (payloadTransfers layout.payloadCapacity 0 transfers).flatten.take
        (min layout.payloadCapacity trailer.validPayloadSize) ∧
      ∃ data submitted requested rest,
        later = .absorbed data submitted requested .trailer :: rest ∧
          layout.asTrailer data = some trailer

/-- `frame` is the block of the leader after the first `count`. -/
def HandedOut (layout : StreamLayout) (events : List Event) (count : Nat) (frame : RawFrame) :
    Prop :=
  ∃ transfers later,
    Opened layout events count frame.leader transfers later ∧ Closed layout frame transfers later

/-- `block` is the block of the last leader. -/
def InProgress (layout : StreamLayout) (events : List Event) (count : Nat) (block : Block) :
    Prop :=
  ∃ transfers,
    Opened layout events count block.leader transfers [] ∧
      block.payload = payloadOf layout transfers ∧
      (!block.ended && decide (block.payload.length < layout.payloadCapacity)) =
        payloadDue layout.payloadCapacity 0 transfers

/-- Frames, in the order they were finished, and the block in progress are the
blocks of the leaders taken in. -/
structure Blocks (layout : StreamLayout) (frames : List RawFrame) (block : Option Block)
    (events : List Event) : Prop where
  order : frames.map (·.leader) ++ block.toList.map (·.leader) = leadersOf layout events
  exact : ∀ count frame, frames[count]? = some frame → HandedOut layout events count frame
  progress : ∀ opened ∈ block, InProgress layout events frames.length opened
  sound : ∀ event ∈ events, event.Sound layout

theorem payloadTransfers_concat (capacity : Nat) (transfers : List Event) :
    ∀ (received : Nat) (data : List UInt8) (submitted requested : Nat) (fate : Fate),
      (∀ event ∈ transfers, event ≠ .gaveUp) →
      payloadTransfers capacity received
          (transfers ++ [.absorbed data submitted requested fate]) =
        payloadTransfers capacity received transfers ++
          if payloadDue capacity received transfers then [data] else [] := by
  induction transfers with
  | nil =>
    intro received data submitted requested fate _
    simp only [List.nil_append, payloadTransfers, payloadDue, decide_eq_true_eq, ite_self]
  | cons event rest ih =>
    intro received data submitted requested fate hevents
    have hrest : ∀ event ∈ rest, event ≠ .gaveUp := fun event hmem =>
      hevents event (List.mem_cons_of_mem _ hmem)
    cases event with
    | gaveUp => exact absurd rfl (hevents _ List.mem_cons_self)
    | absorbed bytes size asked kind =>
      simp only [List.cons_append, payloadTransfers, payloadDue]
      split
      · split
        · simp_all
        · rw [ih _ data submitted requested fate hrest]
          simp_all
      · simp_all

theorem payloadDue_concat (capacity : Nat) (transfers : List Event) :
    ∀ (received : Nat) (data : List UInt8) (submitted requested : Nat) (fate : Fate),
      payloadDue capacity received (transfers ++ [.absorbed data submitted requested fate]) =
        (payloadDue capacity received transfers && !decide (data.length < requested) &&
          decide (received + (payloadTransfers capacity received transfers).flatten.length +
            data.length < capacity)) := by
  induction transfers with
  | nil =>
    intro received data submitted requested fate
    simp [payloadTransfers, payloadDue]
  | cons event rest ih =>
    intro received data submitted requested fate
    cases event with
    | gaveUp => simp [payloadDue]
    | absorbed bytes size asked kind =>
      simp only [List.cons_append, payloadTransfers, payloadDue]
      rw [ih]
      by_cases hroom : received < capacity
      · by_cases hshort : bytes.length < asked
        · simp [hshort]
        · simp [hroom, hshort, Nat.add_assoc]
      · simp [hroom]

theorem flatten_lt_of_due (capacity : Nat) (transfers : List Event) :
    ∀ received, payloadDue capacity received transfers = true →
      received + (payloadTransfers capacity received transfers).flatten.length < capacity := by
  induction transfers with
  | nil =>
    intro received hdue
    simpa [payloadTransfers, payloadDue] using hdue
  | cons event rest ih =>
    intro received hdue
    cases event with
    | gaveUp => cases hdue
    | absorbed bytes size asked kind =>
      simp only [payloadDue, Bool.and_eq_true, decide_eq_true_eq, Bool.not_eq_true',
        decide_eq_false_iff_not] at hdue
      have := ih _ hdue.2
      simp only [payloadTransfers, if_pos hdue.1.1, if_neg hdue.1.2, List.flatten_cons,
        List.length_append]
      omega

/-! The blocks, one event at a time. -/

variable {data : List UInt8} {event : Event} {opened : Block}

section Events

variable {layout : StreamLayout} {frames : List RawFrame} {block : Option Block}
  {events : List Event}

theorem leadersOf_concat (event : Event) :
    leadersOf layout (events ++ [event]) =
      leadersOf layout events ++ (event.opens layout).toList := by
  rw [leadersOf, List.filterMap_append]
  cases hopens : event.opens layout <;> simp [leadersOf, hopens]

variable {count : Nat} {leader : Leader} {transfers : List Event}

theorem Opened.later {later : List Event}
    (h : Opened layout events count leader transfers later) (event : Event) :
    Opened layout (events ++ [event]) count leader transfers (later ++ [event]) := by
  obtain ⟨before, data, submitted, requested, rfl, hleader, hcount⟩ := h.split
  refine ⟨⟨before, data, submitted, requested, ?_, hleader, hcount⟩, h.between, h.placed⟩
  simp only [List.append_assoc, List.cons_append]

variable {frame : RawFrame}

theorem Closed.later {later : List Event}
    (h : Closed layout frame transfers later) (event : Event) :
    Closed layout frame transfers (later ++ [event]) := by
  unfold Closed at h ⊢
  split at h
  · exact h
  · obtain ⟨hid, hpayload, data, submitted, requested, rest, rfl, htrailer⟩ := h
    exact ⟨hid, hpayload, data, submitted, requested, rest ++ [event], rfl, htrailer⟩

theorem HandedOut.later (h : HandedOut layout events count frame)
    (event : Event) : HandedOut layout (events ++ [event]) count frame := by
  obtain ⟨transfers, later, hopened, hclosed⟩ := h
  exact ⟨transfers, later ++ [event], hopened.later event, hclosed.later event⟩

theorem Opened.extend (h : Opened layout events count leader transfers [])
    {submitted requested : Nat} {fate : Fate}
    (hbetween : layout.asLeader data = none ∧ layout.asTrailer data = none)
    (hfate : (Event.absorbed data submitted requested fate).payload? =
      if payloadDue layout.payloadCapacity 0 transfers then some data else none) :
    Opened layout (events ++ [.absorbed data submitted requested fate]) count leader
      (transfers ++ [.absorbed data submitted requested fate]) [] := by
  obtain ⟨before, bytes, size, asked, rfl, hleader, hcount⟩ := h.split
  refine ⟨⟨before, bytes, size, asked, by simp, hleader, hcount⟩, ?_, ?_⟩
  · intro event hevent
    rcases List.mem_append.mp hevent with hold | hnew
    · exact h.between event hold
    · rw [List.mem_singleton.mp hnew]
      exact hbetween
  · rw [List.filterMap_append, h.placed, payloadTransfers_concat]
    · cases hdue : payloadDue layout.payloadCapacity 0 transfers <;>
        simp [hdue, hfate]
    · rintro event hevent rfl
      exact h.between _ hevent

theorem handedOut_concat
    (hframes : ∀ count other, frames[count]? = some other → HandedOut layout events count other)
    (hframe : HandedOut layout events frames.length frame) :
    ∀ count other, (frames ++ [frame])[count]? = some other →
      HandedOut layout events count other := by
  intro count other hother
  rw [List.getElem?_append] at hother
  split at hother
  · exact hframes count other hother
  · rename_i hle
    rw [List.getElem?_singleton] at hother
    split at hother
    · cases hother
      rwa [show count = frames.length by omega]
    · cases hother

namespace Blocks

variable (h : Blocks layout frames block events)

include h

theorem sound_concat (hsound : event.Sound layout) :
    ∀ other ∈ events ++ [event], other.Sound layout := by
  intro other hother
  rcases List.mem_append.mp hother with hold | hnew
  · exact h.sound other hold
  · rw [List.mem_singleton.mp hnew]
    exact hsound

theorem note {after : Option Block} (hopens : event.opens layout = none)
    (hsound : event.Sound layout)
    (hleader : after.toList.map (·.leader) = block.toList.map (·.leader))
    (hprogress : ∀ opened ∈ after, InProgress layout (events ++ [event]) frames.length opened) :
    Blocks layout frames after (events ++ [event]) where
  order := by rw [hleader, h.order, leadersOf_concat, hopens, Option.toList_none, List.append_nil]
  exact := fun count frame hframe => (h.exact count frame hframe).later event
  progress := hprogress
  sound := h.sound_concat hsound

theorem handOut (hblock : block = some opened) (hleader : frame.leader = opened.leader)
    (hexact : HandedOut layout events frames.length frame) :
    Blocks layout (frames ++ [frame]) none events where
  order := by
    have := h.order
    rw [hblock] at this
    rw [← this, List.map_append, List.map_singleton, hleader]
    simp
  exact := handedOut_concat h.exact hexact
  progress := nofun
  sound := h.sound

theorem opens (hnone : block = none)
    (hleader : layout.asLeader data = some leader) (submitted requested : Nat) (now : Nat) :
    Blocks layout frames
      (some { leader, payload := [], ended := decide (layout.payloadCapacity = 0), last := now })
      (events ++ [.absorbed data submitted requested .leader]) where
  order := by
    have := h.order
    rw [hnone] at this
    rw [leadersOf_concat, ← this]
    simp [Event.opens, hleader]
  exact := fun count frame hframe => (h.exact count frame hframe).later _
  progress := by
    intro opened hopened
    rw [Option.mem_some_iff] at hopened
    subst hopened
    refine ⟨[], ⟨⟨events, data, submitted, requested, rfl, hleader, ?_⟩, nofun, rfl⟩, ?_, ?_⟩
    · have := congrArg List.length h.order
      rw [hnone] at this
      simpa using this.symm
    · simp [payloadOf, payloadTransfers]
    · simp [payloadDue, Nat.pos_iff_ne_zero]
  sound := h.sound_concat (by simp only [Event.Sound, hleader, Option.isSome_some])

end Blocks

theorem InProgress.givenUp (h : InProgress layout events frames.length opened) :
    HandedOut layout events frames.length
      { leader := opened.leader, payload := opened.payload, trailer := none } := by
  obtain ⟨transfers, hopened, hpayload, -⟩ := h
  exact ⟨transfers, [], hopened, hpayload⟩

theorem InProgress.finished (h : InProgress layout events frames.length opened)
    {trailer : Trailer} (htrailer : layout.asTrailer data = some trailer)
    (hid : trailer.blockId = opened.leader.blockId) (submitted requested : Nat) :
    HandedOut layout (events ++ [.absorbed data submitted requested .trailer]) frames.length
      { leader := opened.leader, payload := opened.payload.take trailer.validPayloadSize
        trailer := some trailer } := by
  obtain ⟨transfers, hopened, hpayload, -⟩ := h
  refine ⟨transfers, _, hopened.later _, hid, ?_, data, submitted, requested, [], rfl, htrailer⟩
  rw [hpayload, payloadOf, List.take_take, Nat.min_comm]

theorem payloadOf_length_le (transfers : List Event) :
    (payloadOf layout transfers).length ≤ layout.payloadCapacity := by
  unfold payloadOf
  rw [List.length_take]
  exact min_le_left _ _

theorem InProgress.place (h : InProgress layout events frames.length opened)
    (hbetween : layout.asLeader data = none ∧ layout.asTrailer data = none)
    (hdue : (!opened.ended && decide (opened.payload.length < layout.payloadCapacity)) = true)
    (submitted requested now : Nat) :
    InProgress layout
      (events ++ [.absorbed data submitted requested
        (.payload (decide (data.length > layout.payloadCapacity - opened.payload.length)))])
      frames.length
      { opened with
        payload := opened.payload ++
          data.take (min data.length (layout.payloadCapacity - opened.payload.length))
        ended := decide (data.length < requested) ||
          decide (data.length ≥ layout.payloadCapacity - opened.payload.length)
        last := now } := by
  obtain ⟨transfers, hopened, hpayload, hopenDue⟩ := h
  have hopenDue := hopenDue.symm.trans hdue
  have hfits := flatten_lt_of_due _ transfers 0 hopenDue
  rw [Nat.zero_add] at hfits
  have hall : opened.payload =
      (payloadTransfers layout.payloadCapacity 0 transfers).flatten := by
    rw [hpayload, payloadOf, List.take_of_length_le hfits.le]
  have hplain : ∀ event ∈ transfers, event ≠ .gaveUp := by
    rintro event hevent rfl
    exact hopened.between _ hevent
  refine ⟨_, hopened.extend hbetween (by simp only [Event.payload?, hopenDue, if_true]), ?_, ?_⟩
  · have hwhole : opened.payload.take layout.payloadCapacity = opened.payload := by
      rw [List.take_of_length_le]
      rw [hall]
      exact hfits.le
    rw [payloadOf, payloadTransfers_concat _ _ _ _ _ _ _ hplain, hopenDue, if_pos rfl,
      List.flatten_append, ← hall, List.take_append, hwhole]
    simp only [List.flatten_cons, List.flatten_nil, List.append_nil]
    congr 1
    rw [List.take_eq_take_iff]
    omega
  · rw [payloadDue_concat, hopenDue, ← hall]
    simp only [List.length_append, List.length_take]
    rw [Bool.eq_iff_iff]
    simp only [Bool.and_eq_true, Bool.not_eq_true', Bool.or_eq_false_iff, decide_eq_false_iff_not,
      decide_eq_true_eq, Bool.true_and]
    rw [hall] at *
    omega

theorem InProgress.skip (h : InProgress layout events frames.length opened)
    (hbetween : layout.asLeader data = none ∧ layout.asTrailer data = none)
    (hdue : (!opened.ended && decide (opened.payload.length < layout.payloadCapacity)) = false)
    (submitted requested : Nat) :
    InProgress layout (events ++ [.absorbed data submitted requested .skipped]) frames.length
      opened := by
  obtain ⟨transfers, hopened, hpayload, hopenDue⟩ := h
  have hnot := hopenDue.symm.trans hdue
  have hplain : ∀ event ∈ transfers, event ≠ .gaveUp := by
    rintro event hevent rfl
    exact hopened.between _ hevent
  refine ⟨_, hopened.extend hbetween (by simp [Event.payload?, hnot]), ?_, ?_⟩
  · rw [hpayload, payloadOf, payloadOf, payloadTransfers_concat _ _ _ _ _ _ _ hplain, hnot]
    simp
  · rw [payloadDue_concat, hopenDue, hnot]
    rfl

end Events

/-- The bytes of the transfer an event took in. -/
def Event.transfer? : Event → Option (List UInt8)
  | .absorbed data _ _ _ => some data
  | .gaveUp => none

def Outcome.frame? : Outcome → Option RawFrame
  | .returned (.ok frame) => frame
  | _ => none

namespace U3vStream

/-- What a stream has made of the transfers it took in; `handed` are the frames
it has returned. -/
structure Conserved (handed : List RawFrame) (stream : U3vStream) : Prop where
  blocks : Blocks stream.layout (handed ++ stream.ready) stream.block stream.events
  skipped_eq : stream.counters.transfersSkipped = stream.events.countP Event.skips
  abandoned_eq : stream.counters.blocksAbandoned =
    (handed ++ stream.ready).countP (·.trailer.isNone)

/-- Every transfer with bytes that came back without failing was taken in. -/
def Complete (stream : U3vStream) : Prop :=
  (stream.events.filterMap Event.transfer?).filter (!·.isEmpty) =
    stream.arrived.filter (!·.isEmpty)

section Operations

variable {handed : List RawFrame} {stream : U3vStream}

theorem abandon_block (stream : U3vStream) : stream.abandon.block = none := by
  obtain ⟨ready, counters, heq⟩ := stream.abandon_eq
  rw [heq]

theorem Conserved.abandon (h : stream.Conserved handed) : stream.abandon.Conserved handed := by
  unfold U3vStream.abandon
  split
  · exact h
  · rename_i opened hblock
    refine ⟨?_, h.skipped_eq, ?_⟩
    · dsimp only
      rw [← List.append_assoc]
      exact h.blocks.handOut hblock rfl (h.blocks.progress opened hblock).givenUp
    · dsimp only
      rw [← List.append_assoc, List.countP_append, ← h.abandoned_eq]
      rfl

theorem Conserved.idle (h : stream.Conserved handed) (hblock : stream.block = none)
    (hopens : event.opens stream.layout = none) (hsound : event.Sound stream.layout)
    (hskips : event.skips = false) : (stream.note event).Conserved handed where
  blocks := h.blocks.note hopens hsound rfl (by
    intro opened hopened
    rw [show (stream.note event).block = none from hblock] at hopened
    cases hopened)
  skipped_eq := by
    simp only [note, List.countP_append, List.countP_singleton, hskips]
    exact h.skipped_eq
  abandoned_eq := h.abandoned_eq

theorem Conserved.gaveUp (h : stream.Conserved handed) :
    (stream.abandon.note .gaveUp).Conserved handed :=
  h.abandon.idle stream.abandon_block rfl trivial rfl

theorem Conserved.finish (h : stream.Conserved handed)
    (hblock : stream.block = some opened) {trailer : Trailer}
    (hleader : stream.layout.asLeader data = none)
    (htrailer : stream.layout.asTrailer data = some trailer) (submitted requested : Nat) :
    ((stream.finish trailer).note
      (.absorbed data submitted requested .trailer)).Conserved handed := by
  have hsound : (Event.absorbed data submitted requested .trailer).Sound stream.layout := by
    simp only [Event.Sound, htrailer, Option.isSome_some]
  unfold U3vStream.finish
  rw [hblock]
  dsimp only
  split
  · have hlayout : stream.abandon.layout = stream.layout := by
      obtain ⟨ready, counters, heq⟩ := stream.abandon_eq
      rw [heq]
    exact h.abandon.idle stream.abandon_block (by rw [hlayout]; exact hleader)
      (by rw [hlayout]; exact hsound) rfl
  · rename_i hid
    refine ⟨?_, ?_, ?_⟩
    · simp only [U3vStream.note]
      rw [← List.append_assoc]
      have hframe := (h.blocks.progress opened hblock).finished htrailer (not_not.mp hid)
        submitted requested
      refine ⟨?_, ?_, fun other hother => absurd hother (by simp), h.blocks.sound_concat hsound⟩
      · have := h.blocks.order
        rw [hblock] at this
        rw [leadersOf_concat, ← this]
        simp [Event.opens, hleader]
      · exact handedOut_concat (fun count other hother =>
          (h.blocks.exact count other hother).later _) hframe
    · simp only [U3vStream.note, List.countP_append, List.countP_singleton]
      exact h.skipped_eq
    · simp only [U3vStream.note]
      rw [← List.append_assoc, List.countP_append]
      exact h.abandoned_eq

theorem Conserved.absorb (h : stream.Conserved handed) (data : List UInt8)
    (submitted requested : Nat) (now : Instant) :
    (stream.absorb data submitted requested now).Conserved handed := by
  unfold U3vStream.absorb
  dsimp only
  split
  · rename_i leader hleader
    have habandoned := h.abandon
    have hlayout : stream.abandon.layout = stream.layout := by
      obtain ⟨ready, counters, heq⟩ := stream.abandon_eq
      rw [heq]
    rw [← hlayout] at hleader ⊢
    refine ⟨habandoned.blocks.opens stream.abandon_block hleader submitted requested now, ?_,
      habandoned.abandoned_eq⟩
    simp only [note, List.countP_append, List.countP_singleton]
    exact habandoned.skipped_eq
  · rename_i opened trailer hblock hleader htrailer
    exact h.finish hblock hleader htrailer submitted requested
  · rename_i opened hblock hleader htrailer
    have hprogress := h.blocks.progress opened hblock
    split
    · rename_i hdue
      have hplaced := hprogress.place ⟨hleader, htrailer⟩ hdue submitted requested now
      have hpayload : ∀ ended : Bool,
          (if opened.payload.isEmpty && ended && decide (data.length ≤
              stream.layout.payloadCapacity - opened.payload.length) then data
            else opened.payload ++ data.take (min data.length
              (stream.layout.payloadCapacity - opened.payload.length))) =
          opened.payload ++ data.take (min data.length
            (stream.layout.payloadCapacity - opened.payload.length)) := by
        intro ended
        split
        · rename_i hwhole
          simp only [Bool.and_eq_true, List.isEmpty_iff, decide_eq_true_eq] at hwhole
          rw [hwhole.1.1, List.nil_append, List.take_of_length_le]
          rw [hwhole.1.1] at hwhole
          exact le_min le_rfl hwhole.2
        · rfl
      rw [hpayload]
      generalize decide (data.length > stream.layout.payloadCapacity - opened.payload.length) =
        overfull at hplaced ⊢
      cases overfull
      all_goals
        refine ⟨h.blocks.note hleader ⟨hleader, htrailer⟩ (by rw [hblock]; rfl) ?_, ?_,
          h.abandoned_eq⟩
      · intro other hother
        cases hother
        exact hplaced
      · simp only [note, List.countP_append, List.countP_singleton]
        exact h.skipped_eq
      · intro other hother
        cases hother
        exact hplaced
      · simp only [note, skip, if_true, List.countP_append, List.countP_singleton, h.skipped_eq]
        rfl
    · rename_i hdue
      refine ⟨h.blocks.note hleader hleader rfl ?_, ?_, h.abandoned_eq⟩
      · intro other hother
        have hother : other ∈ stream.block := hother
        rw [hblock, Option.mem_some_iff] at hother
        subst hother
        exact hprogress.skip ⟨hleader, htrailer⟩ (Bool.eq_false_of_not_eq_true hdue) submitted
          requested
      · simp only [note, skip, List.countP_append, List.countP_singleton, h.skipped_eq]
        rfl
  · rename_i hblock hleader
    refine ⟨h.blocks.note hleader hleader rfl ?_, ?_, h.abandoned_eq⟩
    · intro other hother
      have hother : other ∈ stream.block := hother
      rw [hblock] at hother
      cases hother
    · simp only [note, skip, List.countP_append, List.countP_singleton, h.skipped_eq]
      rfl

end Operations

/-- What holds between two transfers. -/
structure Held (layout : StreamLayout) (handed : List RawFrame) (stream : U3vStream) : Prop where
  layout_eq : stream.layout = layout
  conserved : stream.Conserved handed
  complete : stream.Complete

section Transfers

variable {layout : StreamLayout} {handed : List RawFrame} {stream : U3vStream}

theorem Held.gaveUp (h : stream.Held layout handed) : (stream.abandon.note .gaveUp).Held layout handed := by
  have hgaveUp := h.conserved.gaveUp
  obtain ⟨ready, counters, heq⟩ := stream.abandon_eq
  rw [heq] at hgaveUp ⊢
  refine ⟨h.layout_eq, hgaveUp, ?_⟩
  simp only [Complete, note, List.filterMap_append]
  exact (congrArg _ (List.append_nil _)).trans h.complete

theorem Held.absorb (h : stream.Held layout handed) (completion : Completion)
    (hok : completion.failed = false) (submitted requested : Nat) :
    ((stream.arrive completion).count.absorb completion.data submitted requested
      completion.now).Held layout handed := by
  have harrived : (stream.arrive completion).count.Conserved handed :=
    ⟨h.conserved.blocks, h.conserved.skipped_eq, h.conserved.abandoned_eq⟩
  have habsorbed := harrived.absorb completion.data submitted requested completion.now
  obtain ⟨block, ready, counters, failures, fate, heq⟩ :=
    (stream.arrive completion).count.absorb_eq completion.data submitted requested completion.now
  have hcomplete := h.complete
  unfold Complete at hcomplete
  rw [heq] at habsorbed ⊢
  refine ⟨h.layout_eq, habsorbed, ?_⟩
  simp only [Complete, count, arrive, hok, List.filterMap_append, List.filter_append, hcomplete]
  rfl

theorem Held.recover (h : stream.Held layout handed) (error : U3vError)
    (drain : Nat → Option Completion) (aftermath : Aftermath) :
    (stream.recover error drain aftermath).2.Held layout handed := by
  have hgaveUp : ∀ (transferErrors failures : Nat),
      (({ stream with
          counters := { stream.counters with transferErrors }
          failures } : U3vStream).abandon.note .gaveUp).Held layout handed :=
    fun transferErrors failures => Held.gaveUp
      ⟨h.layout_eq, ⟨h.conserved.blocks, h.conserved.skipped_eq, h.conserved.abandoned_eq⟩, h.complete⟩
  have hkept := hgaveUp (stream.counters.transferErrors + 1) (stream.failures + 1)
  unfold U3vStream.recover
  dsimp only
  split
  · exact h
  · split
    · exact hkept
    · split
      · exact ⟨hkept.layout_eq, ⟨hkept.conserved.blocks, hkept.conserved.skipped_eq, hkept.conserved.abandoned_eq⟩,
          hkept.complete⟩
      · split
        all_goals
          exact ⟨hkept.layout_eq, ⟨hkept.conserved.blocks, hkept.conserved.skipped_eq,
            hkept.conserved.abandoned_eq⟩, hkept.complete⟩

theorem Held.complete_step (h : stream.Held layout handed) (completion : Completion)
    (submitted requested : Nat) (cancelling : Bool) (drain : Nat → Option Completion)
    (aftermath : Aftermath) :
    (stream.complete completion submitted requested cancelling drain aftermath).2.Held layout handed := by
  have habsorb := fun hok => h.absorb completion hok submitted requested
  have hfailing : completion.failed = true → (stream.arrive completion).Held layout handed := by
    intro hfailed
    refine ⟨h.layout_eq, ⟨h.conserved.blocks, h.conserved.skipped_eq, h.conserved.abandoned_eq⟩, ?_⟩
    simp only [Complete, arrive, hfailed, if_true, List.append_nil]
    exact h.complete
  unfold U3vStream.complete
  dsimp only
  split
  · rename_i hstatus
    exact habsorb (by simp only [Completion.failed, hstatus])
  · rename_i hstatus
    have hok : completion.failed = false := by simp only [Completion.failed, hstatus]
    split
    · split
      · rename_i hempty
        refine ⟨h.layout_eq, ⟨h.conserved.blocks, h.conserved.skipped_eq, h.conserved.abandoned_eq⟩, ?_⟩
        have hcomplete := h.complete
        unfold Complete at hcomplete
        simp [Complete, arrive, hok, List.filter_append, List.isEmpty_iff.mp hempty, hcomplete]
      · exact habsorb hok
    · exact (habsorb hok).recover _ _ _
  · rename_i hstatus
    exact hfailing (by simp only [Completion.failed, hstatus])
  · rename_i error hcancelled hdisconnected hstatus
    have hfailed : completion.failed = true := by
      unfold Completion.failed
      split
      · rename_i hok
        rw [hstatus] at hok
        cases hok
      · rename_i hcancel
        rw [hstatus, Except.error.injEq] at hcancel
        exact absurd hcancel hcancelled
      · rfl
    have hcounted := hfailing hfailed
    exact @Held.recover layout handed (stream.arrive completion).count
      ⟨hcounted.layout_eq, ⟨hcounted.conserved.blocks, hcounted.conserved.skipped_eq,
        hcounted.conserved.abandoned_eq⟩, hcounted.complete⟩ _ _ _

theorem Held.waitNext (h : stream.Held layout handed) {answer : Option Completion} {submitted : Nat}
    {completion : Completion} {later : U3vStream}
    (hwait : stream.waitNext answer = some (submitted, completion, later)) :
    ({ later with planned := later.planned.tail } : U3vStream).Held layout handed := by
  obtain ⟨queue, -, -, rfl⟩ := waitNext_some hwait
  exact ⟨h.layout_eq, ⟨h.conserved.blocks, h.conserved.skipped_eq, h.conserved.abandoned_eq⟩, h.complete⟩

end Transfers

section Loops

variable {layout : StreamLayout} {handed : List RawFrame}

theorem Held.replanLoop (aftermath : Aftermath) (fuel : Nat) :
    ∀ {stream : U3vStream} (drain : Nat → Option Completion), stream.Held layout handed →
      (U3vStream.replanLoop aftermath fuel drain stream).2.Held layout handed := by
  induction fuel with
  | zero => exact fun _ h => h
  | succ fuel ih =>
    intro stream drain h
    unfold U3vStream.replanLoop
    split
    · exact h
    · rename_i submitted completion taken hwait
      have hstep := (h.waitNext hwait).complete_step completion submitted
        (taken.plannedSize completion) true (fun wait => drain (wait + 1)) aftermath
      dsimp only
      split
      · rename_i heq
        rw [heq] at hstep
        exact hstep
      · rename_i heq
        rw [heq] at hstep
        split
        · exact hstep
        · exact ih _ hstep

variable {stream : U3vStream}

theorem Held.settle (h : stream.Held layout handed)
    (drain : Nat → Option Completion) (aftermath : Aftermath) :
    (stream.settle drain aftermath).2.Held layout handed := by
  unfold U3vStream.settle
  split
  · exact ⟨h.layout_eq, ⟨h.conserved.blocks, h.conserved.skipped_eq, h.conserved.abandoned_eq⟩, h.complete⟩
  · split
    · have hloop := h.replanLoop aftermath stream.queue.length drain
      unfold replan
      split
      all_goals
        rename_i heq
        rw [heq] at hloop
      · exact hloop
      · exact hloop
      · exact ⟨hloop.layout_eq, ⟨hloop.conserved.blocks, hloop.conserved.skipped_eq,
          hloop.conserved.abandoned_eq⟩, hloop.complete⟩
    · exact h

theorem Held.fill (h : stream.Held layout handed) : stream.fill.Held layout handed := by
  unfold U3vStream.fill
  generalize stream.inFlight - stream.queue.length = count
  induction count generalizing stream with
  | zero => exact h
  | succ count ih =>
    rw [Function.iterate_succ_apply]
    exact ih ⟨h.layout_eq, ⟨h.conserved.blocks, h.conserved.skipped_eq, h.conserved.abandoned_eq⟩, h.complete⟩

theorem Held.turn (h : stream.Held layout handed) (turn : Turn) :
    (stream.turn turn).2.Held layout handed := by
  have hfilled := h.fill
  unfold U3vStream.turn
  dsimp only
  split
  · split
    · exact hfilled.gaveUp
    · exact hfilled
  · rename_i submitted completion taken hwait
    have hstep := (hfilled.waitNext hwait).complete_step completion submitted
      (taken.plannedSize completion) false turn.drain turn.aftermath
    split
    · rename_i heq
      rw [heq] at hstep
      exact hstep
    · rename_i heq
      rw [heq] at hstep
      have hsettled := hstep.settle turn.drain turn.aftermath
      split
      all_goals
        rename_i hsettle
        rw [hsettle] at hsettled
        exact hsettled

theorem Held.nextFrameWithin (turns : List Turn) :
    ∀ {stream : U3vStream}, stream.Held layout handed →
      (stream.nextFrameWithin turns).2.Held layout
        (handed ++ (stream.nextFrameWithin turns).1.frame?.toList) := by
  have hready : ∀ (stream : U3vStream) (frame : RawFrame) (ready : List RawFrame),
      stream.Held layout handed → stream.ready = frame :: ready →
      ({ stream with ready } : U3vStream).Held layout (handed ++ [frame]) := by
    intro stream frame ready h heq
    have hframes : handed ++ stream.ready = handed ++ [frame] ++ ready := by
      rw [heq, List.append_assoc, List.singleton_append]
    refine ⟨h.layout_eq, ⟨?_, h.conserved.skipped_eq, ?_⟩, h.complete⟩
    · exact hframes ▸ h.conserved.blocks
    · exact hframes ▸ h.conserved.abandoned_eq
  induction turns with
  | nil =>
    intro stream h
    unfold U3vStream.nextFrameWithin
    split
    · rename_i frame ready heq
      exact hready stream frame ready h heq
    · simpa [Outcome.frame?] using h
    · cases ‹[] = _ :: _›
  | cons first rest ih =>
    intro stream h
    have hturn := h.turn first
    unfold U3vStream.nextFrameWithin
    split
    · rename_i frame ready heq
      exact hready stream frame ready h heq
    · cases ‹_ :: _ = []›
    · rename_i heq
      obtain ⟨rfl, rfl⟩ := heq
      split
      · rename_i later heq
        rw [heq] at hturn
        simpa [Outcome.frame?] using hturn
      · rename_i error later heq
        rw [heq] at hturn
        simpa [Outcome.frame?] using hturn
      · rename_i later heq
        rw [heq] at hturn
        exact ih hturn

end Loops

end U3vStream

/-- A stream with the frames its calls returned. -/
structure Session where
  stream : U3vStream
  handed : List RawFrame := []

namespace Session

def call (session : Session) (call : Call) : Session where
  stream := (session.stream.call call).2
  handed := session.handed ++ (session.stream.call call).1.frame?.toList

/-- The session after calls on a stream just opened, whatever they returned. -/
def after (layout : StreamLayout) (calls : List Call) : Session :=
  run Session.call { stream := { layout } } calls

/-- The frames in the order they were finished. -/
def frames (session : Session) : List RawFrame := session.handed ++ session.stream.ready

/-- Each block is handed out once, and each transfer has one fate. -/
structure Laws (layout : StreamLayout) (session : Session) : Prop where
  order : session.frames.map (·.leader) ++ session.stream.block.toList.map (·.leader) =
    leadersOf layout session.stream.events
  frame_exact : ∀ count frame, session.frames[count]? = some frame →
    HandedOut layout session.stream.events count frame
  frame_le : ∀ frame ∈ session.frames, frame.payload.length ≤ layout.payloadCapacity
  block_le : ∀ block ∈ session.stream.block, block.payload.length ≤ layout.payloadCapacity
  abandoned : session.stream.counters.blocksAbandoned =
    session.frames.countP (·.trailer.isNone)
  /-- Each transfer that came back without failing is an event, but for empty
  ones and those that came back while a failure was recovered from. -/
  arrived : (session.stream.events.filterMap Event.transfer?).filter (!·.isEmpty) =
    session.stream.arrived.filter (!·.isEmpty)
  sound : ∀ event ∈ session.stream.events, event.Sound layout
  skipped : session.stream.counters.transfersSkipped = session.stream.events.countP Event.skips

theorem held_call {layout : StreamLayout} {session : Session}
    (h : session.stream.Held layout session.handed) (call : Call) :
    (session.call call).stream.Held layout (session.call call).handed := by
  cases call with
  | nextFrameWithin turns => exact h.nextFrameWithin turns
  | setTimeout timeout =>
    simp only [Session.call, U3vStream.call, Outcome.frame?, Option.toList_none, List.append_nil]
    exact ⟨h.layout_eq, ⟨h.conserved.blocks, h.conserved.skipped_eq, h.conserved.abandoned_eq⟩, h.complete⟩
  | setTransfersInFlight transfers =>
    simp only [Session.call, U3vStream.call, Outcome.frame?, Option.toList_none, List.append_nil]
    exact ⟨h.layout_eq, ⟨h.conserved.blocks, h.conserved.skipped_eq, h.conserved.abandoned_eq⟩, h.complete⟩

theorem held_after (layout : StreamLayout) (calls : List Call) :
    (after layout calls).stream.Held layout (after layout calls).handed := by
  unfold after
  suffices hrun : ∀ session : Session, session.stream.Held layout session.handed →
      (run Session.call session calls).stream.Held layout (run Session.call session calls).handed from
    hrun _ ⟨rfl, ⟨⟨rfl, nofun, nofun, nofun⟩, rfl, rfl⟩, rfl⟩
  induction calls with
  | nil => exact fun _ h => h
  | cons first rest ih => exact fun _ h => ih _ (held_call h first)

end Session

theorem HandedOut.length_le {layout : StreamLayout} {events : List Event} {count : Nat}
    {frame : RawFrame} (h : HandedOut layout events count frame) :
    frame.payload.length ≤ layout.payloadCapacity := by
  obtain ⟨transfers, later, -, hclosed⟩ := h
  unfold Closed at hclosed
  split at hclosed
  · rw [hclosed]
    exact payloadOf_length_le transfers
  · rw [hclosed.2.1, List.length_take]
    exact (min_le_left _ _).trans (min_le_left _ _)

/-- Whatever the endpoint does: every leader opens one block, which is handed out
once and in order or is in progress; a frame with a trailer has its leader's
block id and the payload transfers in between; and every transfer taken in is a
leader, a trailer, payload or skipped. -/
theorem blocks_conserved (layout : StreamLayout) (calls : List Call) :
    (Session.after layout calls).Laws layout := by
  have h := Session.held_after layout calls
  have hblocks := h.conserved.blocks
  rw [h.layout_eq] at hblocks
  exact
    { order := hblocks.order
      frame_exact := hblocks.exact
      frame_le := by
        intro frame hframe
        obtain ⟨count, hcount⟩ := List.getElem?_of_mem hframe
        exact (hblocks.exact count frame hcount).length_le
      block_le := by
        intro block hblock
        obtain ⟨transfers, -, hpayload, -⟩ := hblocks.progress block hblock
        rw [hpayload]
        exact payloadOf_length_le transfers
      abandoned := h.conserved.abandoned_eq
      arrived := h.complete
      sound := hblocks.sound
      skipped := h.conserved.skipped_eq }

/-- A transfer that completed behind a stalled one is neither taken in nor
counted. -/
theorem drained_transfer_uncounted :
    let stream := (Session.after fourByteLayout
      [.nextFrameWithin [stallTurn fun _ => some { data := [1], status := .ok (), now := 0 }]]).stream
    [1] ∈ stream.discarded ∧ stream.events = [.gaveUp] ∧
      stream.counters.transfersSkipped = 0 := by
  decide

end VivaGenicam.U3v
