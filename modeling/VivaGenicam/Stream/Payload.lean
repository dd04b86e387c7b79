import Mathlib
import VivaGenicam.Gige.FakeCamera
import VivaGenicam.Stream.History
import VivaGenicam.Stream.Laid

/-!
The payload of a complete frame. A run keeps, for every block that can still
become a complete frame or is one, the layout of the data packets it holds; so
a frame that leaves as complete has its leader, its trailer and exactly the
data packets before the trailer, end to end. This needs that no data packet
beyond the trailer was placed before the trailer came and that a block's data
packets agree on the stride; the last section shows both are needed.
-/

namespace VivaGenicam.Stream

open Gvsp Library Library.Transition

def Packet.piece? : Packet → Option Piece
  | (header, .payload data) => some (header.packetId, data)
  | _ => none

variable {packet : Packet}

namespace Tracked

def pieces (tracked : Tracked) : List Piece := tracked.accepted.filterMap Packet.piece?

theorem mem_pieces {tracked : Tracked} {piece : Piece} :
    piece ∈ tracked.pieces ↔
      ∃ header, header.packetId = piece.1 ∧ (header, Content.payload piece.2) ∈ tracked.accepted := by
  unfold pieces
  rw [List.mem_filterMap]
  constructor
  · rintro ⟨⟨header, content⟩, hmem, hpiece⟩
    cases content with
    | payload data =>
      cases hpiece
      exact ⟨header, rfl, hmem⟩
    | leader => cases hpiece
    | trailer => cases hpiece
  · rintro ⟨header, hid, hmem⟩
    exact ⟨_, hmem, by simp [Packet.piece?, hid]⟩

theorem mem_deliver_accepted {tracked : Tracked} {config : AssemblyConfig}
    {other : Packet} {after : BlockInFlight} :
    other ∈ (tracked.deliver config packet after).accepted ↔
      (other ∈ tracked.accepted ∨ (tracked.block.holds packet = false ∧ other = packet)) ∧
        after.holds other = true := by
  simp only [deliver, List.mem_filter, List.mem_append]
  refine and_congr_left fun _ => or_congr_right ?_
  split <;> rename_i h <;> simp [h]

/-- The data packets held after a delivery: those held, and the one delivered
if its bit was clear, as far as their bits are set. -/
theorem pieces_deliver (tracked : Tracked) (config : AssemblyConfig) (packet : Packet)
    (after : BlockInFlight) :
    (tracked.deliver config packet after).pieces =
      (tracked.pieces ++ if tracked.block.holds packet then [] else packet.piece?.toList).filter
        after.keeps := by
  have hfilter : ∀ packets : List Packet,
      (packets.filter after.holds).filterMap Packet.piece? =
        (packets.filterMap Packet.piece?).filter after.keeps := by
    intro packets
    rw [List.filterMap_filter, List.filter_filterMap]
    congr 1
    funext ⟨header, content⟩
    cases content with
    | leader leader => simp [Packet.piece?]
    | trailer trailer => simp [Packet.piece?]
    | payload data => rfl
  have hone : [packet].filterMap Packet.piece? = packet.piece?.toList := by
    cases h : packet.piece? <;> simp [h]
  simp only [pieces, deliver]
  rw [hfilter, List.filterMap_append]
  congr 2
  split
  · rfl
  · exact hone

theorem pieces_deliver_other {tracked : Tracked} {config : AssemblyConfig}
    {after : BlockInFlight} (h : packet.piece? = none) :
    (tracked.deliver config packet after).pieces = tracked.pieces.filter after.keeps := by
  rw [pieces_deliver, h]
  split <;> simp

theorem placed_deliver_other {tracked : Tracked} {config : AssemblyConfig}
    {after : BlockInFlight} (h : packet.piece? = none) :
    (tracked.deliver config packet after).placed = tracked.placed := by
  have hplaces : ¬tracked.block.Places config packet := by
    obtain ⟨header, content⟩ := packet
    cases content with
    | payload data => cases h
    | leader => exact id
    | trailer => exact id
  simp [deliver, hplaces]

end Tracked

variable {before : BlockInFlight}

namespace BlockInFlight

/-- Can still become a complete frame, or is one. -/
def Viable (block : BlockInFlight) : Prop :=
  (block.resolved = none ∧ block.unsupported = false) ∨
    block.resolved = some (.frame .complete)

/-- A trailer without an error status that the block takes. -/
@[mk_iff]
structure TakesTrailer (block : BlockInFlight) (header : GvspHeader) : Prop where
  unresolved : block.resolved = none
  none_yet : block.trailer = none
  supported : block.unsupported = false
  no_error : header.status &&& statusError = 0

theorem SameData.holds {after : BlockInFlight} (h : before.SameData after) :
    after.holds = before.holds := by
  obtain ⟨_, _, _, rfl⟩ := h
  rfl

end BlockInFlight

theorem Quiet.complete {config : AssemblyConfig} {closing : Bool} {after : BlockInFlight}
    (h : Quiet config closing before after) (hafter : after.resolved = some (.frame .complete)) :
    before.resolved = some (.frame .complete) := by
  cases h with
  | touched => exact hafter
  | answered => exact hafter
  | closed stats =>
    unfold BlockInFlight.close at hafter
    dsimp only at hafter
    split at hafter
    · cases hafter
    · split at hafter <;> cases hafter
  | asked stats now =>
    obtain ⟨_, h⟩ := before.resendDue_eq config stats now
    rw [h] at hafter
    exact hafter

theorem Quiet.viable {config : AssemblyConfig} {closing : Bool} {after : BlockInFlight}
    (h : Quiet config closing before after) (hafter : after.Viable) : before.Viable := by
  rcases hafter with ⟨hopen, hsupported⟩ | hcomplete
  · refine .inl ⟨?_, ?_⟩
    · cases hbefore : before.resolved with
      | none => rfl
      | some resolution =>
        rw [h.resolved_some hbefore] at hopen
        cases hopen
    · obtain ⟨_, _, _, rfl⟩ := h.sameData
      exact hsupported
  · exact .inr (h.complete hcomplete)

namespace BlockInFlight

/-- The completion check resolves only a block that has its leader, its trailer
and every data packet before it. -/
theorem tryComplete_complete {block : BlockInFlight} (hopen : block.resolved = none)
    (h : block.tryComplete.resolved = some (.frame .complete)) :
    block.leader.isSome = true ∧
      ∃ trailer ∈ block.trailer, block.bitmap.firstNComplete trailer.lastPayloadId = true := by
  unfold tryComplete at h
  split at h
  · rw [hopen] at h
    cases h
  · rename_i hready
    split at h
    · rename_i trailer htrailer
      split at h
      · rename_i hin
        simp only [Bool.or_eq_true, not_or, Option.isNone_iff_eq_none] at hready
        exact ⟨Option.isSome_iff_ne_none.mpr hready.2, trailer, htrailer, hin⟩
      · rw [hopen] at h
        cases h
    · rw [hopen] at h
      cases h

theorem tryComplete_viable {block : BlockInFlight} (h : block.tryComplete.Viable) :
    block.Viable := by
  unfold tryComplete at h
  split at h
  · exact h
  · rename_i hready
    simp only [Bool.or_eq_true, not_or] at hready
    exact .inl ⟨by simpa using hready.1.1, by simpa using hready.1.2⟩

theorem receive_handled (config : AssemblyConfig) (block : BlockInFlight) (stats : StreamStats)
    (header : GvspHeader) (content : Content) (now : Instant) :
    ∃ resend, (block.receive config stats header content now).1 =
      ({ (block.handle config stats header content).1 with resend }).tryComplete := by
  have tracked : ∀ (handled : BlockInFlight) (stats : StreamStats) (isTrailer : Bool),
      ∃ resend, (handled.trackArrival config stats header.packetId isTrailer now).1.tryComplete =
        ({ handled with resend }).tryComplete := by
    intro handled stats isTrailer
    obtain ⟨resend, h⟩ := trackArrival_eq config handled stats header.packetId isTrailer now
    exact ⟨resend, by rw [h]⟩
  cases content with
  | leader leader => exact tracked _ _ false
  | payload data =>
    unfold receive handle
    dsimp only
    split
    · exact tracked _ _ false
    · exact ⟨_, rfl⟩
  | trailer trailer => exact tracked _ _ true

end BlockInFlight

namespace BlockInFlight

theorem SameData.placeable {config : AssemblyConfig} {after : BlockInFlight}
    (h : before.SameData after) (header : GvspHeader) (data : List UInt8) :
    Placeable config after header data ↔ Placeable config before header data := by
  obtain ⟨_, _, _, rfl⟩ := h
  simp only [placeable_iff]

theorem places_touched {config : AssemblyConfig} (block : BlockInFlight) (now : Instant)
    (packet : Packet) :
    ({ block with lastPacket := now } : BlockInFlight).Places config packet ↔
      block.Places config packet := by
  obtain ⟨header, content⟩ := packet
  cases content with
  | payload data =>
    have hsame : block.SameData { block with lastPacket := now } :=
      ⟨now, block.resend, block.resolved, rfl⟩
    exact and_congr_right fun _ => hsame.placeable header data
  | leader => rfl
  | trailer => rfl

theorem handle_viable {config : AssemblyConfig} {block : BlockInFlight} {stats : StreamStats}
    {header : GvspHeader} {content : Content} (hopen : block.resolved = none)
    (h : (block.handle config stats header content).1.Viable) : block.unsupported = false := by
  have hsame : ∀ after : BlockInFlight, after.resolved = block.resolved →
      after.unsupported = block.unsupported → after.Viable → block.unsupported = false := by
    rintro after hresolved hunsupported (⟨-, h⟩ | h)
    · rw [← hunsupported, h]
    · rw [hresolved, hopen] at h
      cases h
  cases content with
  | leader leader =>
    have hcase := onLeader_cases block stats leader
    unfold handle at h
    dsimp only at h
    generalize (block.onLeader stats leader).1 = after at hcase h
    generalize (block.onLeader stats leader).2.1 = counted at hcase
    cases hcase with
    | repeated => exact hsame block rfl rfl h
    | unsupported =>
      rcases h with ⟨-, h⟩ | h
      · cases h
      · rw [hopen] at h
        cases h
    | taken => exact hsame _ rfl rfl h
  | payload data =>
    unfold handle at h
    dsimp only at h
    rcases onPayload_cases config block stats header data with ⟨hplaceable, -⟩ | ⟨_, _, heq, -⟩
    · exact hplaceable.supported
    · rw [heq] at h
      exact hsame block rfl rfl h
  | trailer trailer =>
    have hcase := onTrailer_cases config block stats header trailer
    unfold handle at h
    dsimp only at h
    generalize (block.onTrailer config stats header trailer).1 = after at hcase h
    generalize (block.onTrailer config stats header trailer).2 = counted at hcase
    cases hcase with
    | repeated => exact hsame block rfl rfl h
    | unsupported => rcases h with ⟨h, -⟩ | h <;> cases h
    | error _ _ hsupported => exact hsupported
    | bounded _ hsupported => exact hsupported
    | refused _ _ hsupported => exact hsupported

end BlockInFlight

/-- The condition on a packet given to a block. A data packet that is placed has
the stride of those placed before; a trailer that is taken finds no data packet
beyond the last, but for an empty one right after it. -/
def Consistent (config : AssemblyConfig) (tracked : Tracked) : Packet → Prop
  | (header, .payload data) =>
    tracked.block.Places config (header, .payload data) →
      ∀ other ∈ tracked.placed, payloadStride config.packetSize other.1.headerLen =
        payloadStride config.packetSize header.headerLen
  | (header, .trailer _) =>
    tracked.block.TakesTrailer header →
      BlockInFlight.FitsTrailer (header.packetId - 1) tracked.pieces
  | (_, .leader _) => True

instance (block : BlockInFlight) (header : GvspHeader) : Decidable (block.TakesTrailer header) :=
  decidable_of_iff _ (BlockInFlight.takesTrailer_iff block header).symm

instance (config : AssemblyConfig) (tracked : Tracked) (packet : Packet) :
    Decidable (Consistent config tracked packet) :=
  match packet with
  | (header, .payload data) =>
    inferInstanceAs (Decidable (tracked.block.Places config (header, .payload data) →
      ∀ other ∈ tracked.placed, payloadStride config.packetSize other.1.headerLen =
        payloadStride config.packetSize header.headerLen))
  | (header, .trailer _) =>
    inferInstanceAs (Decidable (tracked.block.TakesTrailer header →
      ∀ piece ∈ tracked.pieces, piece.1 ≤ header.packetId - 1 ∨
        (piece.1 = header.packetId - 1 + 1 ∧ piece.2 = [])))
  | (_, .leader _) => .isTrue trivial

theorem Consistent.touched {config : AssemblyConfig} {tracked : Tracked}
    (h : Consistent config tracked packet) (now : Instant) :
    Consistent config { tracked with block := { tracked.block with lastPacket := now } } packet := by
  obtain ⟨header, content⟩ := packet
  cases content with
  | leader => exact h
  | payload data =>
    exact fun hplaces => h ((tracked.block.places_touched now _).mp hplaces)
  | trailer => exact fun htakes => h ⟨htakes.1, htakes.2, htakes.3, htakes.4⟩

/-- What is known of a block that can still become a complete frame or is one. -/
structure Tracked.PayloadInv (config : AssemblyConfig) (tracked : Tracked) : Prop where
  held : ∀ packet ∈ tracked.accepted, tracked.block.holds packet = true
  placed : ∀ header data, (header, Content.payload data) ∈ tracked.accepted →
    (header, Content.payload data) ∈ tracked.placed
  unplaced : tracked.placed = [] → tracked.block.highestPayloadId = 0
  laid : ∃ σ, (∀ packet ∈ tracked.placed,
      payloadStride config.packetSize packet.1.headerLen = σ) ∧
    tracked.block.Laid σ tracked.pieces
  leader_type : tracked.block.leader.isSome = true →
    tracked.block.leaderPayloadType.isSome = true
  leader : ∀ info ∈ tracked.block.leader, ∃ header leader,
    (header, Content.leader leader) ∈ tracked.accepted ∧
      (BlockInFlight.leaderInfo leader).map Prod.fst = some info
  trailer : ∀ info ∈ tracked.block.trailer, ∃ header trailer,
    (header, Content.trailer trailer) ∈ tracked.accepted ∧ info = BlockInFlight.trailerInfo header trailer
  complete : tracked.block.resolved = some (.frame .complete) →
    tracked.block.leader.isSome = true ∧ ∃ trailer ∈ tracked.block.trailer,
      tracked.block.bitmap.firstNComplete trailer.lastPayloadId = true

namespace Tracked

theorem deliver_idle {tracked : Tracked} {config : AssemblyConfig}
    {after : BlockInFlight} (hheld : ∀ other ∈ tracked.accepted, tracked.block.holds other = true)
    (hsame : after.holds = tracked.block.holds) (hplaces : ¬tracked.block.Places config packet) :
    tracked.deliver config packet after =
      { tracked with block := after, packets := tracked.packets ++ [packet] } := by
  have haccepted : (tracked.deliver config packet after).accepted = tracked.accepted := by
    simp only [deliver, hsame]
    split
    · rw [List.append_nil]
      exact List.filter_eq_self.mpr hheld
    · rename_i hnew
      rw [List.filter_append, List.filter_eq_self.mpr hheld, List.filter_cons_of_neg hnew,
        List.filter_nil, List.append_nil]
  have hplaced : (tracked.deliver config packet after).placed = tracked.placed := by
    simp [deliver, hplaces]
  calc
    _ = ({ tracked with
          block := after
          packets := tracked.packets ++ [packet]
          placed := (tracked.deliver config packet after).placed
          accepted := (tracked.deliver config packet after).accepted } : Tracked) := rfl
    _ = _ := by rw [haccepted, hplaced]

theorem deliver_touched (tracked : Tracked) (config : AssemblyConfig) (packet : Packet)
    (after : BlockInFlight) (now : Instant) :
    ({ tracked with block := { tracked.block with lastPacket := now } }).deliver config packet
      after = tracked.deliver config packet after := by
  simp only [deliver, tracked.block.places_touched now packet]
  rfl

theorem deliver_sameData (tracked : Tracked) (config : AssemblyConfig) (packet : Packet)
    {handled after : BlockInFlight} (h : handled.SameData after) :
    tracked.deliver config packet after =
      { tracked.deliver config packet handled with block := after } := by
  simp only [deliver, h.holds]

namespace PayloadInv

variable {config : AssemblyConfig} {tracked : Tracked}

theorem start (serial : Nat) (header : GvspHeader) (now : Instant) :
    (Tracked.ofBlock serial (.start config .empty header now)).PayloadInv config where
  held := nofun
  placed := nofun
  unplaced := fun _ => rfl
  laid := by
    refine ⟨1, nofun, ?_⟩
    constructor <;> simp [Tracked.ofBlock, Tracked.pieces, BlockInFlight.start]
  leader_type := nofun
  leader := nofun
  trailer := nofun
  complete := nofun

theorem sameData (h : tracked.PayloadInv config) {after : BlockInFlight}
    (hsame : tracked.block.SameData after)
    (hcomplete : after.resolved = some (.frame .complete) → after.leader.isSome = true ∧
      ∃ trailer ∈ after.trailer, after.bitmap.firstNComplete trailer.lastPayloadId = true)
    (packets : List Packet) :
    ({ tracked with block := after, packets }).PayloadInv config := by
  obtain ⟨σ, hstride, hlaid⟩ := h.laid
  have hlaid := hlaid.sameData hsame
  obtain ⟨_, _, _, rfl⟩ := hsame
  exact { h with laid := ⟨σ, hstride, hlaid⟩, complete := hcomplete }

/-- A delivery that leaves the block open keeps the invariant when it keeps the
layout and any new leader or trailer is the packet's. -/
theorem delivered (h : tracked.PayloadInv config) {after : BlockInFlight}
    (hopen : after.resolved = none)
    (hplaced : packet.piece?.isSome = true → tracked.block.Places config packet)
    (hunplaced : (tracked.deliver config packet after).placed = [] → after.highestPayloadId = 0)
    (hlaid : ∃ σ, (∀ other ∈ (tracked.deliver config packet after).placed,
        payloadStride config.packetSize other.1.headerLen = σ) ∧
      after.Laid σ (tracked.deliver config packet after).pieces)
    (htype : after.leader.isSome = true → after.leaderPayloadType.isSome = true)
    (hleader : ∀ info ∈ after.leader, info ∈ tracked.block.leader ∨
      (tracked.block.leader = none ∧ ∃ header leader, packet = (header, .leader leader) ∧
        (BlockInFlight.leaderInfo leader).map Prod.fst = some info))
    (htrailer : ∀ info ∈ after.trailer, info ∈ tracked.block.trailer ∨
      (tracked.block.trailer = none ∧ ∃ header trailer, packet = (header, .trailer trailer) ∧
        info = BlockInFlight.trailerInfo header trailer)) :
    (tracked.deliver config packet after).PayloadInv config where
  held := fun other hother => (mem_deliver_accepted.mp hother).2
  placed := by
    intro header data hmem
    rcases (mem_deliver_accepted.mp hmem).1 with hold | ⟨-, rfl⟩
    · exact List.mem_append_left _ (h.placed header data hold)
    · simp [deliver, hplaced rfl]
  unplaced := hunplaced
  laid := hlaid
  leader_type := htype
  leader := by
    intro info hinfo
    have hholds : after.leader.isSome = true := Option.isSome_of_mem hinfo
    rcases hleader info hinfo with hold | ⟨hnone, header, leader, rfl, heq⟩
    · obtain ⟨header, leader, hmem, heq⟩ := h.leader info hold
      exact ⟨header, leader, mem_deliver_accepted.mpr ⟨.inl hmem, hholds⟩, heq⟩
    · exact ⟨header, leader,
        mem_deliver_accepted.mpr ⟨.inr ⟨Option.isSome_eq_false_iff.mpr (by simp [hnone]), rfl⟩,
          hholds⟩, heq⟩
  trailer := by
    intro info hinfo
    have hholds : after.trailer.isSome = true := Option.isSome_of_mem hinfo
    rcases htrailer info hinfo with hold | ⟨hnone, header, trailer, rfl, heq⟩
    · obtain ⟨header, trailer, hmem, heq⟩ := h.trailer info hold
      exact ⟨header, trailer, mem_deliver_accepted.mpr ⟨.inl hmem, hholds⟩, heq⟩
    · exact ⟨header, trailer,
        mem_deliver_accepted.mpr ⟨.inr ⟨Option.isSome_eq_false_iff.mpr (by simp [hnone]), rfl⟩,
          hholds⟩, heq⟩
  complete := by
    intro hafter
    rw [show (tracked.deliver config packet after).block.resolved = none from hopen] at hafter
    cases hafter

theorem laid_at (h : tracked.PayloadInv config) {stride : Nat} (hpos : 0 < stride)
    (hstrides : ∀ other ∈ tracked.placed,
      payloadStride config.packetSize other.1.headerLen = stride) :
    tracked.block.Laid stride tracked.pieces := by
  obtain ⟨σ, hall, hlaid⟩ := h.laid
  by_cases hfirst : tracked.placed = []
  · exact hlaid.rebase hpos (h.unplaced hfirst)
  · obtain ⟨other, hother⟩ := List.exists_mem_of_ne_nil _ hfirst
    rwa [← hstrides other hother, hall other hother]

section Handlers

variable (h : tracked.PayloadInv config) (hopen : tracked.block.resolved = none)
  (stats : StreamStats) (header : GvspHeader)

include h hopen

theorem onLeader (leader : GvspLeader)
    (hviable : (tracked.block.onLeader stats leader).1.Viable) :
    (tracked.deliver config (header, .leader leader)
      (tracked.block.onLeader stats leader).1).PayloadInv config := by
  have hcase := BlockInFlight.onLeader_cases tracked.block stats leader
  generalize (tracked.block.onLeader stats leader).1 = after at hcase hviable ⊢
  generalize (tracked.block.onLeader stats leader).2.1 = counted at hcase
  cases hcase with
  | repeated =>
    rw [deliver_idle h.held rfl (by exact id)]
    exact h.sameData ⟨_, _, _, rfl⟩ h.complete _
  | unsupported =>
    rcases hviable with ⟨_, hsupported⟩ | hcomplete
    · cases hsupported
    · rw [hopen] at hcomplete
      cases hcomplete
  | taken info estimate hnone hinfo =>
    have hnone : tracked.block.leader = none := by
      by_contra hsome
      have := h.leader_type (Option.isSome_iff_ne_none.mpr hsome)
      simp [hnone] at this
    obtain ⟨σ, hstride, hlaid⟩ := h.laid
    have hlaid := hlaid.leader (some leader.payloadType) (some info)
      (max tracked.block.planned estimate) estimate
    refine h.delivered hopen nofun ?_ ⟨σ, ?_, ?_⟩ (fun _ => rfl) ?_ (fun info hinfo => .inl hinfo)
    · rw [placed_deliver_other rfl]
      exact h.unplaced
    · rwa [placed_deliver_other rfl]
    · rwa [pieces_deliver_other rfl, hlaid.filter_keeps]
    · intro kept hkept
      cases hkept
      exact .inr ⟨hnone, header, leader, rfl, by rw [hinfo]; rfl⟩

theorem onPayload {data : List UInt8}
    (hconsistent : Consistent config tracked (header, .payload data)) :
    (tracked.deliver config (header, .payload data)
      (tracked.block.onPayload config stats header data).2.1).PayloadInv config := by
  by_cases hplaceable : BlockInFlight.Placeable config tracked.block header data
  swap
  · have hblock : (tracked.block.onPayload config stats header data).2.1 = tracked.block := by
      rcases BlockInFlight.onPayload_cases config tracked.block stats header data with
        ⟨hplaced, -⟩ | ⟨_, _, heq, -⟩
      · exact absurd hplaced hplaceable
      · rw [heq]
    have hplaces : ¬tracked.block.Places config (header, .payload data) :=
      fun hplaces => hplaceable hplaces.2
    rw [hblock, deliver_idle h.held rfl hplaces]
    exact h.sameData ⟨_, _, _, rfl⟩ h.complete _
  have hplaces : tracked.block.Places config (header, .payload data) := ⟨hopen, hplaceable⟩
  have hpos : 0 < payloadStride config.packetSize header.headerLen :=
    Nat.pos_of_ne_zero hplaceable.stride_pos
  rw [BlockInFlight.onPayload_placeable config tracked.block stats header data hplaceable]
  dsimp only
  have hstrides := hconsistent hplaces
  generalize hstride : payloadStride config.packetSize header.headerLen = stride at *
  have hlaid := h.laid_at hpos hstrides
  have hfree : tracked.block.holds (header, .payload data) = false := by
    simp [BlockInFlight.holds, hplaceable.fresh]
  have haccept := hlaid.accept stats hplaceable hstride
  obtain ⟨_, _, _, _, _, heq⟩ := tracked.block.accept_eq stats header.packetId stride data
  generalize (tracked.block.accept stats header.packetId stride data).1 = after at heq haccept ⊢
  have hplaced : (tracked.deliver config (header, .payload data) after).placed =
      tracked.placed ++ [(header, .payload data)] := by
    simp [deliver, hplaces]
  refine h.delivered (by rw [heq]; exact hopen) (fun _ => hplaces) ?_ ⟨stride, ?_, ?_⟩ ?_ ?_ ?_
  · simp [hplaced]
  · intro other hother
    rw [hplaced, List.mem_append, List.mem_singleton] at hother
    rcases hother with hold | rfl
    · exact hstrides other hold
    · exact hstride
  · rw [pieces_deliver, hfree]
    exact haccept
  · rw [heq]
    exact h.leader_type
  · rw [heq]
    exact fun info hinfo => .inl hinfo
  · rw [heq]
    exact fun info hinfo => .inl hinfo

theorem onTrailer (hsupported : tracked.block.unsupported = false) {trailer : GvspTrailer}
    (hconsistent : Consistent config tracked (header, .trailer trailer))
    (hviable : (tracked.block.onTrailer config stats header trailer).1.Viable) :
    (tracked.deliver config (header, .trailer trailer)
      (tracked.block.onTrailer config stats header trailer).1).PayloadInv config := by
  have hcase := BlockInFlight.onTrailer_cases config tracked.block stats header trailer
  generalize (tracked.block.onTrailer config stats header trailer).1 = after at hcase hviable ⊢
  generalize (tracked.block.onTrailer config stats header trailer).2 = counted at hcase
  obtain ⟨σ, hstride, hlaid⟩ := h.laid
  cases hcase with
  | repeated =>
    rw [deliver_idle h.held rfl (by exact id)]
    exact h.sameData ⟨_, _, _, rfl⟩ h.complete _
  | unsupported _ hunsupported =>
    rw [hsupported] at hunsupported
    cases hunsupported
  | error =>
    rcases hviable with ⟨hunresolved, _⟩ | hcomplete
    · cases hunresolved
    · cases hcomplete
  | bounded hnone _ hok =>
    have hlaid := hlaid.trailer hnone (BlockInFlight.trailerInfo header trailer)
      (BlockInFlight.trailerBound config header) (hconsistent ⟨hopen, hnone, hsupported, hok⟩)
    refine h.delivered hopen nofun ?_ ⟨σ, ?_, ?_⟩ h.leader_type (fun info hinfo => .inl hinfo) ?_
    · rw [placed_deliver_other rfl]
      exact h.unplaced
    · rwa [placed_deliver_other rfl]
    · rwa [pieces_deliver_other rfl, hlaid.filter_keeps]
    · intro info hinfo
      cases hinfo
      exact .inr ⟨hnone, header, trailer, rfl, rfl⟩
  | refused short hnone _ hok hshort hearly =>
    have hlaid := hlaid.trailer_refused stats (BlockInFlight.trailerInfo header trailer)
      (BlockInFlight.trailerBound config header) hshort hearly rfl
    refine h.delivered hopen nofun ?_ ⟨σ, ?_, ?_⟩ h.leader_type (fun info hinfo => .inl hinfo) ?_
    · rw [placed_deliver_other rfl]
      exact h.unplaced
    · rwa [placed_deliver_other rfl]
    · rwa [pieces_deliver_other rfl]
    · intro info hinfo
      cases hinfo
      exact .inr ⟨hnone, header, trailer, rfl, rfl⟩

end Handlers

theorem deliver (h : tracked.block.Viable → tracked.PayloadInv config) (stats : StreamStats)
    (header : GvspHeader) (content : Content) (now : Instant)
    (hconsistent : Consistent config tracked (header, content))
    (hviable : (tracked.block.deliver config stats header content now).1.Viable) :
    (tracked.deliver config (header, content)
      (tracked.block.deliver config stats header content now).1).PayloadInv config := by
  cases hresolved : tracked.block.resolved with
  | some resolution =>
    rw [tracked.block.deliver_resolved config stats header content now hresolved] at hviable ⊢
    have h := h hviable
    have hplaces : ¬tracked.block.Places config (header, content) := by
      cases content with
      | payload data =>
        intro hplaces
        rw [hplaces.1] at hresolved
        cases hresolved
      | leader => exact id
      | trailer => exact id
    have hsame : tracked.block.SameData { tracked.block with lastPacket := now } :=
      ⟨now, tracked.block.resend, tracked.block.resolved, rfl⟩
    rw [deliver_idle h.held hsame.holds hplaces]
    exact h.sameData hsame h.complete _
  | none =>
    rw [tracked.block.deliver_open config stats header content now hresolved] at hviable ⊢
    obtain ⟨resend, heq⟩ := BlockInFlight.receive_handled config
      { tracked.block with lastPacket := now } stats header content now
    rw [heq] at hviable ⊢
    have hhandled := BlockInFlight.tryComplete_viable hviable
    have hsupported : tracked.block.unsupported = false :=
      @BlockInFlight.handle_viable config { tracked.block with lastPacket := now } _ _ _ hresolved
        hhandled
    have hopened : ({ tracked with
        block := { tracked.block with lastPacket := now } }).PayloadInv config :=
      (h (.inl ⟨hresolved, hsupported⟩)).sameData ⟨now, _, _, rfl⟩
        (h (.inl ⟨hresolved, hsupported⟩)).complete _
    have hconsistent : Consistent config
        { tracked with block := { tracked.block with lastPacket := now } } (header, content) :=
      hconsistent.touched now
    generalize hhandle : (BlockInFlight.handle config { tracked.block with lastPacket := now }
      stats header content).1 = handled at hhandled hviable ⊢
    have hinv : (tracked.deliver config (header, content) handled).PayloadInv config := by
      rw [← deliver_touched tracked config (header, content) handled now, ← hhandle]
      rw [← hhandle] at hhandled
      cases content with
      | leader leader => exact hopened.onLeader hresolved stats header leader hhandled
      | payload data => exact hopened.onPayload hresolved stats header hconsistent
      | trailer trailer =>
        exact hopened.onTrailer hresolved stats header hsupported hconsistent hhandled
    have hsame : handled.SameData ({ handled with resend }).tryComplete :=
      .trans ⟨handled.lastPacket, resend, handled.resolved, rfl⟩
        (BlockInFlight.tryComplete_sameData _)
    rw [deliver_sameData tracked config (header, content) hsame]
    refine hinv.sameData hsame (fun hcomplete => ?_) _
    obtain ⟨resolved, hafter⟩ := BlockInFlight.tryComplete_eq { handled with resend }
    rcases hhandled with ⟨hunresolved, -⟩ | halready
    · have hready := @BlockInFlight.tryComplete_complete { handled with resend } hunresolved
        hcomplete
      rw [hafter]
      exact hready
    · rw [hafter]
      exact hinv.complete halready

end PayloadInv

end Tracked

/-- Every block of a run whose packets are consistent is laid out as its packets
say, as long as it can become a complete frame. -/
theorem History.payload_after (config : AssemblyConfig) (calls : List Call)
    (hconsistent : Guarded History.call (Admissible (Consistent config)) (start config) calls) :
    (after config calls).Sound config
      (fun tracked => tracked.block.Viable → tracked.PayloadInv config) := by
  refine sound_after config _ (Consistent config) ?_ ?_ ?_ calls hconsistent
  · intro serial stats datagram header content now hread hviable
    refine Tracked.PayloadInv.deliver (fun _ => Tracked.PayloadInv.start serial header now) stats header content
      now ?_ hviable
    cases content with
    | leader => trivial
    | payload data => exact fun _ => nofun
    | trailer => exact fun _ => nofun
  · intro tracked closing after hinv hstep hviable
    have hbefore := hinv (hstep.viable hviable)
    refine hbefore.sameData hstep.sameData (fun hcomplete => ?_) _
    have hready := hbefore.complete (hstep.complete hcomplete)
    obtain ⟨_, _, _, rfl⟩ := hstep.sameData
    exact hready
  · exact fun tracked stats datagram header content now hinv _ _ hconsistent hviable =>
      Tracked.PayloadInv.deliver hinv stats header content now hconsistent hviable

/-- What a complete frame must be. Its leader is one the block accepted; of the
data packets accepted no two have one id; and for an accepted trailer the
payload is the data packets before it, end to end: full strides but for the
last. -/
structure Exact (config : AssemblyConfig) (tracked : Tracked) (frame : AssembledBlock) :
    Prop where
  leader : ∃ header leader, (header, Content.leader leader) ∈ tracked.accepted ∧
    (BlockInFlight.leaderInfo leader).map Prod.fst = frame.leader
  unique : (tracked.pieces.map Prod.fst).Nodup
  payload : ∃ header trailer, (header, Content.trailer trailer) ∈ tracked.accepted ∧
    ∃ (data : List (List UInt8)) (stride : Nat), data.length = header.packetId - 1 ∧
      (∀ k, ∀ hk : k < data.length, ∃ dataHeader : GvspHeader, dataHeader.packetId = k + 1 ∧
        payloadStride config.packetSize dataHeader.headerLen = stride ∧
        (dataHeader, Content.payload data[k]) ∈ tracked.accepted) ∧
      (∀ k, ∀ hk : k + 1 < data.length, (getElem data k (Nat.lt_of_succ_lt hk)).length = stride) ∧
      frame.payload = data.flatten ∧
      frame.payload.length = (header.packetId - 2) * stride + (data.getLastD []).length

/-- Every complete frame of the run is exact. -/
def CompleteExact (config : AssemblyConfig) (calls : List Call) : Prop :=
  ∀ gone ∈ (History.after config calls).left, ∀ frame ∈ gone.frame,
    frame.status = .complete → Exact config gone.tracked frame

variable {frame : AssembledBlock}

theorem BlockInFlight.depart_payload {block : BlockInFlight} {packetSize : Nat}
    (h : frame ∈ (block.depart packetSize).frame) :
    block.resolved = some (.frame frame.status) ∧ frame.leader = block.leader ∧
      frame.payload = block.buffer.take block.extent := by
  unfold depart at h
  dsimp only at h
  split at h
  · rename_i hresolved
    cases h
    exact ⟨hresolved, rfl, rfl⟩
  · cases h

namespace Tracked.PayloadInv

theorem frame_exact {config : AssemblyConfig} {tracked : Tracked} (h : tracked.PayloadInv config)
    (hframe : frame ∈ (tracked.block.depart config.packetSize).frame)
    (hcomplete : frame.status = .complete) : Exact config tracked frame := by
  obtain ⟨hresolved, hleader, hpayload⟩ := BlockInFlight.depart_payload hframe
  rw [hcomplete] at hresolved
  obtain ⟨hsome, info, hinfo, hin⟩ := h.complete hresolved
  obtain ⟨σ, hstride, hlaid⟩ := h.laid
  obtain ⟨header, trailer, hmem, rfl⟩ := h.trailer info hinfo
  obtain ⟨data, hlength, hdata, hfull, hextent, hbytes⟩ := hlaid.exact hinfo hin
  rw [hbytes] at hpayload
  refine ⟨?_, hlaid.unique, header, trailer, hmem, data, σ, hlength, ?_, hfull, hpayload, ?_⟩
  · obtain ⟨kept, hkept⟩ := Option.isSome_iff_exists.mp hsome
    obtain ⟨header, leader, hleaderMem, heq⟩ := h.leader kept hkept
    exact ⟨header, leader, hleaderMem, by rw [heq, hleader, hkept]⟩
  · intro k hk
    obtain ⟨dataHeader, hid, hheld⟩ := mem_pieces.mp (hdata k hk)
    exact ⟨dataHeader, hid, hstride _ (h.placed _ _ hheld), hheld⟩
  · have hlast : data.length - 1 = header.packetId - 2 := by
      rw [hlength]
      rfl
    rw [hpayload, Library.Buffer.length_flatten_stride σ data hfull, hlast]

end Tracked.PayloadInv

/-- As long as every trailer finds no data packet beyond it and the data packets
of a block agree on the stride, whatever else is received, a complete frame has
its leader, its trailer and exactly the data packets before the trailer. -/
theorem complete_payload_exact (config : AssemblyConfig) (calls : List Call)
    (hconsistent :
      Guarded History.call (History.Admissible (Consistent config)) (History.start config) calls) :
    CompleteExact config calls := by
  intro gone hgone frame hframe hcomplete
  obtain ⟨hinv, hdeparted⟩ := (History.payload_after config calls hconsistent).left gone hgone
  rw [hdeparted] at hframe
  have hresolved := (BlockInFlight.depart_payload hframe).1
  exact (hinv (.inr (by rw [hresolved, hcomplete]))).frame_exact hframe hcomplete

theorem Exact.payload_length {config : AssemblyConfig} {tracked : Tracked}
    (h : Exact config tracked frame) {last : Nat}
    (htrailer : ∀ packet ∈ tracked.accepted, packet.2.isTrailer = true →
      packet.1.packetId = last) (size : Nat → Nat)
    (hsize : ∀ piece ∈ tracked.pieces, piece.2.length = size piece.1) :
    frame.payload.length = ((List.range (last - 1)).map fun k => size (k + 1)).sum := by
  obtain ⟨header, trailer, hmem, data, stride, hlength, hdata, -, hpayload, -⟩ := h.payload
  rw [htrailer _ hmem rfl] at hlength
  rw [hpayload, List.length_flatten]
  congr 1
  refine List.ext_getElem (by simp [hlength]) fun k hk _ => ?_
  rw [List.length_map] at hk
  obtain ⟨dataHeader, hid, -, hheld⟩ := hdata k hk
  have := hsize (k + 1, data[k]) (Tracked.mem_pieces.mpr ⟨dataHeader, hid, hheld⟩)
  simpa using this

section Runs

open FakeCamera

/-- A block of chunk data in one-byte packets. -/
def byteBlock : BlockSpec := { blockId := 1, payloadType := payloadTypeChunkData }

def inOrderRun : List Call :=
  [.ingest (leader byteBlock) 0, .ingest (payload byteBlock 1 [7]) 1, .poll 2,
    .ingest (trailer byteBlock 2 1) 3]

/-- A data packet beyond the trailer arrives before it. -/
def beyondTrailerRun : List Call :=
  [.ingest (leader byteBlock) 0, .ingest (payload byteBlock 1 [7]) 1,
    .ingest (payload byteBlock 2 [8]) 2, .ingest (trailer byteBlock 2 1) 3]

/-- The second data packet has an extended header, and so a shorter stride. -/
def mixedStrideRun : List Call :=
  [.ingest (leader byteBlock) 0, .ingest (payload byteBlock 1 (List.replicate 13 7)) 1,
    .ingest (payload { byteBlock with extendedIds := true } 2 [8]) 2,
    .ingest (trailer byteBlock 3 14) 3]

set_option maxRecDepth 10000 in
theorem complete_payload_exact_in_order : CompleteExact { packetSize := 37 } inOrderRun :=
  complete_payload_exact _ inOrderRun (by decide)

set_option maxRecDepth 10000 in
/-- A data packet placed beyond the trailer that comes after it stays in the
payload; and where the stride changes within a block, one packet overwrites
another. -/
theorem complete_payload_inexact :
    ¬CompleteExact { packetSize := 37 } beyondTrailerRun ∧
      ¬CompleteExact { packetSize := 49 } mixedStrideRun := by
  constructor
  · intro h
    obtain ⟨gone, hgone, frame, hframe, hcomplete, htrailer, hsize, hlength⟩ :
        ∃ gone ∈ (History.after { packetSize := 37 } beyondTrailerRun).left,
          ∃ frame ∈ gone.frame, frame.status = .complete ∧
            (∀ packet ∈ gone.tracked.accepted, packet.2.isTrailer = true →
              packet.1.packetId = 2) ∧
            (∀ piece ∈ gone.tracked.pieces, piece.2.length = 1) ∧
            frame.payload.length = 2 := by decide
    have := (h gone hgone frame hframe hcomplete).payload_length htrailer (fun _ => 1) hsize
    rw [hlength] at this
    cases this
  · intro h
    obtain ⟨gone, hgone, frame, hframe, hcomplete, htrailer, hsize, hlength⟩ :
        ∃ gone ∈ (History.after { packetSize := 49 } mixedStrideRun).left,
          ∃ frame ∈ gone.frame, frame.status = .complete ∧
            (∀ packet ∈ gone.tracked.accepted, packet.2.isTrailer = true →
              packet.1.packetId = 3) ∧
            (∀ piece ∈ gone.tracked.pieces, piece.2.length = if piece.1 = 1 then 13 else 1) ∧
            frame.payload.length = 13 := by decide
    have := (h gone hgone frame hframe hcomplete).payload_length htrailer
      (fun id => if id = 1 then 13 else 1) hsize
    rw [hlength] at this
    cases this

end Runs

end VivaGenicam.Stream
