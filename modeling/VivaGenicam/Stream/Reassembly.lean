import VivaGenicam.Stream.Payload

/-!
Reassembly of a well-formed block: its leader, its data packets and its trailer,
in any order and with any repetition, among packets of other blocks. The block
is complete exactly from the packet on that was the last one missing, and the
frame it leaves as is the block.
-/

namespace VivaGenicam.Stream

open Gvsp Library Library.Transition

/-- A block as a camera sends it: packets full of payload but for the last, and
no more bytes than a buffer may hold. -/
structure WellFormedBlock (config : AssemblyConfig) where
  blockId : Nat
  extendedIds : Bool
  leader : GvspLeader
  data : List (List UInt8)
  trailer : GvspTrailer
  assembled : isChunkDataPayload leader.payloadType = true ∨
    (isImagePayload leader.payloadType = true ∧ leader.image.isSome = true)
  stride_pos : 0 < payloadStride config.packetSize (headerLenOf extendedIds)
  full : ∀ k, ∀ hk : k + 1 < data.length, (getElem data k (Nat.lt_of_succ_lt hk)).length =
    payloadStride config.packetSize (headerLenOf extendedIds)
  last : ∀ bytes ∈ data.getLast?, 0 < bytes.length ∧
    bytes.length ≤ payloadStride config.packetSize (headerLenOf extendedIds)
  within : data.flatten.length ≤ config.bufferLimit

variable {packet : Packet}

namespace WellFormedBlock

variable {config : AssemblyConfig} (spec : WellFormedBlock config)

def stride : Nat := payloadStride config.packetSize (headerLenOf spec.extendedIds)

/-- The header of the block's packet of id `packetId`, with no error status. -/
@[mk_iff]
structure Header (header : GvspHeader) (packetId : Nat) : Prop where
  blockId_eq : header.blockId = spec.blockId
  extendedIds_eq : header.extendedIds = spec.extendedIds
  headerLen_eq : header.headerLen = headerLenOf spec.extendedIds
  packetId_eq : header.packetId = packetId
  no_error : header.status &&& statusError = 0

/-- The packets of the block. -/
inductive Has : Packet → Prop
  | leader (header : GvspHeader) (h : spec.Header header 0) : Has (header, .leader spec.leader)
  | data (header : GvspHeader) (k : Nat) (hk : k < spec.data.length)
      (h : spec.Header header (k + 1)) : Has (header, .payload spec.data[k])
  | trailer (header : GvspHeader) (h : spec.Header header (spec.data.length + 1)) :
      Has (header, .trailer spec.trailer)

instance (header : GvspHeader) (packetId : Nat) : Decidable (spec.Header header packetId) :=
  decidable_of_iff _ (spec.header_iff header packetId).symm

theorem has_leader_iff (header : GvspHeader) (leader : GvspLeader) :
    spec.Has (header, .leader leader) ↔ leader = spec.leader ∧ spec.Header header 0 := by
  constructor
  · rintro ⟨_, h⟩
    exact ⟨rfl, h⟩
  · rintro ⟨rfl, h⟩
    exact .leader header h

theorem has_payload_iff (header : GvspHeader) (data : List UInt8) :
    spec.Has (header, .payload data) ↔
      header.packetId ≠ 0 ∧ spec.data[header.packetId - 1]? = some data ∧
        spec.Header header header.packetId := by
  constructor
  · rintro (_ | ⟨_, k, hk, h⟩)
    have hid := h.packetId_eq
    refine ⟨by omega, ?_, { h with packetId_eq := rfl }⟩
    rw [hid, Nat.add_sub_cancel, List.getElem?_eq_getElem hk]
  · rintro ⟨hid, hdata, h⟩
    obtain ⟨hk, rfl⟩ := List.getElem?_eq_some_iff.mp hdata
    exact .data header _ hk { h with packetId_eq := by omega }

theorem has_trailer_iff (header : GvspHeader) (trailer : GvspTrailer) :
    spec.Has (header, .trailer trailer) ↔
      trailer = spec.trailer ∧ spec.Header header (spec.data.length + 1) := by
  constructor
  · rintro (_ | _ | ⟨_, h⟩)
    exact ⟨rfl, h⟩
  · rintro ⟨rfl, h⟩
    exact .trailer header h

instance decidableHas : (packet : Packet) → Decidable (spec.Has packet)
  | (header, .leader leader) => decidable_of_iff _ (spec.has_leader_iff header leader).symm
  | (header, .payload data) => decidable_of_iff _ (spec.has_payload_iff header data).symm
  | (header, .trailer trailer) => decidable_of_iff _ (spec.has_trailer_iff header trailer).symm

/-- Every packet of the block is among `packets`. -/
def Supplied (packets : List Packet) : Prop :=
  ∀ id ≤ spec.data.length + 1, ∃ packet ∈ packets, packet.1.packetId = id

variable {spec}

theorem Has.header (h : spec.Has packet) :
    spec.Header packet.1 packet.1.packetId := by
  cases h with
  | leader header h => exact { h with packetId_eq := rfl }
  | data header k hk h => exact { h with packetId_eq := rfl }
  | trailer header h => exact { h with packetId_eq := rfl }

theorem Has.stride_eq (h : spec.Has packet) :
    payloadStride config.packetSize packet.1.headerLen = spec.stride := by
  rw [h.header.headerLen_eq]
  rfl

theorem length_le (k : Nat) (hk : k < spec.data.length) :
    spec.data[k].length ≤ spec.stride := by
  by_cases hlast : k + 1 < spec.data.length
  · exact (spec.full k hlast).le
  · have hne : spec.data ≠ [] := List.ne_nil_of_length_pos (by omega)
    have hk : k = spec.data.length - 1 := by omega
    subst hk
    refine (spec.last _ ?_).2
    rw [List.getLast?_eq_some_getLast hne, List.getLast_eq_getElem]
    rfl

theorem short_last {k : Nat} (hk : k < spec.data.length)
    (hshort : spec.data[k].length < spec.stride) : k + 1 = spec.data.length := by
  by_contra hne
  have := spec.full k (by omega)
  unfold stride at hshort
  omega

theorem end_le {k : Nat} (hk : k < spec.data.length) :
    k * spec.stride + spec.data[k].length ≤ config.bufferLimit := by
  refine le_trans ?_ spec.within
  have htotal := Buffer.length_flatten_stride spec.stride spec.data spec.full
  by_cases hlast : k + 1 < spec.data.length
  · have hslots := Nat.mul_le_mul_right spec.stride (show k + 1 ≤ spec.data.length - 1 by omega)
    have := @length_le _ spec k hk
    rw [Nat.add_mul, Nat.one_mul] at hslots
    omega
  · have hne : spec.data ≠ [] := List.ne_nil_of_length_pos (by omega)
    have hk : k = spec.data.length - 1 := by omega
    subst hk
    rw [htotal, List.getLastD_eq_getLast?, List.getLast?_eq_some_getLast hne,
      List.getLast_eq_getElem]
    rfl

theorem leaderInfo_isSome : ∃ info estimate,
    BlockInFlight.leaderInfo spec.leader = some (info, estimate) := by
  unfold BlockInFlight.leaderInfo
  split
  · exact ⟨_, _, rfl⟩
  · rename_i hchunk
    obtain ⟨himage, hsome⟩ := spec.assembled.resolve_left hchunk
    obtain ⟨image, heq⟩ := Option.isSome_iff_exists.mp hsome
    rw [heq, Option.filter_some, if_pos himage]
    exact ⟨_, _, rfl⟩

end WellFormedBlock

variable {content : Content}

namespace BlockInFlight

variable {config : AssemblyConfig} {spec : WellFormedBlock config}

theorem holds_eq {block : BlockInFlight} (h : spec.Has packet) :
    block.holds packet =
      if packet.1.packetId = 0 then block.leader.isSome
      else if packet.1.packetId = spec.data.length + 1 then block.trailer.isSome
      else block.bitmap.contains (packet.1.packetId - 1) := by
  cases h with
  | leader header h => simp [holds, h.packetId_eq]
  | data header k hk h =>
    rw [if_neg (by simp [h.packetId_eq]), if_neg (by simp [h.packetId_eq]; omega)]
    simp [holds, h.packetId_eq]
  | trailer header h => simp [holds, h.packetId_eq]

theorem holds_of_id {block : BlockInFlight} {first second : Packet} (hfirst : spec.Has first)
    (hsecond : spec.Has second) (hid : first.1.packetId = second.1.packetId) :
    block.holds first = block.holds second := by
  rw [holds_eq hfirst, holds_eq hsecond, hid]

/-- A block to which only packets of `spec` were given, before it is complete. -/
structure Feeding (spec : WellFormedBlock config) (block : BlockInFlight) (pieces : List Piece) :
    Prop where
  laid : block.Laid spec.stride pieces
  pieces_data : ∀ piece ∈ pieces, ∃ k, ∃ hk : k < spec.data.length,
    piece = (k + 1, spec.data[k])
  trailer_last : ∀ trailer ∈ block.trailer, trailer.lastPayloadId = spec.data.length
  unresolved : block.resolved = none
  supported : block.unsupported = false
  typed : block.leaderPayloadType = block.leader.map fun _ => spec.leader.payloadType

namespace Feeding

variable {block : BlockInFlight} {pieces : List Piece}

theorem pending_last (h : Feeding spec block pieces) {short : ShortPacket}
    (hshort : short ∈ block.shortPacket) : short.packetId = spec.data.length := by
  have hlt := h.laid.pending_lt short hshort
  obtain ⟨bytes, hbytes, hlength⟩ := h.laid.pending_held short hshort
  obtain ⟨k, hk, heq⟩ := h.pieces_data _ hbytes
  obtain ⟨hid, rfl⟩ := Prod.mk.inj heq
  rw [hid]
  exact WellFormedBlock.short_last hk (by omega)

theorem highest_le (h : Feeding spec block pieces) :
    block.highestPayloadId ≤ spec.data.length := by
  by_cases hunplaced : block.highestPayloadId = 0
  · omega
  cases htrailer : block.trailer with
  | none =>
    obtain ⟨bytes, hbytes⟩ := h.laid.top hunplaced (by simp [htrailer])
    obtain ⟨k, hk, heq⟩ := h.pieces_data _ hbytes
    have := congrArg Prod.fst heq
    dsimp only at this
    omega
  | some trailer =>
    have hlast := h.trailer_last trailer htrailer
    rcases h.laid.within trailer htrailer with hle | ⟨-, hpending⟩
    · omega
    · obtain ⟨bytes, hbytes, -⟩ := h.laid.pending_held _ hpending
      obtain ⟨k, hk, heq⟩ := h.pieces_data _ hbytes
      have := congrArg Prod.fst heq
      dsimp only at this
      omega

/-- What the handler of a packet of the block comes to: what was held stays
held, and the packet is held. -/
structure Fed (spec : WellFormedBlock config) (before : BlockInFlight) (packet : Packet)
    (after : BlockInFlight) : Prop where
  unresolved : after.resolved = none
  supported : after.unsupported = false
  typed : after.leaderPayloadType = after.leader.map fun _ => spec.leader.payloadType
  kept : ∀ other, spec.Has other → before.holds other = true → after.holds other = true
  held : after.holds packet = true

theorem Fed.idle (h : Feeding spec block pieces)
    (hheld : block.holds packet = true) : Fed spec block packet block :=
  ⟨h.unresolved, h.supported, h.typed, fun _ _ => id, hheld⟩

theorem onLeader (h : Feeding spec block pieces) (stats : StreamStats) (header : GvspHeader) :
    Fed spec block (header, .leader spec.leader) (block.onLeader stats spec.leader).1 := by
  have hcase := onLeader_cases block stats spec.leader
  generalize (block.onLeader stats spec.leader).1 = after at hcase ⊢
  generalize (block.onLeader stats spec.leader).2.1 = counted at hcase
  obtain ⟨kept, size, hassembled⟩ := spec.leaderInfo_isSome
  cases hcase with
  | repeated hsome =>
    refine Fed.idle h ?_
    rw [h.typed, Option.isSome_map] at hsome
    exact hsome
  | unsupported _ hnone =>
    rw [hassembled] at hnone
    cases hnone
  | taken info estimate _ hinfo =>
    refine ⟨h.unresolved, h.supported, rfl, fun other hother hheld => ?_, rfl⟩
    cases hother with
    | leader => rfl
    | data => exact hheld
    | trailer => exact hheld

theorem onPayload (h : Feeding spec block pieces) (stats : StreamStats) {header : GvspHeader}
    {k : Nat} (hk : k < spec.data.length) (hheader : spec.Header header (k + 1)) :
    Fed spec block (header, .payload spec.data[k])
      (block.onPayload config stats header spec.data[k]).2.1 := by
  have hid := hheader.packetId_eq
  have hstride : payloadStride config.packetSize header.headerLen = spec.stride := by
    rw [hheader.headerLen_eq]
    rfl
  have hfits := @WellFormedBlock.length_le _ spec k hk
  have hlimit := @WellFormedBlock.end_le _ spec _ hk
  by_cases hfree : block.bitmap.contains k = false
  swap
  · have hheld : block.holds (header, .payload spec.data[k]) = true := by
      simpa [holds, hid] using hfree
    rcases onPayload_cases config block stats header spec.data[k] with
      ⟨hplaceable, -⟩ | ⟨_, _, heq, -⟩
    · have := hplaceable.fresh
      rw [hid, Nat.add_sub_cancel] at this
      exact absurd this hfree
    · rw [heq]
      exact Fed.idle h hheld
  have hplaceable : Placeable config block header spec.data[k] :=
    { supported := h.supported
      id_pos := by omega
      stride_pos := by
        rw [hstride]
        exact spec.stride_pos.ne'
      within := fun trailer htrailer => by
        rw [h.trailer_last trailer htrailer]
        omega
      fresh := by rwa [hid, Nat.add_sub_cancel]
      fits_stride := by rwa [hstride]
      fits_limit := by rwa [hstride, hid, Nat.add_sub_cancel] }
  rw [onPayload_placeable config block stats header _ hplaceable, hstride, hid]
  dsimp only
  have hsettled := @accept_settled block (k + 1) spec.stride spec.data[k] hfree h.laid.shortOk
  -- The only packet that may be short is the last, so none is taken back out.
  have hrefused : (block.settled (k + 1) spec.stride spec.data[k]).2 = [] := by
    rw [List.eq_nil_iff_forall_not_mem]
    intro short hshort
    have hlast : short.packetId = spec.data.length := by
      rcases hsettled.refused_of short hshort with hpending | hthis
      · exact h.pending_last hpending
      · obtain ⟨hlt, rfl⟩ := mem_shortOf.mp hthis
        exact WellFormedBlock.short_last hk hlt
    rcases hsettled.refused_early short hshort with hearly | ⟨last, hmem, hearly⟩
    · have := h.highest_le
      omega
    · obtain ⟨trailer, htrailer, rfl⟩ := Option.mem_map.mp hmem
      rw [h.trailer_last trailer htrailer] at hearly
      omega
  have hcontains := @accept_contains block stats (k + 1) spec.stride spec.data[k]
  rw [hrefused] at hcontains
  obtain ⟨_, _, _, _, _, heq⟩ := block.accept_eq stats (k + 1) spec.stride spec.data[k]
  generalize (block.accept stats (k + 1) spec.stride spec.data[k]).1 = after at heq hcontains ⊢
  refine ⟨by rw [heq]; exact h.unresolved, by rw [heq]; exact h.supported,
    by rw [heq]; exact h.typed, fun other hother hheld => ?_, ?_⟩
  · cases hother with
    | leader =>
      rw [heq]
      exact hheld
    | trailer =>
      rw [heq]
      exact hheld
    | data other j hj hother =>
      simp only [holds, Bool.and_eq_true] at hheld ⊢
      exact ⟨hheld.1, (hcontains _).mpr ⟨.inr hheld.2, by simp⟩⟩
  · simp only [holds, Bool.and_eq_true, hid]
    exact ⟨by simp, (hcontains _).mpr ⟨.inl rfl, by simp⟩⟩

theorem onTrailer (h : Feeding spec block pieces) (stats : StreamStats) {header : GvspHeader}
    (hheader : spec.Header header (spec.data.length + 1)) :
    Fed spec block (header, .trailer spec.trailer)
      (block.onTrailer config stats header spec.trailer).1 := by
  have hcase := onTrailer_cases config block stats header spec.trailer
  generalize (block.onTrailer config stats header spec.trailer).1 = after at hcase ⊢
  generalize (block.onTrailer config stats header spec.trailer).2 = counted at hcase
  cases hcase with
  | repeated hsome => exact Fed.idle h hsome
  | unsupported _ hunsupported =>
    rw [h.supported] at hunsupported
    cases hunsupported
  | error _ _ _ herror => exact absurd hheader.no_error herror
  | bounded =>
    refine ⟨h.unresolved, h.supported, h.typed, fun other hother hheld => ?_, rfl⟩
    cases hother with
    | leader => exact hheld
    | data => simpa [holds] using hheld
    | trailer => rfl
  | refused short _ _ _ hshort hearly =>
    have hlast := h.pending_last hshort
    rw [hheader.packetId_eq] at hearly
    omega

theorem handle (h : Feeding spec block pieces) (stats : StreamStats) {header : GvspHeader}
    (hhas : spec.Has (header, content)) :
    Fed spec block (header, content) (block.handle config stats header content).1 := by
  cases hhas with
  | leader _ _ => exact h.onLeader stats header
  | data _ k hk hheader => exact h.onPayload stats hk hheader
  | trailer _ hheader => exact h.onTrailer stats hheader

end Feeding

theorem tryComplete_ready {block : BlockInFlight} (hopen : block.resolved = none)
    (hsupported : block.unsupported = false) (hleader : block.leader.isSome = true)
    {trailer : TrailerInfo} (htrailer : block.trailer = some trailer)
    (hin : block.bitmap.firstNComplete trailer.lastPayloadId = true) :
    block.tryComplete.resolved = some (.frame .complete) := by
  unfold tryComplete
  rw [if_neg (by simp [hopen, hsupported, Option.isSome_iff_ne_none.mp hleader]), htrailer]
  dsimp only
  rw [if_pos hin]

theorem tryComplete_resolved (block : BlockInFlight) (hopen : block.resolved = none) :
    block.tryComplete.resolved = none ∨ block.tryComplete.resolved = some (.frame .complete) := by
  unfold tryComplete
  split
  · exact .inl hopen
  · split
    · split
      · exact .inr rfl
      · exact .inl hopen
    · exact .inl hopen

end BlockInFlight

namespace Tracked

variable {config : AssemblyConfig}

/-- A block to which only packets of `spec` were given: it holds them all, and
is complete once every packet of `spec` is among them, and open before. -/
structure Reassembling (spec : WellFormedBlock config) (tracked : Tracked) : Prop where
  blockId_eq : tracked.block.blockId = spec.blockId
  given : ∀ packet ∈ tracked.packets, spec.Has packet
  accepted : ∀ packet ∈ tracked.accepted, packet ∈ tracked.packets
  placed : ∀ packet ∈ tracked.placed, packet ∈ tracked.packets
  payload : tracked.PayloadInv config
  supported : tracked.block.unsupported = false
  typed : tracked.block.leaderPayloadType =
    tracked.block.leader.map fun _ => spec.leader.payloadType
  held : ∀ packet ∈ tracked.packets, tracked.block.holds packet = true
  complete : spec.Supplied tracked.packets → tracked.block.resolved = some (.frame .complete)
  unfinished : ¬spec.Supplied tracked.packets → tracked.block.resolved = none

namespace Reassembling

variable {spec : WellFormedBlock config} {tracked : Tracked}

theorem trailer_last (h : tracked.PayloadInv config)
    (haccepted : ∀ packet ∈ tracked.accepted, spec.Has packet) :
    ∀ trailer ∈ tracked.block.trailer, trailer.lastPayloadId = spec.data.length := by
  intro info hinfo
  obtain ⟨header, trailer, hmem, rfl⟩ := h.trailer info hinfo
  cases haccepted _ hmem with
  | trailer _ hheader =>
    simp only [BlockInFlight.trailerInfo, hheader.packetId_eq]
    rfl

theorem pieces_data (haccepted : ∀ packet ∈ tracked.accepted, spec.Has packet) :
    ∀ piece ∈ tracked.pieces, ∃ k, ∃ hk : k < spec.data.length,
      piece = (k + 1, spec.data[k]) := by
  intro piece hpiece
  obtain ⟨header, hid, hmem⟩ := mem_pieces.mp hpiece
  obtain ⟨id, data⟩ := piece
  dsimp only at hid hmem
  cases haccepted _ hmem with
  | data _ k hk hheader => exact ⟨k, hk, by rw [← hid, hheader.packetId_eq]⟩

theorem feeding (h : tracked.Reassembling spec) (hopen : tracked.block.resolved = none) :
    tracked.block.Feeding spec tracked.pieces where
  laid := h.payload.laid_at spec.stride_pos fun other hother =>
    (h.given other (h.placed other hother)).stride_eq
  pieces_data := pieces_data fun packet hmem => h.given packet (h.accepted packet hmem)
  trailer_last := trailer_last h.payload fun packet hmem =>
    h.given packet (h.accepted packet hmem)
  unresolved := hopen
  supported := h.supported
  typed := h.typed

theorem consistent (h : tracked.Reassembling spec) (hhas : spec.Has packet) :
    Consistent config tracked packet := by
  cases hhas with
  | leader => trivial
  | data header k hk hheader =>
    intro _ other hother
    rw [(h.given other (h.placed other hother)).stride_eq]
    exact (WellFormedBlock.Has.data header k hk hheader).stride_eq.symm
  | trailer header hheader =>
    intro _ piece hpiece
    obtain ⟨k, hk, rfl⟩ := pieces_data (fun packet hmem =>
      h.given packet (h.accepted packet hmem)) piece hpiece
    rw [hheader.packetId_eq]
    exact .inl (by dsimp only; omega)

theorem supplied_of_complete (h : tracked.PayloadInv config)
    (haccepted : ∀ packet ∈ tracked.accepted, spec.Has packet)
    (hgiven : ∀ packet ∈ tracked.accepted, packet ∈ tracked.packets)
    (hcomplete : tracked.block.resolved = some (.frame .complete)) :
    spec.Supplied tracked.packets := by
  obtain ⟨hleader, trailer, htrailer, hin⟩ := h.complete hcomplete
  rw [trailer_last h haccepted trailer htrailer] at hin
  obtain ⟨-, hin⟩ := (PacketBitmap.firstNComplete_iff _ _).mp hin
  obtain ⟨σ, -, hlaid⟩ := h.laid
  intro id hid
  by_cases hfirst : id = 0
  · obtain ⟨info, hinfo⟩ := Option.isSome_iff_exists.mp hleader
    obtain ⟨header, leader, hmem, -⟩ := h.leader info hinfo
    refine ⟨_, hgiven _ hmem, ?_⟩
    cases haccepted _ hmem with
    | leader _ hheader => exact hheader.packetId_eq.trans hfirst.symm
  · by_cases hlast : id = spec.data.length + 1
    · obtain ⟨header, trailer, hmem, -⟩ := h.trailer trailer htrailer
      refine ⟨_, hgiven _ hmem, ?_⟩
      cases haccepted _ hmem with
      | trailer _ hheader => exact hheader.packetId_eq.trans hlast.symm
    · obtain ⟨bytes, hbytes⟩ := (hlaid.marked (id - 1)).mp (hin (id - 1) (by omega))
      obtain ⟨header, hheader, hmem⟩ := mem_pieces.mp hbytes
      exact ⟨_, hgiven _ hmem, by dsimp only at hheader ⊢; omega⟩

theorem ready {block : BlockInFlight} {packets : List Packet}
    (hgiven : ∀ packet ∈ packets, spec.Has packet)
    (hheld : ∀ packet ∈ packets, block.holds packet = true) (hsupplied : spec.Supplied packets) :
    block.leader.isSome = true ∧ block.trailer.isSome = true ∧
      block.bitmap.firstNComplete spec.data.length = true := by
  have hall : ∀ id ≤ spec.data.length + 1, (if id = 0 then block.leader.isSome
      else if id = spec.data.length + 1 then block.trailer.isSome
      else block.bitmap.contains (id - 1)) = true := by
    intro id hid
    obtain ⟨packet, hmem, rfl⟩ := hsupplied id hid
    rw [← BlockInFlight.holds_eq (hgiven packet hmem)]
    exact hheld packet hmem
  refine ⟨hall 0 (by omega), ?_, ?_⟩
  · simpa using hall (spec.data.length + 1) le_rfl
  · have hslots : ∀ slot < spec.data.length, block.bitmap.contains slot = true := by
      intro slot hslot
      have := hall (slot + 1) (by omega)
      rwa [if_neg (by omega), if_neg (by omega), Nat.add_sub_cancel] at this
    rw [PacketBitmap.firstNComplete_iff]
    refine ⟨?_, hslots⟩
    by_contra hshort
    have := PacketBitmap.lt_total_of_contains (hslots block.bitmap.total (by omega))
    omega

theorem start (serial : Nat) (header : GvspHeader) (now : Instant)
    (hid : header.blockId = spec.blockId) :
    (Tracked.ofBlock serial (.start config .empty header now)).Reassembling spec where
  blockId_eq := hid
  given := nofun
  accepted := nofun
  placed := nofun
  payload := PayloadInv.start serial header now
  supported := rfl
  typed := rfl
  held := nofun
  complete := fun hsupplied => by
    obtain ⟨_, hmem, -⟩ := hsupplied 0 (by omega)
    cases hmem
  unfinished := fun _ => rfl

theorem deliver_complete (h : tracked.Reassembling spec)
    (hhas : spec.Has packet) (hsupplied : spec.Supplied tracked.packets) (now : Instant) :
    (tracked.deliver config packet { tracked.block with lastPacket := now }).Reassembling spec := by
  have hresolved := h.complete hsupplied
  have hplaces : ¬tracked.block.Places config packet := by
    obtain ⟨header, content⟩ := packet
    cases content with
    | payload data =>
      intro hplaces
      rw [hplaces.1] at hresolved
      cases hresolved
    | leader => exact id
    | trailer => exact id
  have hsame : tracked.block.SameData { tracked.block with lastPacket := now } :=
    ⟨now, tracked.block.resend, tracked.block.resolved, rfl⟩
  have hheld : tracked.block.holds packet = true := by
    obtain ⟨other, hmem, hid⟩ := hsupplied packet.1.packetId (by
      cases hhas with
      | leader _ hheader =>
        rw [hheader.packetId_eq]
        omega
      | data _ k hk hheader =>
        rw [hheader.packetId_eq]
        omega
      | trailer _ hheader => rw [hheader.packetId_eq])
    rw [← BlockInFlight.holds_of_id (h.given other hmem) hhas hid]
    exact h.held other hmem
  have hstill : spec.Supplied (tracked.packets ++ [packet]) := fun id hid => by
    obtain ⟨other, hmem, heq⟩ := hsupplied id hid
    exact ⟨other, List.mem_append_left _ hmem, heq⟩
  rw [deliver_idle h.payload.held hsame.holds hplaces]
  exact
    { blockId_eq := h.blockId_eq
      given := by
        intro other hother
        rcases List.mem_append.mp hother with hold | hnew
        · exact h.given other hold
        · rw [List.mem_singleton] at hnew
          rwa [hnew]
      accepted := fun other hother => List.mem_append_left _ (h.accepted other hother)
      placed := fun other hother => List.mem_append_left _ (h.placed other hother)
      payload := h.payload.sameData hsame h.payload.complete _
      supported := h.supported
      typed := h.typed
      held := by
        intro other hother
        rcases List.mem_append.mp hother with hold | hnew
        · exact h.held other hold
        · rw [List.mem_singleton] at hnew
          rwa [hnew]
      complete := fun _ => hresolved
      unfinished := fun hnot => absurd hstill hnot }

/-- A packet of the block given to an open one: it is held with the earlier ones,
and the block is complete if it was the last one missing. -/
theorem deliver_open (h : tracked.Reassembling spec) (hopen : tracked.block.resolved = none)
    (stats : StreamStats) {header : GvspHeader} (now : Instant)
    (hhas : spec.Has (header, content)) :
    (tracked.deliver config (header, content)
      (tracked.block.deliver config stats header content now).1).Reassembling spec := by
  have hfeeding := h.feeding hopen
  have htouched : BlockInFlight.Feeding spec { tracked.block with lastPacket := now }
      tracked.pieces :=
    ⟨hfeeding.laid.sameData ⟨now, _, _, rfl⟩, hfeeding.pieces_data, hfeeding.trailer_last,
      hopen, h.supported, h.typed⟩
  have hfed := htouched.handle stats hhas
  have hpayload := PayloadInv.deliver (fun _ => h.payload) stats header content now
    (h.consistent hhas)
  have hkey := tracked.block.deliver_key config stats header content now
  rw [tracked.block.deliver_open config stats header content now hopen] at hpayload hkey ⊢
  obtain ⟨resend, heq⟩ := BlockInFlight.receive_handled config
    { tracked.block with lastPacket := now } stats header content now
  rw [heq] at hpayload hkey ⊢
  generalize (BlockInFlight.handle config { tracked.block with lastPacket := now } stats header
    content).1 = handled at *
  have hcheck := BlockInFlight.tryComplete_resolved { handled with resend } hfed.unresolved
  have hready := @BlockInFlight.tryComplete_ready { handled with resend } hfed.unresolved hfed.supported
  obtain ⟨resolved, hafter⟩ := BlockInFlight.tryComplete_eq { handled with resend }
  rw [hafter] at hpayload hkey hcheck hready ⊢
  dsimp only at hcheck hready
  have hpayload := hpayload (hcheck.imp (fun hnone => ⟨hnone, hfed.supported⟩) id)
  have hgiven : ∀ other ∈ tracked.packets ++ [(header, content)], spec.Has other := by
    intro other hother
    rcases List.mem_append.mp hother with hold | hnew
    · exact h.given other hold
    · rw [List.mem_singleton] at hnew
      rwa [hnew]
  have haccepted : ∀ other ∈ (tracked.deliver config (header, content)
      { handled with resend, resolved }).accepted, other ∈ tracked.packets ++ [(header, content)] := by
    intro other hother
    rcases (mem_deliver_accepted.mp hother).1 with hold | ⟨-, rfl⟩
    · exact List.mem_append_left _ (h.accepted other hold)
    · simp
  have hheld : ∀ other ∈ tracked.packets ++ [(header, content)], handled.holds other = true := by
    intro other hother
    rcases List.mem_append.mp hother with hold | hnew
    · exact hfed.kept other (h.given other hold) (h.held other hold)
    · rw [List.mem_singleton] at hnew
      rw [hnew]
      exact hfed.held
  exact
    { blockId_eq := (congrArg Prod.fst hkey).trans h.blockId_eq
      given := hgiven
      accepted := haccepted
      placed := by
        intro other hother
        rcases List.mem_append.mp hother with hold | hnew
        · exact List.mem_append_left _ (h.placed other hold)
        · split at hnew
          · exact List.mem_append_right _ hnew
          · cases hnew
      payload := hpayload
      supported := hfed.supported
      typed := hfed.typed
      held := hheld
      complete := by
        intro hsupplied
        obtain ⟨hleader, htrailer, hin⟩ := ready hgiven hheld hsupplied
        obtain ⟨info, hinfo⟩ := Option.isSome_iff_exists.mp htrailer
        refine hready hleader hinfo ?_
        rwa [trailer_last hpayload (fun other hother => hgiven other (haccepted other hother)) info
          hinfo]
      unfinished := by
        intro hmissing
        refine hcheck.resolve_right fun hcomplete => hmissing ?_
        exact supplied_of_complete hpayload
          (fun other hother => hgiven other (haccepted other hother)) haccepted hcomplete }

theorem deliver (h : tracked.Reassembling spec) (stats : StreamStats) {header : GvspHeader}
    (now : Instant) (hhas : spec.Has (header, content)) :
    (tracked.deliver config (header, content)
      (tracked.block.deliver config stats header content now).1).Reassembling spec := by
  by_cases hsupplied : spec.Supplied tracked.packets
  · rw [tracked.block.deliver_resolved config stats header content now (h.complete hsupplied)]
    exact h.deliver_complete hhas hsupplied now
  · exact h.deliver_open (h.unfinished hsupplied) stats now hhas

theorem quiet (h : tracked.Reassembling spec) {after : BlockInFlight}
    (hquiet : Quiet config false tracked.block after) :
    ({ tracked with block := after }).Reassembling spec := by
  have hresolved : after.resolved = tracked.block.resolved := by
    cases hquiet with
    | touched => rfl
    | answered => rfl
    | closed _ hclosing => cases hclosing
    | asked stats now =>
      obtain ⟨_, heq⟩ := tracked.block.resendDue_eq config stats now
      rw [heq]
  obtain ⟨lastPacket, resend, _, rfl⟩ := hquiet.sameData
  dsimp only at hresolved
  subst hresolved
  exact
    { h with
      payload := h.payload.sameData ⟨lastPacket, resend, tracked.block.resolved, rfl⟩
        h.payload.complete _ }

end Reassembling

end Tracked

/-- What calls may do to the block of `serial`: it is started by and given only
packets of `spec`, and is not closed. -/
def WellFormedBlock.guard {config : AssemblyConfig} (spec : WellFormedBlock config)
    (serial : Nat) : History.Guard where
  starts := fun started packet => started = serial → spec.Has packet
  gives := fun tracked packet => tracked.serial = serial → spec.Has packet
  closes := fun closed => closed ≠ serial

instance {config : AssemblyConfig} (spec : WellFormedBlock config) (serial : Nat)
    (history : History) (call : Call) : Decidable ((spec.guard serial).Admits history call) :=
  decidable_of_iff
    (call.keepsConfig = true ∧
      (∀ packet ∈ call.packet, history.asm.fresh call ≠ [] →
        history.started.length = serial → spec.Has packet) ∧
      (∀ packet ∈ call.packet, ∀ tracked ∈ history.inFlight,
        tracked.block.blockId = packet.1.blockId → tracked.serial = serial → spec.Has packet) ∧
      ∀ tracked ∈ history.inFlight,
        history.asm.closes call tracked.block.blockId = true → tracked.serial ≠ serial)
    ⟨fun h => ⟨h.1, h.2.1, h.2.2.1, h.2.2.2⟩, fun h => ⟨h.1, h.2, h.3, h.4⟩⟩

/-- The packet a call carries for a block id. -/
def Call.packetFor (call : Call) (blockId : Nat) : Option Packet :=
  call.packet.filter fun packet => packet.1.blockId = blockId

def packetsFor (blockId : Nat) (calls : List Call) : List Packet :=
  calls.filterMap (·.packetFor blockId)

theorem packetsFor_append (blockId : Nat) (first second : List Call) :
    packetsFor blockId (first ++ second) = packetsFor blockId first ++ packetsFor blockId second :=
  List.filterMap_append

theorem Tracked.observe_packets (tracked : Tracked) (config : AssemblyConfig) (call : Call)
    (after : BlockInFlight) :
    (tracked.observe config call.packet after).packets =
      tracked.packets ++ packetsFor after.blockId [call] := by
  have hone : packetsFor after.blockId [call] = (call.packetFor after.blockId).toList := by
    unfold packetsFor
    cases h : call.packetFor after.blockId <;> simp [h]
  rw [hone]
  unfold Call.packetFor observe
  cases hpacket : call.packet with
  | none => simp
  | some packet =>
    by_cases hid : packet.1.blockId = after.blockId <;> simp [Option.filter_some, hid, deliver]

variable {history : History}

namespace History

section Run

variable {config : AssemblyConfig} (spec : WellFormedBlock config) (serial : Nat)

theorem reassembling_run (history : History) (calls : List Call)
    (hsound : history.Sound config fun tracked => tracked.serial = serial →
      tracked.Reassembling spec)
    (hcalls : Guarded History.call (spec.guard serial).Admits history calls) :
    (run History.call history calls).Sound config fun tracked => tracked.serial = serial →
      tracked.Reassembling spec := by
  refine sound_run config _ (spec.guard serial) ?_ ?_ ?_ history calls hsound hcalls
  · intro started stats datagram header content now _ hstarts hserial
    have hhas := hstarts hserial
    exact (Tracked.Reassembling.start started header now hhas.header.blockId_eq).deliver stats now
      hhas
  · intro tracked closing after hinv hcloses hquiet hserial
    cases closing with
    | true => exact absurd hserial (hcloses rfl)
    | false => exact (hinv hserial).quiet hquiet
  · intro tracked stats datagram header content now hinv _ _ hgives hserial
    exact (hinv hserial).deliver stats now (hgives hserial)

end Run

theorem Mirrors.serial_lt (h : history.Mirrors) {tracked : Tracked}
    (hmem : tracked ∈ history.blocks) : tracked.serial < history.started.length := by
  have hpair := List.mem_map_of_mem (f := fun tracked => (tracked.block.key, tracked.serial)) hmem
  rw [h.order, List.mem_zipIdx_iff_getElem?] at hpair
  exact (List.getElem?_eq_some_iff.mp hpair).1

theorem Mirrors.exists_serial (h : history.Mirrors) {serial : Nat}
    (hlt : serial < history.started.length) :
    ∃ tracked ∈ history.blocks, tracked.serial = serial := by
  have hpair : (history.started[serial], serial) ∈ history.started.zipIdx := by
    rw [List.mem_zipIdx_iff_getElem?]
    exact List.getElem?_eq_getElem hlt
  rw [← h.order, List.mem_map] at hpair
  obtain ⟨tracked, hmem, heq⟩ := hpair
  exact ⟨tracked, hmem, congrArg Prod.snd heq⟩

theorem started_run (history : History) (calls : List Call) :
    history.started.length ≤ (run History.call history calls).started.length := by
  induction calls generalizing history with
  | nil => exact le_rfl
  | cons call rest ih =>
    refine le_trans ?_ (ih (history.call call))
    simp [History.call]

theorem observed_packets {call : Call} (h : history.Mirrors)
    {after : Tracked} (hafter : after ∈ history.observed call) :
    (∃ before ∈ history.inFlight, before.serial = after.serial ∧
      after.packets = before.packets ++ packetsFor after.block.blockId [call]) ∨
    (after.serial = history.started.length ∧
      after.packets = packetsFor after.block.blockId [call]) := by
  obtain ⟨before, hbefore, block, hblock, rfl⟩ := observed_mem h hafter
  have hpackets := before.observe_packets history.asm.config call block
  rw [Tracked.observe_block, Tracked.observe_serial]
  rcases List.mem_append.mp hbefore with hold | hnew
  · exact .inl ⟨before, hold, rfl, hpackets⟩
  · obtain ⟨started, -, rfl⟩ := List.mem_map.mp hnew
    exact .inr ⟨rfl, hpackets⟩

/-- The packets of the block of `serial` are those the calls carried for it, up
to when it left. -/
structure Ledger (history : History) (serial blockId : Nat) (calls : List Call) : Prop where
  inFlight : ∀ tracked ∈ history.inFlight, tracked.serial = serial →
    tracked.packets = packetsFor blockId calls
  left : ∀ gone ∈ history.left, gone.tracked.serial = serial →
    ∃ earlier, earlier <+: calls ∧ gone.tracked.packets = packetsFor blockId earlier

theorem ledger_call {history : History} {serial blockId : Nat} {calls : List Call} {call : Call}
    (hmirrors : history.Mirrors) (h : history.Ledger serial blockId calls)
    (hfirst : history.started.length = serial → calls = [])
    (hid : ∀ tracked ∈ history.observed call, tracked.serial = serial →
      tracked.block.blockId = blockId) :
    (history.call call).Ledger serial blockId (calls ++ [call]) := by
  have hobserved : ∀ tracked ∈ history.observed call, tracked.serial = serial →
      tracked.packets = packetsFor blockId (calls ++ [call]) := by
    intro tracked hmem hserial
    have hblock := hid tracked hmem hserial
    rcases observed_packets hmirrors hmem with ⟨before, hbefore, heq, hpackets⟩ | ⟨heq, hpackets⟩
    · rw [hpackets, h.inFlight before hbefore (heq.trans hserial), hblock, packetsFor_append]
    · rw [hpackets, hblock, hfirst (heq.symm.trans hserial), List.nil_append]
  constructor
  · exact fun tracked hmem => hobserved tracked (List.mem_of_mem_drop hmem)
  · intro gone hgone hserial
    rcases history.mem_call_left call hmirrors hgone with hold | ⟨hmem, -, -⟩
    · obtain ⟨earlier, hinitial, hpackets⟩ := h.left gone hold hserial
      exact ⟨earlier, hinitial.trans (List.prefix_append _ _), hpackets⟩
    · exact ⟨_, List.prefix_refl _, hobserved _ hmem hserial⟩

end History

theorem BlockInFlight.depart_complete {block : BlockInFlight} (packetSize : Nat)
    (h : block.resolved = some (.frame .complete)) :
    ∃ frame, (block.depart packetSize).frame = some frame ∧ frame.blockId = block.blockId ∧
      frame.status = .complete ∧ frame.leader = block.leader ∧
      frame.payloadType =
        (block.leaderPayloadType.or (block.trailer.map (·.payloadType))).getD 0 ∧
      frame.expectedSize = some block.extent ∧
      frame.payload = block.buffer.take block.extent := by
  unfold depart
  dsimp only
  rw [h]
  exact ⟨_, rfl, rfl, rfl, rfl, rfl, rfl, rfl⟩

/-- The frame a well-formed block leaves as. -/
structure WellFormedBlock.IsFrame {config : AssemblyConfig} (spec : WellFormedBlock config)
    (frame : AssembledBlock) : Prop where
  blockId_eq : frame.blockId = spec.blockId
  status_eq : frame.status = .complete
  leader_eq : frame.leader = (BlockInFlight.leaderInfo spec.leader).map Prod.fst
  leader_isSome : frame.leader.isSome = true
  payloadType_eq : frame.payloadType = spec.leader.payloadType
  expectedSize_eq : frame.expectedSize = some spec.data.flatten.length
  payload_eq : frame.payload = spec.data.flatten

theorem Tracked.Reassembling.frame {config : AssemblyConfig} {spec : WellFormedBlock config}
    {tracked : Tracked} (h : tracked.Reassembling spec)
    (hresolved : tracked.block.resolved.isSome = true) :
    spec.Supplied tracked.packets ∧
      ∃ frame, (tracked.block.depart config.packetSize).frame = some frame ∧ spec.IsFrame frame := by
  have hsupplied : spec.Supplied tracked.packets := by
    by_contra hmissing
    rw [h.unfinished hmissing] at hresolved
    cases hresolved
  have hcomplete := h.complete hsupplied
  have haccepted : ∀ packet ∈ tracked.accepted, spec.Has packet := fun packet hmem =>
    h.given packet (h.accepted packet hmem)
  obtain ⟨hleader, trailer, htrailer, hin⟩ := h.payload.complete hcomplete
  obtain ⟨info, hinfo⟩ := Option.isSome_iff_exists.mp hleader
  obtain ⟨_, leader, hmem, hkept⟩ := h.payload.leader info hinfo
  have hleaderEq : leader = spec.leader := by
    cases haccepted _ hmem with
    | leader => rfl
  obtain ⟨σ, -, hlaid⟩ := h.payload.laid
  obtain ⟨data, hlength, hdata, -, hextent, hbytes⟩ := hlaid.exact htrailer hin
  rw [trailer_last h.payload haccepted trailer htrailer] at hlength
  have hsame : data = spec.data := by
    refine List.ext_getElem hlength fun k hk hk' => ?_
    obtain ⟨j, hj, heq⟩ := pieces_data haccepted _ (hdata k hk)
    obtain ⟨hid, hpiece⟩ := Prod.mk.inj heq
    have : k = j := by omega
    subst this
    exact hpiece
  rw [hsame] at hextent hbytes
  obtain ⟨frame, hframe, hid, hstatus, hkeptLeader, htype, hsize, hpayload⟩ :=
    BlockInFlight.depart_complete config.packetSize hcomplete
  refine ⟨hsupplied, frame, hframe, hid.trans h.blockId_eq, hstatus, ?_, ?_, ?_, ?_, ?_⟩
  · rw [hkeptLeader, hinfo, ← hleaderEq, hkept]
  · rw [hkeptLeader, hinfo]
    rfl
  · rw [htype, h.typed, hinfo]
    rfl
  · rw [hsize, hextent]
  · rw [hpayload, hbytes]

namespace History

theorem Sound.blocks {config : AssemblyConfig} {inv : Tracked → Prop}
    (h : history.Sound config inv) : ∀ tracked ∈ history.blocks, inv tracked := by
  intro tracked hmem
  rcases List.mem_append.mp hmem with hleft | hflight
  · obtain ⟨gone, hgone, rfl⟩ := List.mem_map.mp hleft
    exact (h.left gone hgone).1
  · exact h.inFlight tracked hflight

theorem sound_next (config : AssemblyConfig) (calls : List Call)
    (hkeeps : ∀ call ∈ calls, call.keepsConfig = true) (inv : Tracked → Prop) :
    (after config calls).Sound config fun tracked =>
      tracked.serial = (after config calls).started.length → inv tracked := by
  have h := sound_after config (fun _ => True) (fun _ _ => True) (fun _ _ _ _ _ _ _ => trivial)
    (fun _ _ _ _ _ => trivial) (fun _ _ _ _ _ _ _ _ _ _ => trivial) calls
    (guarded_of_forall _ _ _ _ fun _ call hcall => ⟨hkeeps call hcall, fun _ _ _ _ _ => trivial⟩)
  have hnot : ∀ tracked ∈ (after config calls).blocks,
      tracked.serial = (after config calls).started.length → inv tracked := by
    intro tracked hmem hserial
    have := h.mirrors.serial_lt hmem
    omega
  exact ⟨h.config_eq, h.mirrors, fun tracked hmem => hnot tracked (List.mem_append_right _ hmem),
    fun gone hgone => ⟨hnot _ (List.mem_append_left _ (List.mem_map_of_mem hgone)),
      (h.left gone hgone).2⟩⟩

theorem ledger_run {config : AssemblyConfig} {spec : WellFormedBlock config}
    {first : Call} (hadmitted : history.asm.fresh first ≠ [])
    (hsound : history.Sound config fun tracked => tracked.serial = history.started.length →
      tracked.Reassembling spec)
    (later : List Call)
    (hcalls : Guarded History.call (spec.guard history.started.length).Admits history
      (first :: later)) :
    (run History.call history (first :: later)).Ledger history.started.length spec.blockId
      (first :: later) := by
  have hid : ∀ calls call, Guarded History.call (spec.guard history.started.length).Admits
      history (calls ++ [call]) →
      ∀ tracked ∈ (run History.call history calls).observed call,
        tracked.serial = history.started.length → tracked.block.blockId = spec.blockId := by
    intro calls call hguard tracked hmem hserial
    have hafter := reassembling_run spec history.started.length history _ hsound hguard
    have hbefore := reassembling_run spec history.started.length history calls hsound
      ((guarded_append _ _ _ _ _).mp hguard).1
    rw [run_append] at hafter
    refine (hafter.blocks tracked ?_ hserial).blockId_eq
    rw [run_cons, run_nil, blocks_call _ _ hbefore.mirrors]
    exact List.mem_append_right _ hmem
  induction later using List.reverseRecOn with
  | nil =>
    refine @ledger_call history _ _ [] first hsound.mirrors ⟨?_, ?_⟩ (fun _ => rfl) (hid [] first hcalls)
    · intro tracked hmem hserial
      have := hsound.mirrors.serial_lt (List.mem_append_right _ hmem)
      omega
    · intro gone hgone hserial
      have := hsound.mirrors.serial_lt (List.mem_append_left _ (List.mem_map_of_mem hgone))
      omega
  | append_singleton later call ih =>
    rw [← List.cons_append] at hcalls ⊢
    have hbefore := ((guarded_append _ _ _ _ _).mp hcalls).1
    have hmirrors := (reassembling_run spec _ history _ hsound hbefore).mirrors
    rw [run_append]
    refine ledger_call hmirrors (ih hbefore) (fun hnone => ?_) (hid _ _ hcalls)
    have hgrown := started_run (history.call first) later
    have hone : history.started.length < (history.call first).started.length := by
      have := List.length_pos_of_ne_nil hadmitted
      simp only [History.call, List.length_append, List.length_map]
      omega
    rw [run_cons] at hnone
    omega

end History

/-- What holds of the block of `serial` after calls that carried packets
for it: it is open until they include each of its packets, complete from then
on, and leaves as its frame. -/
structure Reassembled {config : AssemblyConfig} (spec : WellFormedBlock config) (serial : Nat)
    (calls : List Call) (history : History) : Prop where
  present : ∃ tracked ∈ history.blocks, tracked.serial = serial
  unfinished : ¬spec.Supplied (packetsFor spec.blockId calls) →
    ∀ tracked ∈ history.blocks, tracked.serial = serial →
      tracked ∈ history.inFlight ∧ tracked.block.resolved = none
  complete : spec.Supplied (packetsFor spec.blockId calls) →
    ∀ tracked ∈ history.blocks, tracked.serial = serial →
      tracked.block.resolved = some (.frame .complete)
  frame : ∀ gone ∈ history.left, gone.tracked.serial = serial →
    ∃ frame, gone.frame = some frame ∧ spec.IsFrame frame

theorem WellFormedBlock.Supplied.mono {config : AssemblyConfig} {spec : WellFormedBlock config}
    {first second : List Packet} (h : spec.Supplied first) (hsub : first ⊆ second) :
    spec.Supplied second := by
  intro id hid
  obtain ⟨packet, hmem, heq⟩ := h id hid
  exact ⟨packet, hsub hmem, heq⟩

theorem packetsFor_initial {blockId : Nat} {first second : List Call} (h : first <+: second) :
    packetsFor blockId first ⊆ packetsFor blockId second := by
  obtain ⟨rest, rfl⟩ := h
  rw [packetsFor_append]
  exact List.subset_append_left _ _

/-- A block that is started by one of its packets is complete exactly once each
of its packets has come, in any order, with any repetition and whatever comes
for other blocks, and leaves as its frame; as long as every packet given to it
is its own and nothing closes it. -/
theorem block_reassembled (config : AssemblyConfig) (earlier : List Call)
    (spec : WellFormedBlock config) (first : Call) (later : List Call)
    (hearlier : ∀ call ∈ earlier, call.keepsConfig = true)
    (hadmitted : (History.after config earlier).asm.fresh first ≠ [])
    (hcalls : Guarded History.call
      (spec.guard (History.after config earlier).started.length).Admits
      (History.after config earlier) (first :: later)) :
    Reassembled spec (History.after config earlier).started.length (first :: later)
      (run History.call (History.after config earlier) (first :: later)) := by
  generalize hhistory : History.after config earlier = history at *
  have hmirrors : history.Mirrors := by
    rw [← hhistory]
    exact History.mirrors_after config earlier
  have hsound : history.Sound config fun tracked => tracked.serial = history.started.length →
      tracked.Reassembling spec := by
    rw [← hhistory]
    exact History.sound_next config earlier hearlier _
  have hledger := History.ledger_run hadmitted hsound later hcalls
  have hafter := History.reassembling_run spec history.started.length history _ hsound hcalls
  have hstarted : history.started.length <
      (run History.call history (first :: later)).started.length := by
    have hfirst := List.length_pos_of_ne_nil hadmitted
    have hgrown := History.started_run (history.call first) later
    rw [run_cons]
    refine lt_of_lt_of_le ?_ hgrown
    simp only [History.call, List.length_append, List.length_map]
    omega
  generalize run History.call history (first :: later) = reached at *
  have hleft : ∀ gone ∈ reached.left, gone.tracked.serial = history.started.length →
      gone.tracked.block.resolved = some (.frame .complete) ∧
        spec.Supplied (packetsFor spec.blockId (first :: later)) ∧
        ∃ frame, gone.frame = some frame ∧ spec.IsFrame frame := by
    intro gone hgone hserial
    obtain ⟨hinv, hframe⟩ := hafter.left gone hgone
    obtain ⟨hsupplied, hisFrame⟩ :=
      (hinv hserial).frame (hafter.mirrors.left_resolved gone hgone)
    rw [← hframe] at hisFrame
    refine ⟨(hinv hserial).complete hsupplied, ?_, hisFrame⟩
    obtain ⟨before, hinitial, hpackets⟩ := hledger.left gone hgone hserial
    rw [hpackets] at hsupplied
    exact hsupplied.mono (packetsFor_initial hinitial)
  refine ⟨hafter.mirrors.exists_serial hstarted, ?_, ?_, ?_⟩
  · intro hmissing tracked hmem hserial
    rcases List.mem_append.mp hmem with hdeparted | hflight
    · obtain ⟨gone, hgone, rfl⟩ := List.mem_map.mp hdeparted
      exact absurd (hleft gone hgone hserial).2.1 hmissing
    · refine ⟨hflight, (hafter.inFlight tracked hflight hserial).unfinished ?_⟩
      rwa [hledger.inFlight tracked hflight hserial]
  · intro hsupplied tracked hmem hserial
    rcases List.mem_append.mp hmem with hdeparted | hflight
    · obtain ⟨gone, hgone, rfl⟩ := List.mem_map.mp hdeparted
      exact (hleft gone hgone hserial).1
    · refine (hafter.inFlight tracked hflight hserial).complete ?_
      rwa [hledger.inFlight tracked hflight hserial]
  · exact fun gone hgone hserial => (hleft gone hgone hserial).2.2

section Runs

open FakeCamera

def chunkSpec : BlockSpec := { blockId := 1, payloadType := payloadTypeChunkData }

/-- Two data packets of chunk data in packets of 4 payload bytes. -/
def chunkBlock : WellFormedBlock { packetSize := 40 } where
  blockId := 1
  extendedIds := false
  leader := { payloadType := payloadTypeChunkData, timestamp := 0, image := none }
  data := [[1, 2, 3, 4], [5]]
  trailer :=
    { payloadType := payloadTypeChunkData, sizeY := 5, chunkPayloadLength := none,
      chunkLayoutId := none }
  assembled := by decide
  stride_pos := by decide
  full := by
    intro k hk
    obtain rfl : k = 0 := by simpa using hk
    rfl
  last := by decide
  within := by decide

/-- The data packets in reverse, one of them twice, the leader after them, and a
packet of another block in between. -/
def shuffledRun : List Call :=
  [.ingest (payload chunkSpec 1 [1, 2, 3, 4]) 1,
    .ingest (leader { chunkSpec with blockId := 2 }) 2, .ingest (payload chunkSpec 2 [5]) 3,
    .ingest (leader chunkSpec) 4, .ingest (trailer chunkSpec 3 5) 5]

set_option maxRecDepth 10000 in
theorem block_reassembled_shuffled :
    Reassembled chunkBlock 0 (.ingest (payload chunkSpec 2 [5]) 0 :: shuffledRun)
      (History.after { packetSize := 40 } (.ingest (payload chunkSpec 2 [5]) 0 :: shuffledRun)) :=
  block_reassembled { packetSize := 40 } [] chunkBlock (.ingest (payload chunkSpec 2 [5]) 0)
    shuffledRun (by decide) (by decide) (by decide)

/-- A data packet with the error status 0x8006. -/
def failedPayload : List UInt8 := putHeader chunkSpec 0x8006 formatPayload 1 ++ [1, 2, 3, 4]

/-- The datagrams of the block, the first data packet with the error status. -/
def failedDatagrams : List (List UInt8) :=
  [leader chunkSpec, failedPayload, payload chunkSpec 2 [5], trailer chunkSpec 3 5]

set_option maxRecDepth 10000 in
/-- The datagrams are the block's packets, and only a data packet has an error
status: it is ignored, and the block stays open. -/
theorem error_status_not_reassembled :
    failedDatagrams.map (fun datagram => (parsePacketRef datagram).toOption.map fun packet =>
        (packet.header.blockId, packet.header.packetId, packet.header.status, packet.content)) =
      [some (1, 0, 0, .leader chunkBlock.leader), some (1, 1, 0x8006, .payload [1, 2, 3, 4]),
        some (1, 2, 0, .payload [5]), some (1, 3, 0, .trailer chunkBlock.trailer)] ∧
    chunkBlock.data = [[1, 2, 3, 4], [5]] ∧
    (History.after { packetSize := 40 } (failedDatagrams.map (.ingest · 0))).left.length = 0 ∧
    (History.after { packetSize := 40 } (failedDatagrams.map (.ingest · 0))).inFlight.map
      (·.block.resolved) = [none] := by
  decide

end Runs

end VivaGenicam.Stream
