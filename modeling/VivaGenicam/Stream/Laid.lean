import VivaGenicam.Stream.Steps

/-!
Where the data packets a block holds lie in its buffer. `Laid` is the layout at
one stride: every packet held stands at its offset, only the furthest may be
short, and the extent is where the furthest one ends. Each operation on a block
keeps it, and a block whose packets are all in has exactly their concatenation.
-/

namespace VivaGenicam.Stream

open Gvsp Library

/-- A data packet's id and bytes. -/
abbrev Piece := Nat × List UInt8

namespace BlockInFlight

/-- Whether the block's bit for a data packet is set. -/
def keeps (block : BlockInFlight) (piece : Piece) : Bool :=
  decide (piece.1 ≠ 0) && block.bitmap.contains (piece.1 - 1)

/-- The layout of the data packets a block holds, at stride `σ`. -/
structure Laid (σ : Nat) (block : BlockInFlight) (pieces : List Piece) : Prop where
  stride_pos : 0 < σ
  marked : ∀ slot, block.bitmap.contains slot = true ↔ ∃ data, (slot + 1, data) ∈ pieces
  unique : (pieces.map Prod.fst).Nodup
  id_pos : ∀ piece ∈ pieces, piece.1 ≠ 0
  le_highest : ∀ piece ∈ pieces, piece.1 ≤ block.highestPayloadId
  le_stride : ∀ piece ∈ pieces, piece.2.length ≤ σ
  bytes : ∀ piece ∈ pieces, Buffer.Placed block.buffer ((piece.1 - 1) * σ) piece.2
  ends : ∀ piece ∈ pieces, (piece.1 - 1) * σ + piece.2.length ≤ block.extent
  extent_le : block.extent ≤ block.highestPayloadId * σ
  /-- A short packet held is the one pending. -/
  short_pending : ∀ piece ∈ pieces, piece.2.length < σ →
    block.shortPacket = some { packetId := piece.1, length := piece.2.length, stride := σ }
  /-- The one pending is held, is the furthest, and nothing reaches past it. -/
  pending_stride : ∀ short ∈ block.shortPacket, short.stride = σ
  pending_lt : ∀ short ∈ block.shortPacket, short.length < σ
  pending_held : ∀ short ∈ block.shortPacket,
    ∃ data, (short.packetId, data) ∈ pieces ∧ data.length = short.length
  pending_highest : ∀ short ∈ block.shortPacket, short.packetId = block.highestPayloadId
  pending_extent : ∀ short ∈ block.shortPacket,
    block.extent ≤ (short.packetId - 1) * σ + short.length
  /-- The furthest packet is held unless a trailer showed it was not the last. -/
  top : block.highestPayloadId ≠ 0 →
    (∀ trailer ∈ block.trailer, trailer.lastPayloadId ≤ block.highestPayloadId) →
    ∃ data, (block.highestPayloadId, data) ∈ pieces
  /-- No packet lies beyond the trailer, but for an empty one right after the
  last. -/
  within : ∀ trailer ∈ block.trailer,
    block.highestPayloadId ≤ trailer.lastPayloadId ∨
      (block.highestPayloadId = trailer.lastPayloadId + 1 ∧
        block.shortPacket =
          some { packetId := trailer.lastPayloadId + 1, length := 0, stride := σ })

/-- What a trailer must find for the block to be laid out within it: no data
packet beyond the last, but for an empty one right after it. -/
def FitsTrailer (last : Nat) (pieces : List Piece) : Prop :=
  ∀ piece ∈ pieces, piece.1 ≤ last ∨ (piece.1 = last + 1 ∧ piece.2 = [])

theorem slots_apart {σ first second firstLength secondLength : Nat} (hfirst : first ≠ 0)
    (hsecond : second ≠ 0) (hne : first ≠ second) (hfits : firstLength ≤ σ)
    (hfits' : secondLength ≤ σ) :
    (first - 1) * σ + firstLength ≤ (second - 1) * σ ∨
      (second - 1) * σ + secondLength ≤ (first - 1) * σ := by
  have hnext : ∀ a b : Nat, a ≠ 0 → a < b → (a - 1) * σ + σ ≤ (b - 1) * σ := by
    intro a b ha hab
    calc
      (a - 1) * σ + σ = (a - 1 + 1) * σ := by ring
      _ ≤ (b - 1) * σ := Nat.mul_le_mul_right σ (by omega)
  rcases Nat.lt_or_gt_of_ne hne with hlt | hlt
  · have := hnext first second hfirst hlt
    omega
  · have := hnext second first hsecond hlt
    omega

theorem slot_end {σ id length : Nat} (hid : id ≠ 0) (hfits : length ≤ σ) :
    (id - 1) * σ + length ≤ id * σ := by
  calc
    (id - 1) * σ + length ≤ (id - 1 + 1) * σ := by rw [Nat.add_mul]; omega
    _ = id * σ := by rw [Nat.sub_add_cancel (by omega)]

namespace Laid

variable {σ : Nat} {block : BlockInFlight} {pieces : List Piece}

theorem shortOk (h : Laid σ block pieces) : block.ShortOk where
  pos := fun short hshort => by
    obtain ⟨data, hmem, -⟩ := h.pending_held short hshort
    exact h.id_pos _ hmem
  marked := fun short hshort => by
    obtain ⟨data, hmem, -⟩ := h.pending_held short hshort
    rw [h.marked, Nat.sub_add_cancel (Nat.pos_of_ne_zero (h.id_pos _ hmem))]
    exact ⟨data, hmem⟩
  le_highest := fun short hshort => (h.pending_highest short hshort).le

theorem keeps_mem (h : Laid σ block pieces) {piece : Piece} (hpiece : piece ∈ pieces) :
    block.keeps piece = true := by
  have hpos := h.id_pos piece hpiece
  simp only [keeps, hpos, ne_eq, not_false_eq_true, decide_true, Bool.true_and]
  rw [h.marked, Nat.sub_add_cancel (Nat.pos_of_ne_zero hpos)]
  exact ⟨piece.2, hpiece⟩

theorem filter_keeps (h : Laid σ block pieces) : pieces.filter block.keeps = pieces :=
  List.filter_eq_self.mpr fun _ => h.keeps_mem

theorem rebase (h : Laid σ block pieces) {stride : Nat} (hpos : 0 < stride)
    (hunplaced : block.highestPayloadId = 0) : Laid stride block pieces := by
  have hempty : pieces = [] := by
    rw [List.eq_nil_iff_forall_not_mem]
    intro piece hpiece
    have := h.le_highest piece hpiece
    exact h.id_pos piece hpiece (by omega)
  subst hempty
  have hpending : block.shortPacket = none := by
    rw [Option.eq_none_iff_forall_not_mem]
    intro short hshort
    obtain ⟨data, hmem, -⟩ := h.pending_held short hshort
    cases hmem
  have hextent := h.extent_le
  rw [hunplaced] at hextent
  exact
    { stride_pos := hpos
      marked := h.marked
      unique := h.unique
      id_pos := by simp
      le_highest := by simp
      le_stride := by simp
      bytes := by simp
      ends := by simp
      extent_le := by omega
      short_pending := by simp
      pending_stride := by simp [hpending]
      pending_lt := by simp [hpending]
      pending_held := by simp [hpending]
      pending_highest := by simp [hpending]
      pending_extent := by simp [hpending]
      top := absurd hunplaced
      within := fun _ _ => .inl (by omega) }

theorem sameData (h : Laid σ block pieces) {after : BlockInFlight}
    (hsame : block.SameData after) : Laid σ after pieces := by
  obtain ⟨lastPacket, resend, resolved, rfl⟩ := hsame
  exact { h with }

theorem leader (h : Laid σ block pieces) (payloadType : Option Nat)
    (info : Option LeaderInfo) (planned size : Nat) :
    Laid σ
      { block with
        leaderPayloadType := payloadType
        leader := info
        planned
        buffer := Buffer.growTo block.buffer size 0 }
      pieces :=
  { h with bytes := fun piece hpiece => (h.bytes piece hpiece).growTo size 0 }

section Accept

variable (stats : StreamStats) {id : Nat} {data : List UInt8}

theorem mem_accept (h : Laid σ block pieces) (hid : id ≠ 0) {piece : Piece} :
    piece ∈ (pieces ++ [(id, data)]).filter (block.accept stats id σ data).1.keeps ↔
      (piece ∈ pieces ∨ piece = (id, data)) ∧
        ∀ short ∈ (block.settled id σ data).2, piece.1 ≠ short.packetId := by
  have hrefused : ∀ short ∈ (block.settled id σ data).2, short.packetId ≠ 0 := by
    intro short hshort
    have hmem := settleShort_mem _ _ _ _ short (.inr hshort)
    exact (accept_candidates σ data hid h.shortOk hmem).1
  have hpos : piece ∈ pieces ∨ piece = (id, data) → piece.1 ≠ 0 := by
    rintro (hold | rfl)
    · exact h.id_pos piece hold
    · exact hid
  rw [List.mem_filter, List.mem_append, List.mem_singleton]
  refine and_congr_right fun hmem => ?_
  have hset : piece.1 - 1 = id - 1 ∨ block.bitmap.contains (piece.1 - 1) = true := by
    rcases hmem with hold | rfl
    · have := h.keeps_mem hold
      simp only [keeps, Bool.and_eq_true] at this
      exact .inr this.2
    · exact .inl rfl
  simp only [keeps, Bool.and_eq_true, decide_eq_true_eq, hpos hmem, ne_eq, not_false_eq_true,
    true_and, accept_contains, hset]
  refine forall₂_congr fun short hshort => not_congr ?_
  have := hrefused short hshort
  have := hpos hmem
  omega

theorem candidate (h : Laid σ block pieces) {short : ShortPacket}
    (hshort : short ∈ block.shortPacket ∨ short ∈ shortOf id σ data) :
    short.stride = σ ∧ short.length < σ ∧ ∃ bytes, ((short.packetId, bytes) ∈ pieces ∨
      (short.packetId, bytes) = (id, data)) ∧ bytes.length = short.length := by
  rcases hshort with hpending | hthis
  · obtain ⟨bytes, hmem, hlength⟩ := h.pending_held short hpending
    exact ⟨h.pending_stride short hpending, h.pending_lt short hpending, bytes, .inl hmem, hlength⟩
  · obtain ⟨hlt, rfl⟩ := mem_shortOf.mp hthis
    exact ⟨rfl, hlt, data, .inr rfl, rfl⟩

theorem length_le (h : Laid σ block pieces) (hfits : data.length ≤ σ) {piece : Piece}
    (hpiece : piece ∈ pieces ∨ piece = (id, data)) : piece.2.length ≤ σ := by
  rcases hpiece with hold | rfl
  · exact h.le_stride piece hold
  · exact hfits

/-- The bytes of every packet held but those refused stand where they did, and
the placed ones at their offset. -/
theorem accept_placed (h : Laid σ block pieces) (hid : id ≠ 0)
    (hfresh : block.bitmap.contains (id - 1) = false) (hfits : data.length ≤ σ) {piece : Piece}
    (hpiece : piece ∈ pieces ∨ piece = (id, data))
    (hkept : ∀ short ∈ (block.settled id σ data).2, piece.1 ≠ short.packetId) :
    Buffer.Placed (block.accept stats id σ data).1.buffer ((piece.1 - 1) * σ) piece.2 := by
  have hroom : (id - 1) * σ + data.length ≤
      (Buffer.growTo block.buffer ((id - 1) * σ + data.length) 0).length := by
    rw [Buffer.length_growTo]
    exact le_max_right _ _
  have hplaced : Buffer.Placed (block.pended id σ data).buffer ((piece.1 - 1) * σ) piece.2 := by
    rcases hpiece with hold | rfl
    · have hne : piece.1 ≠ id := by
        rintro rfl
        have := h.keeps_mem hold
        simp [keeps, hfresh] at this
      exact ((h.bytes piece hold).growTo _ 0).write_disjoint _ _ hroom
        (slots_apart (h.id_pos piece hold) hid hne (h.le_stride piece hold) hfits)
    · exact Buffer.placed_write _ _ _ hroom
  have hpos : piece.1 ≠ 0 := by
    rcases hpiece with hold | rfl
    · exact h.id_pos piece hold
    · exact hid
  rw [accept_def]
  refine refuseAll_placed stats _ hplaced fun short hshort => ?_
  have hmem := settleShort_mem _ _ _ _ short (.inr hshort)
  obtain ⟨hstride, -, bytes, hheld, hlength⟩ := h.candidate hmem
  rw [hstride]
  refine slots_apart hpos (accept_candidates σ data hid h.shortOk hmem).1 (hkept short hshort)
    (h.length_le hfits hpiece) ?_
  rw [← hlength]
  exact h.length_le hfits hheld

theorem accept {config : AssemblyConfig} {header : GvspHeader} (h : Laid σ block pieces)
    (hplaceable : Placeable config block header data)
    (hstride : payloadStride config.packetSize header.headerLen = σ) :
    Laid σ (block.accept stats header.packetId σ data).1
      ((pieces ++ [(header.packetId, data)]).filter
        (block.accept stats header.packetId σ data).1.keeps) := by
  obtain ⟨-, hid, -, hbound, hfresh, hfits, -⟩ := hplaceable
  rw [hstride] at hfits
  generalize header.packetId = id at *
  have hsettled := accept_settled σ data hfresh h.shortOk
  obtain ⟨-, -, hextent, -, htrailer, hhighest, hpending⟩ := block.accept_fields stats id σ data
  have hcontains := @accept_contains block stats id σ data
  have hplaced := fun piece : Piece => @accept_placed _ _ _ stats _ _ h hid hfresh hfits piece
  have hmem := fun piece : Piece => @mem_accept _ _ _ stats _ data h hid piece
  have hunique : (((pieces ++ [(id, data)]).filter
      (block.accept stats id σ data).1.keeps).map Prod.fst).Nodup := by
    refine (List.filter_sublist.map Prod.fst).nodup ?_
    rw [List.map_append, List.map_singleton, ← List.concat_eq_append, List.nodup_concat]
    refine ⟨fun hin => ?_, h.unique⟩
    obtain ⟨piece, hpiece, heq⟩ := List.mem_map.mp hin
    have := h.keeps_mem hpiece
    simp [keeps, heq, hfresh] at this
  generalize (block.accept stats id σ data).1 = after at *
  generalize (pieces ++ [(id, data)]).filter after.keeps = held at *
  -- The furthest packet, when no trailer names a further one, is not refused.
  have hfurthest : ∀ furthest, max block.highestPayloadId id ≤ furthest →
      (∀ last ∈ block.trailer.map (·.lastPayloadId), last ≤ furthest) →
      ∀ short ∈ (block.settled id σ data).2, furthest ≠ short.packetId := by
    rintro _ hle hlasts short hshort rfl
    rcases hsettled.refused_early short hshort with hearly | ⟨last, hmem, hearly⟩
    · omega
    · have := hlasts last hmem
      omega
  have hheldTop : max block.highestPayloadId id ≠ 0 →
      (∀ last ∈ block.trailer.map (·.lastPayloadId), last ≤ max block.highestPayloadId id) →
      ∃ bytes, (max block.highestPayloadId id, bytes) ∈ held := by
    intro _ hlasts
    by_cases hnew : block.highestPayloadId ≤ id
    · rw [max_eq_right hnew] at hlasts ⊢
      exact ⟨data, (hmem _).mpr ⟨.inr rfl, hfurthest id (max_le hnew le_rfl) hlasts⟩⟩
    · have hold : id ≤ block.highestPayloadId := by omega
      rw [max_eq_left hold] at hlasts ⊢
      obtain ⟨bytes, hbytes⟩ := h.top (by omega) fun trailer htrailer =>
        hlasts _ (Option.mem_map_of_mem _ htrailer)
      exact ⟨bytes, (hmem _).mpr ⟨.inl hbytes, hfurthest _ (max_le le_rfl hold) hlasts⟩⟩
  exact
    { stride_pos := h.stride_pos
      marked := by
        intro slot
        rw [hcontains]
        constructor
        · rintro ⟨hset, hkept⟩
          have hkept : ∀ short ∈ (block.settled id σ data).2, slot + 1 ≠ short.packetId := by
            intro short hshort heq
            exact hkept short hshort (by omega)
          rcases hset with rfl | hold
          · rw [Nat.sub_add_cancel (Nat.pos_of_ne_zero hid)] at hkept ⊢
            exact ⟨data, (hmem _).mpr ⟨.inr rfl, hkept⟩⟩
          · obtain ⟨bytes, hbytes⟩ := (h.marked slot).mp hold
            exact ⟨bytes, (hmem _).mpr ⟨.inl hbytes, hkept⟩⟩
        · rintro ⟨bytes, hbytes⟩
          obtain ⟨hheld, hkept⟩ := (hmem _).mp hbytes
          refine ⟨?_, fun short hshort heq => hkept short hshort ?_⟩
          · rcases hheld with hold | hnew
            · exact .inr ((h.marked slot).mpr ⟨bytes, hold⟩)
            · have : slot + 1 = id := congrArg Prod.fst hnew
              exact .inl (by omega)
          · have := (accept_candidates σ data hid h.shortOk
              (hsettled.refused_of short hshort)).1
            dsimp only
            omega
      unique := hunique
      id_pos := by
        intro piece hpiece
        rcases ((hmem piece).mp hpiece).1 with hold | rfl
        · exact h.id_pos piece hold
        · exact hid
      le_highest := by
        intro piece hpiece
        rw [hhighest]
        rcases ((hmem piece).mp hpiece).1 with hold | rfl
        · exact (h.le_highest piece hold).trans (le_max_left _ _)
        · exact le_max_right _ _
      le_stride := fun piece hpiece => h.length_le hfits ((hmem piece).mp hpiece).1
      bytes := fun piece hpiece =>
        hplaced piece ((hmem piece).mp hpiece).1 ((hmem piece).mp hpiece).2
      ends := by
        intro piece hpiece
        rw [hextent]
        rcases ((hmem piece).mp hpiece).1 with hold | rfl
        · exact (h.ends piece hold).trans (le_max_left _ _)
        · exact le_max_right _ _
      extent_le := by
        rw [hextent, hhighest]
        refine max_le (h.extent_le.trans ?_) ((slot_end hid hfits).trans ?_)
        · exact Nat.mul_le_mul_right σ (le_max_left _ _)
        · exact Nat.mul_le_mul_right σ (le_max_right _ _)
      short_pending := by
        intro piece hpiece hshort
        obtain ⟨hheld, hkept⟩ := (hmem piece).mp hpiece
        have hcandidate : (⟨piece.1, piece.2.length, σ⟩ : ShortPacket) ∈ block.shortPacket ∨
            (⟨piece.1, piece.2.length, σ⟩ : ShortPacket) ∈ shortOf id σ data := by
          rcases hheld with hold | rfl
          · exact .inl (h.short_pending piece hold hshort)
          · exact .inr (mem_shortOf.mpr ⟨hshort, rfl⟩)
        rcases hsettled.accounted _ hcandidate with hin | hout
        · rw [hpending]
          exact hin
        · exact absurd rfl (hkept _ hout)
      pending_stride := by
        intro short hshort
        rw [hpending] at hshort
        exact (h.candidate (hsettled.kept_of short hshort)).1
      pending_lt := by
        intro short hshort
        rw [hpending] at hshort
        exact (h.candidate (hsettled.kept_of short hshort)).2.1
      pending_held := by
        intro short hshort
        rw [hpending] at hshort
        obtain ⟨-, -, bytes, hbytes, hlength⟩ := h.candidate (hsettled.kept_of short hshort)
        obtain ⟨hle, hlasts⟩ := hsettled.kept_last short hshort
        exact ⟨bytes, (hmem _).mpr ⟨hbytes, hfurthest _ hle hlasts⟩, hlength⟩
      pending_highest := by
        intro short hshort
        rw [hpending] at hshort
        rw [hhighest]
        refine le_antisymm ?_ (hsettled.kept_last short hshort).1
        obtain ⟨-, -, bytes, hbytes, -⟩ := h.candidate (hsettled.kept_of short hshort)
        rcases hbytes with hold | hnew
        · exact (h.le_highest _ hold).trans (le_max_left _ _)
        · have : short.packetId = id := congrArg Prod.fst hnew
          omega
      pending_extent := by
        intro short hshort
        rw [hpending] at hshort
        rw [hextent]
        obtain ⟨hle, hlasts⟩ := hsettled.kept_last short hshort
        rcases hsettled.kept_of short hshort with hold | hthis
        · have hne : id ≠ short.packetId := by
            rintro rfl
            rw [h.shortOk.marked short hold] at hfresh
            cases hfresh
          refine max_le (h.pending_extent short hold) ((slot_end hid hfits).trans ?_)
          calc
            id * σ ≤ (short.packetId - 1) * σ := Nat.mul_le_mul_right σ (by omega)
            _ ≤ _ := Nat.le_add_right _ _
        · obtain ⟨-, rfl⟩ := mem_shortOf.mp hthis
          refine max_le (h.extent_le.trans ?_) le_rfl
          have hlt : block.highestPayloadId ≠ id := by
            -- The slot is free, so the furthest packet so far was another one.
            rintro rfl
            obtain ⟨bytes, hbytes⟩ := h.top hid fun trailer htrailer =>
              hlasts _ (Option.mem_map_of_mem _ htrailer)
            have := h.keeps_mem hbytes
            simp [keeps, hfresh] at this
          calc
            block.highestPayloadId * σ ≤ (id - 1) * σ := Nat.mul_le_mul_right σ (by
              dsimp only at hle
              omega)
            _ ≤ _ := Nat.le_add_right _ _
      top := by
        intro hne hlasts
        rw [hhighest] at hne ⊢
        rw [htrailer, hhighest] at hlasts
        refine hheldTop hne fun last hlast => ?_
        obtain ⟨trailer, htrailer, rfl⟩ := Option.mem_map.mp hlast
        exact hlasts trailer htrailer
      within := by
        intro trailer hmem'
        rw [htrailer] at hmem'
        rw [hhighest, hpending]
        have hid' := hbound trailer hmem'
        rcases h.within trailer hmem' with hle | ⟨heq, hempty⟩
        · exact .inl (max_le hle hid')
        · refine .inr ⟨by omega, ?_⟩
          rcases hsettled.accounted _ (.inl hempty) with hin | hout
          · exact hin
          · rcases hsettled.refused_early _ hout with hearly | ⟨last, hlast, hearly⟩
            · dsimp only at hearly
              omega
            · rw [hmem', Option.map_some, Option.mem_some_iff] at hlast
              dsimp only at hearly
              omega }

end Accept

theorem trailer (h : Laid σ block pieces) (hnone : block.trailer = none) (info : TrailerInfo)
    (size : Nat) (hfits : FitsTrailer info.lastPayloadId pieces) :
    Laid σ { block with trailer := some info, bitmap := block.bitmap.grow size } pieces where
  __ := h
  marked := fun slot => by
    rw [PacketBitmap.contains_grow]
    exact h.marked slot
  top := fun hne _ => h.top hne (by simp [hnone])
  within := by
    intro trailer htrailer
    obtain rfl : info = trailer := by simpa using htrailer
    by_cases hunplaced : block.highestPayloadId = 0
    · exact .inl (by dsimp only; omega)
    · obtain ⟨data, hdata⟩ := h.top hunplaced (by simp [hnone])
      rcases hfits _ hdata with hle | ⟨heq, hempty⟩
      · exact .inl hle
      · refine .inr ⟨heq, ?_⟩
        dsimp only at heq hempty
        rw [hempty, heq] at hdata
        exact h.short_pending _ hdata h.stride_pos

theorem trailer_refused (h : Laid σ block pieces) (stats : StreamStats) (info : TrailerInfo)
    (size : Nat) {short : ShortPacket} (hshort : block.shortPacket = some short)
    (hearly : short.packetId < info.lastPayloadId) {after : BlockInFlight}
    (hafter : after =
      ({ block with
          trailer := some info
          bitmap := block.bitmap.grow size
          shortPacket := none }.refuseShort stats short).1) :
    Laid σ after (pieces.filter after.keeps) := by
  have hhighest : after.highestPayloadId = block.highestPayloadId := by rw [hafter]; rfl
  have hextent : after.extent = block.extent := by rw [hafter]; rfl
  have hpending : after.shortPacket = none := by rw [hafter]; rfl
  have htrailer : after.trailer = some info := by rw [hafter]; rfl
  have hcontains : ∀ slot, after.bitmap.contains slot =
      (!decide (slot = short.packetId - 1) && block.bitmap.contains slot) := by
    intro slot
    rw [hafter, refuseShort_contains]
    simp
  have hshortPos := h.shortOk.pos short hshort
  have hmem : ∀ piece, piece ∈ pieces.filter after.keeps ↔
      piece ∈ pieces ∧ piece.1 ≠ short.packetId := by
    intro piece
    rw [List.mem_filter]
    refine and_congr_right fun hpiece => ?_
    have hpos := h.id_pos piece hpiece
    have hset := h.keeps_mem hpiece
    simp only [keeps, Bool.and_eq_true, decide_eq_true_eq] at hset
    simp only [keeps, hcontains, hset, Bool.and_true, Bool.not_eq_true',
      decide_eq_false_iff_not, decide_true, ne_eq, not_false_eq_true, Bool.true_and]
    omega
  have hold : block.highestPayloadId < info.lastPayloadId := by
    rw [← h.pending_highest short hshort]
    exact hearly
  have hmarked : ∀ slot, after.bitmap.contains slot = true ↔
      ∃ data, (slot + 1, data) ∈ pieces.filter after.keeps := by
    intro slot
    rw [hcontains, Bool.and_eq_true, Bool.not_eq_true', decide_eq_false_iff_not, h.marked]
    constructor
    · rintro ⟨hne, data, hdata⟩
      exact ⟨data, (hmem _).mpr ⟨hdata, fun heq => hne (by dsimp only at heq; omega)⟩⟩
    · rintro ⟨data, hdata⟩
      obtain ⟨hheld, hne⟩ := (hmem _).mp hdata
      dsimp only at hne
      exact ⟨by omega, data, hheld⟩
  have hbytes : ∀ piece ∈ pieces.filter after.keeps,
      Buffer.Placed after.buffer ((piece.1 - 1) * σ) piece.2 := by
    intro piece hpiece
    obtain ⟨hheld, hne⟩ := (hmem piece).mp hpiece
    obtain ⟨bytes, hbytes, hlength⟩ := h.pending_held short hshort
    rw [hafter]
    refine refuseShort_placed stats short (h.bytes piece hheld) ?_
    rw [h.pending_stride short hshort, ← hlength]
    exact slots_apart (h.id_pos piece hheld) hshortPos hne (h.le_stride piece hheld)
      (h.le_stride _ hbytes)
  exact
    { stride_pos := h.stride_pos
      marked := hmarked
      unique := (List.filter_sublist.map Prod.fst).nodup h.unique
      id_pos := fun piece hpiece => h.id_pos piece ((hmem piece).mp hpiece).1
      le_highest := fun piece hpiece => by
        rw [hhighest]
        exact h.le_highest piece ((hmem piece).mp hpiece).1
      le_stride := fun piece hpiece => h.le_stride piece ((hmem piece).mp hpiece).1
      bytes := hbytes
      ends := fun piece hpiece => by
        rw [hextent]
        exact h.ends piece ((hmem piece).mp hpiece).1
      extent_le := by
        rw [hextent, hhighest]
        exact h.extent_le
      short_pending := by
        intro piece hpiece hlt
        obtain ⟨hheld, hne⟩ := (hmem piece).mp hpiece
        have := h.short_pending piece hheld hlt
        rw [hshort, Option.some_inj] at this
        exact absurd (by rw [this]) hne
      pending_stride := by simp [hpending]
      pending_lt := by simp [hpending]
      pending_held := by simp [hpending]
      pending_highest := by simp [hpending]
      pending_extent := by simp [hpending]
      top := by
        intro _ hlasts
        have := hlasts info htrailer
        omega
      within := by
        intro trailer hmem'
        rw [htrailer] at hmem'
        obtain rfl : info = trailer := by simpa using hmem'
        exact .inl (by omega) }

/-! ### A block whose packets are all in -/

theorem extent_eq (h : Laid σ block pieces) {trailer : TrailerInfo}
    (htrailer : block.trailer = some trailer) {bytes : List UInt8}
    (hlast : (trailer.lastPayloadId, bytes) ∈ pieces) :
    block.extent = (trailer.lastPayloadId - 1) * σ + bytes.length := by
  refine le_antisymm ?_ (h.ends _ hlast)
  have hpos : trailer.lastPayloadId ≠ 0 := h.id_pos _ hlast
  have hslot : (trailer.lastPayloadId - 1) * σ + σ = trailer.lastPayloadId * σ := by
    calc
      _ = (trailer.lastPayloadId - 1 + 1) * σ := by ring
      _ = _ := by rw [Nat.sub_add_cancel (Nat.pos_of_ne_zero hpos)]
  by_cases hfull : bytes.length = σ
  · rw [hfull, hslot]
    rcases h.within trailer htrailer with hle | ⟨-, hempty⟩
    · exact h.extent_le.trans (Nat.mul_le_mul_right σ hle)
    · exact h.pending_extent _ hempty
  · have hshort := h.short_pending _ hlast (lt_of_le_of_ne (h.le_stride _ hlast) hfull)
    exact h.pending_extent _ hshort

theorem extent_empty (h : Laid σ block pieces) {trailer : TrailerInfo}
    (htrailer : block.trailer = some trailer) (hnone : trailer.lastPayloadId = 0) :
    block.extent = 0 := by
  rcases h.within trailer htrailer with hle | ⟨-, hempty⟩
  · have := h.extent_le.trans (Nat.mul_le_mul_right σ (hle.trans hnone.le))
    omega
  · have := h.pending_extent _ hempty
    simpa [hnone] using this

/-- The data packets `1 ..= last` of a block all of whose packets are in: full
strides but for the last, end to end up to the extent. -/
theorem exact (h : Laid σ block pieces) {trailer : TrailerInfo}
    (htrailer : block.trailer = some trailer)
    (hcomplete : block.bitmap.firstNComplete trailer.lastPayloadId = true) :
    ∃ data : List (List UInt8), data.length = trailer.lastPayloadId ∧
      (∀ k, ∀ hk : k < data.length, (k + 1, data[k]) ∈ pieces) ∧
      (∀ k, ∀ hk : k + 1 < data.length, (getElem data k (Nat.lt_of_succ_lt hk)).length = σ) ∧
      block.extent = data.flatten.length ∧
      block.buffer.take block.extent = data.flatten := by
  have hin : ∀ k : Fin trailer.lastPayloadId, ∃ bytes, (k.1 + 1, bytes) ∈ pieces := fun k =>
    (h.marked k).mp (((PacketBitmap.firstNComplete_iff _ _).mp hcomplete).2 k k.2)
  choose bytes hbytes using hin
  obtain ⟨data, rfl⟩ : ∃ data, data = List.ofFn bytes := ⟨_, rfl⟩
  have hheld : ∀ k, ∀ hk : k < (List.ofFn bytes).length,
      (k + 1, (List.ofFn bytes)[k]) ∈ pieces := by
    intro k hk
    rw [List.getElem_ofFn]
    exact hbytes ⟨k, _⟩
  have hlength : (List.ofFn bytes).length = trailer.lastPayloadId := List.length_ofFn
  generalize List.ofFn bytes = data at hheld hlength ⊢
  have hfull : ∀ k, ∀ hk : k + 1 < data.length,
      (getElem data k (Nat.lt_of_succ_lt hk)).length = σ := by
    intro k hk
    by_contra hne
    -- A short packet before the last would be the furthest one.
    have hmem := hheld k (Nat.lt_of_succ_lt hk)
    have hshort := h.short_pending _ hmem (lt_of_le_of_ne (h.le_stride _ hmem) hne)
    have := h.pending_highest _ hshort
    have := h.le_highest _ (hheld (k + 1) hk)
    dsimp only at *
    omega
  have hextent : block.extent = data.flatten.length := by
    rw [Buffer.length_flatten_stride σ data hfull]
    by_cases hnone : trailer.lastPayloadId = 0
    · rw [List.length_eq_zero_iff.mp (hlength.trans hnone), h.extent_empty htrailer hnone]
      simp
    · have hne : data ≠ [] := List.ne_nil_of_length_pos (by omega)
      have hmem := hheld (data.length - 1) (by omega)
      rw [← List.getLast_eq_getElem hne, Nat.sub_add_cancel (by omega), hlength] at hmem
      rw [h.extent_eq htrailer hmem, hlength, List.getLastD_eq_getLast?,
        List.getLast?_eq_some_getLast hne]
      rfl
  refine ⟨data, hlength, hheld, hfull, hextent, ?_⟩
  rw [hextent]
  apply Buffer.Placed.take_eq
  refine Buffer.placed_flatten _ σ 0 data (fun k hk => ?_) hfull
  have := h.bytes _ (hheld k hk)
  rwa [Nat.zero_add]

end Laid

end BlockInFlight

end VivaGenicam.Stream
