import VivaGenicam.Stream.Block

/-!
Packets shorter than the stride. Only the last data packet of a block may be
short, so a short packet stays pending until it is disproved, and then it is
taken back out. This module says which packets are disproved and what taking
them back changes.
-/

namespace VivaGenicam.Stream

open Gvsp Library

/-- What settling two short packets, the one pending and the one just placed,
comes to: each is kept or refused, only the highest packet of the block that
the trailer does not pass can be kept, and what is refused is passed by one. -/
structure Settled (pending this : Option ShortPacket) (highest : Nat) (knownLast : Option Nat)
    (kept : Option ShortPacket) (refused : List ShortPacket) : Prop where
  kept_of : ∀ short ∈ kept, short ∈ pending ∨ short ∈ this
  refused_of : ∀ short ∈ refused, short ∈ pending ∨ short ∈ this
  accounted : ∀ short, short ∈ pending ∨ short ∈ this → short ∈ kept ∨ short ∈ refused
  kept_last : ∀ short ∈ kept, highest ≤ short.packetId ∧
    ∀ last ∈ knownLast, last ≤ short.packetId
  refused_early : ∀ short ∈ refused, short.packetId < highest ∨
    ∃ last ∈ knownLast, short.packetId < last
  nodup : (refused.map (·.packetId)).Nodup

namespace BlockInFlight

theorem settleShort_mem (pending this : Option ShortPacket) (highest : Nat)
    (knownLast : Option Nat) (short : ShortPacket)
    (h : short ∈ (settleShort pending this highest knownLast).1 ∨
      short ∈ (settleShort pending this highest knownLast).2) :
    short ∈ pending ∨ short ∈ this := by
  unfold settleShort at h
  rcases this with _ | this <;> rcases pending with _ | pending
  · exact h.imp_right (by simp)
  · dsimp only at h
    split at h <;> grind
  · dsimp only at h
    split at h <;> grind
  · by_cases horder : pending.packetId < this.packetId
    · simp only [if_pos horder] at h
      split at h <;> grind
    · simp only [if_neg horder] at h
      split at h <;> grind

theorem settleShort_settled (pending this : Option ShortPacket) (highest : Nat)
    (knownLast : Option Nat) (hpending : ∀ short ∈ pending, short.packetId ≤ highest)
    (hthis : ∀ short ∈ this, short.packetId ≤ highest)
    (hne : ∀ first ∈ pending, ∀ second ∈ this, first.packetId ≠ second.packetId) :
    Settled pending this highest knownLast (settleShort pending this highest knownLast).1
      (settleShort pending this highest knownLast).2 := by
  have hlast : ∀ short : ShortPacket,
      (short.packetId < highest ∨
          knownLast.any (fun last => decide (short.packetId < last)) = true) ↔
        (short.packetId < highest ∨ ∃ last ∈ knownLast, short.packetId < last) := by
    intro short
    cases knownLast <;> simp
  unfold settleShort
  rcases this with _ | this <;> rcases pending with _ | pending
  · constructor <;> simp
  · have hpending := hpending pending rfl
    dsimp only
    split <;> rename_i hearly <;> rw [hlast] at hearly <;> constructor <;> grind
  · have hthis := hthis this rfl
    dsimp only
    split <;> rename_i hearly <;> rw [hlast] at hearly <;> constructor <;> grind
  · have hpending := hpending pending rfl
    have hthis := hthis this rfl
    have hne := hne pending rfl this rfl
    by_cases horder : pending.packetId < this.packetId
    · simp only [if_pos horder]
      split <;> rename_i hearly <;> rw [hlast] at hearly <;> constructor <;> grind
    · simp only [if_neg horder]
      split <;> rename_i hearly <;> rw [hlast] at hearly <;> constructor <;> grind

@[simp] theorem refuseShort_contains (block : BlockInFlight) (stats : StreamStats)
    (short : ShortPacket) (slot : Nat) :
    (block.refuseShort stats short).1.bitmap.contains slot =
      (!decide (slot = short.packetId - 1) && block.bitmap.contains slot) :=
  block.bitmap.contains_clear _ _

@[simp] theorem refuseShort_total (block : BlockInFlight) (stats : StreamStats)
    (short : ShortPacket) :
    (block.refuseShort stats short).1.bitmap.total = block.bitmap.total :=
  block.bitmap.total_clear _

@[simp] theorem refuseShort_length (block : BlockInFlight) (stats : StreamStats)
    (short : ShortPacket) :
    (block.refuseShort stats short).1.buffer.length = block.buffer.length := by
  unfold refuseShort
  dsimp only
  split
  · apply Buffer.length_write
    rw [List.length_replicate]
    omega
  · rfl

theorem refuseShort_placed {block : BlockInFlight} (stats : StreamStats) (short : ShortPacket)
    {at_ : Nat} {piece : List UInt8} (h : Buffer.Placed block.buffer at_ piece)
    (hapart : at_ + piece.length ≤ (short.packetId - 1) * short.stride ∨
      (short.packetId - 1) * short.stride + short.length ≤ at_) :
    Buffer.Placed (block.refuseShort stats short).1.buffer at_ piece := by
  by_cases hempty : piece = []
  · rw [hempty]
    exact Buffer.Placed.nil _ _
  have hwithin := h.length_le hempty
  unfold refuseShort
  dsimp only
  split
  · apply h.write_disjoint
    · rw [List.length_replicate]
      omega
    · rw [List.length_replicate]
      omega
  · exact h

theorem refuseShort_received (block : BlockInFlight) (stats : StreamStats)
    (short : ShortPacket) (hmarked : block.bitmap.contains (short.packetId - 1) = true) :
    (block.refuseShort stats short).1.bitmap.received + 1 = block.bitmap.received :=
  block.bitmap.received_clear _ hmarked

theorem refuseAll_eq (block : BlockInFlight) (stats : StreamStats)
    (mismatches : List ShortPacket) :
    ∃ bitmap buffer,
      (block.refuseAll stats mismatches).1 = { block with bitmap, buffer } := by
  induction mismatches generalizing block stats with
  | nil => exact ⟨block.bitmap, block.buffer, rfl⟩
  | cons short rest ih =>
    obtain ⟨bitmap, buffer, h⟩ :=
      ih (block.refuseShort stats short).1 (block.refuseShort stats short).2
    exact ⟨bitmap, buffer, h⟩

theorem refuseAll_contains (block : BlockInFlight) (stats : StreamStats)
    (mismatches : List ShortPacket) (slot : Nat) :
    (block.refuseAll stats mismatches).1.bitmap.contains slot = true ↔
      block.bitmap.contains slot = true ∧ ∀ short ∈ mismatches, slot ≠ short.packetId - 1 := by
  induction mismatches generalizing block stats with
  | nil => simp [refuseAll]
  | cons short rest ih =>
    have hrest := ih (block.refuseShort stats short).1 (block.refuseShort stats short).2
    rw [refuseShort_contains] at hrest
    refine hrest.trans ?_
    simp only [Bool.and_eq_true, Bool.not_eq_true', decide_eq_false_iff_not, List.mem_cons,
      forall_eq_or_imp]
    tauto

@[simp] theorem refuseAll_total (block : BlockInFlight) (stats : StreamStats)
    (mismatches : List ShortPacket) :
    (block.refuseAll stats mismatches).1.bitmap.total = block.bitmap.total := by
  induction mismatches generalizing block stats with
  | nil => rfl
  | cons short rest ih => exact (ih _ _).trans (refuseShort_total block stats short)

@[simp] theorem refuseAll_length (block : BlockInFlight) (stats : StreamStats)
    (mismatches : List ShortPacket) :
    (block.refuseAll stats mismatches).1.buffer.length = block.buffer.length := by
  induction mismatches generalizing block stats with
  | nil => rfl
  | cons short rest ih => exact (ih _ _).trans (refuseShort_length block stats short)

theorem refuseAll_placed {block : BlockInFlight} (stats : StreamStats)
    (mismatches : List ShortPacket) {at_ : Nat} {piece : List UInt8}
    (h : Buffer.Placed block.buffer at_ piece)
    (hapart : ∀ short ∈ mismatches,
      at_ + piece.length ≤ (short.packetId - 1) * short.stride ∨
        (short.packetId - 1) * short.stride + short.length ≤ at_) :
    Buffer.Placed (block.refuseAll stats mismatches).1.buffer at_ piece := by
  induction mismatches generalizing block stats with
  | nil => exact h
  | cons short rest ih =>
    exact ih _ (refuseShort_placed stats short h (hapart short (by simp)))
      fun other hother => hapart other (by simp [hother])

theorem refuseAll_received (block : BlockInFlight) (stats : StreamStats)
    (mismatches : List ShortPacket) (hnodup : (mismatches.map (·.packetId)).Nodup)
    (hmarked : ∀ short ∈ mismatches,
      short.packetId ≠ 0 ∧ block.bitmap.contains (short.packetId - 1) = true) :
    (block.refuseAll stats mismatches).1.bitmap.received + mismatches.length =
        block.bitmap.received ∧
      (block.refuseAll stats mismatches).2 =
        { stats with packetsSizeMismatch := stats.packetsSizeMismatch + mismatches.length } := by
  induction mismatches generalizing block stats with
  | nil => exact ⟨rfl, rfl⟩
  | cons short rest ih =>
    rw [List.map_cons, List.nodup_cons] at hnodup
    have hhead := refuseShort_received block stats short (hmarked short (by simp)).2
    obtain ⟨hreceived, hstats⟩ := ih (block.refuseShort stats short).1
      (block.refuseShort stats short).2 hnodup.2 fun other hother => by
        have hother' := hmarked other (by simp [hother])
        have hne : other.packetId ≠ short.packetId := fun h =>
          hnodup.1 (h ▸ List.mem_map_of_mem hother)
        have hshort := (hmarked short (by simp)).1
        refine ⟨hother'.1, ?_⟩
        rw [refuseShort_contains, hother'.2]
        simp
        omega
    refine ⟨?_, hstats.trans ?_⟩
    · calc
        _ = ((block.refuseShort stats short).1.refuseAll (block.refuseShort stats short).2
              rest).1.bitmap.received + rest.length + 1 := rfl
        _ = _ := by rw [hreceived, hhead]
    · simp only [refuseShort, StreamStats.recordSizeMismatch, List.length_cons]
      congr 1
      omega

/-- The pending short packet is one the block holds, no further than its
furthest packet. -/
structure ShortOk (block : BlockInFlight) : Prop where
  pos : ∀ short ∈ block.shortPacket, short.packetId ≠ 0
  marked : ∀ short ∈ block.shortPacket, block.bitmap.contains (short.packetId - 1) = true
  le_highest : ∀ short ∈ block.shortPacket, short.packetId ≤ block.highestPayloadId

theorem place_contains (block : BlockInFlight) (packetId offset : Nat) (data : List UInt8)
    (slot : Nat) :
    (block.place packetId offset data).bitmap.contains slot =
      (decide (slot = packetId - 1) || block.bitmap.contains slot) := by
  simp only [place]
  rw [PacketBitmap.contains_set _ _ _ (by simp), PacketBitmap.contains_grow]

theorem place_received (block : BlockInFlight) (packetId offset : Nat) (data : List UInt8)
    (hfresh : block.bitmap.contains (packetId - 1) = false) :
    (block.place packetId offset data).bitmap.received = block.bitmap.received + 1 := by
  simp only [place]
  rw [PacketBitmap.received_set _ _ (by simp) (by simpa using hfresh),
    PacketBitmap.received_grow]

theorem mem_shortOf {packetId stride : Nat} {data : List UInt8} {short : ShortPacket} :
    short ∈ shortOf packetId stride data ↔
      data.length < stride ∧ short = { packetId, length := data.length, stride } := by
  unfold shortOf
  split <;> simp_all [eq_comm]

/-- The packets that placing `data` leaves pending and takes back out. -/
def settled (block : BlockInFlight) (packetId stride : Nat) (data : List UInt8) :
    Option ShortPacket × List ShortPacket :=
  settleShort block.shortPacket (shortOf packetId stride data)
    (max block.highestPayloadId packetId) (block.trailer.map (·.lastPayloadId))

/-- The block with the packet placed, before short packets are taken out. -/
def pended (block : BlockInFlight) (packetId stride : Nat) (data : List UInt8) : BlockInFlight :=
  { block.place packetId ((packetId - 1) * stride) data with
    shortPacket := (block.settled packetId stride data).1 }

theorem accept_def (block : BlockInFlight) (stats : StreamStats) (packetId stride : Nat)
    (data : List UInt8) :
    block.accept stats packetId stride data =
      (block.pended packetId stride data).refuseAll stats
        (block.settled packetId stride data).2 := rfl

theorem accept_fields (block : BlockInFlight) (stats : StreamStats) (packetId stride : Nat)
    (data : List UInt8) :
    let after := (block.accept stats packetId stride data).1
    let stop := (packetId - 1) * stride + data.length
    after.buffer.length = max block.buffer.length stop ∧
      after.bitmap.total = max block.bitmap.total (packetId - 1 + 1) ∧
      after.extent = max block.extent stop ∧
      after.unsupported = block.unsupported ∧ after.trailer = block.trailer ∧
      after.highestPayloadId = max block.highestPayloadId packetId ∧
      after.shortPacket = (block.settled packetId stride data).1 := by
  intro after stop
  obtain ⟨bitmap, buffer, heq⟩ := refuseAll_eq (block.pended packetId stride data) stats
    (block.settled packetId stride data).2
  refine ⟨?_, ?_, ?_, ?_, ?_, ?_, ?_⟩
  · simp only [after, accept_def, refuseAll_length, pended, place]
    rw [Buffer.length_write _ _ _ (by simp), Buffer.length_growTo]
  · simp only [after, accept_def, refuseAll_total, pended, place, PacketBitmap.total_set,
      PacketBitmap.total_grow]
  · exact congrArg BlockInFlight.extent heq
  · exact (congrArg BlockInFlight.unsupported heq).trans rfl
  · exact (congrArg BlockInFlight.trailer heq).trans rfl
  · exact congrArg BlockInFlight.highestPayloadId heq
  · exact congrArg BlockInFlight.shortPacket heq

section Accept

variable {block : BlockInFlight} (stats : StreamStats) {packetId : Nat} (stride : Nat)
  (data : List UInt8) (hid : packetId ≠ 0)
  (hfresh : block.bitmap.contains (packetId - 1) = false) (hshort : block.ShortOk)

include hid hfresh hshort

omit hid in
theorem accept_settled :
    Settled block.shortPacket (shortOf packetId stride data)
      (max block.highestPayloadId packetId) (block.trailer.map (·.lastPayloadId))
      (block.settled packetId stride data).1 (block.settled packetId stride data).2 := by
  apply settleShort_settled
  · exact fun short h => (hshort.le_highest short h).trans (le_max_left _ _)
  · intro short h
    rw [(mem_shortOf.mp h).2]
    exact le_max_right _ _
  · intro first hfirst second hsecond heq
    rw [(mem_shortOf.mp hsecond).2] at heq
    have := hshort.marked first hfirst
    rw [heq, hfresh] at this
    cases this

omit hfresh in
theorem accept_candidates {short : ShortPacket}
    (h : short ∈ block.shortPacket ∨ short ∈ shortOf packetId stride data) :
    short.packetId ≠ 0 ∧ (block.place packetId ((packetId - 1) * stride) data).bitmap.contains
      (short.packetId - 1) = true := by
  rw [place_contains]
  rcases h with hpending | hthis
  · exact ⟨hshort.pos short hpending, by simp [hshort.marked short hpending]⟩
  · rw [(mem_shortOf.mp hthis).2]
    exact ⟨hid, by simp⟩

omit hid hfresh hshort in
/-- The bits after a packet is placed: the earlier ones and its own, less those
of the packets taken back out. -/
theorem accept_contains (slot : Nat) :
    (block.accept stats packetId stride data).1.bitmap.contains slot = true ↔
      (slot = packetId - 1 ∨ block.bitmap.contains slot = true) ∧
        ∀ short ∈ (block.settled packetId stride data).2, slot ≠ short.packetId - 1 := by
  rw [accept_def, refuseAll_contains]
  refine and_congr_left fun _ => ?_
  have hplaced : (block.pended packetId stride data).bitmap.contains slot =
      (decide (slot = packetId - 1) || block.bitmap.contains slot) :=
    place_contains block packetId ((packetId - 1) * stride) data slot
  rw [hplaced, Bool.or_eq_true, decide_eq_true_eq]

theorem accept_received :
    ∃ taken,
      (block.accept stats packetId stride data).1.bitmap.received + taken =
        block.bitmap.received + 1 ∧
      (block.accept stats packetId stride data).2 =
        { stats with packetsSizeMismatch := stats.packetsSizeMismatch + taken } := by
  have hsettled := accept_settled stride data hfresh hshort
  obtain ⟨hreceived, hstats⟩ := refuseAll_received (block.pended packetId stride data) stats
    (block.settled packetId stride data).2 hsettled.nodup fun short h =>
      accept_candidates stride data hid hshort (hsettled.refused_of short h)
  have hplaced := place_received block packetId ((packetId - 1) * stride) data hfresh
  exact ⟨_, hreceived.trans hplaced, hstats⟩

theorem accept_shortOk : (block.accept stats packetId stride data).1.ShortOk := by
  have hsettled := accept_settled stride data hfresh hshort
  obtain ⟨-, -, -, -, -, hhighest, hkept⟩ := block.accept_fields stats packetId stride data
  constructor
  · intro short h
    rw [hkept] at h
    exact (accept_candidates stride data hid hshort (hsettled.kept_of short h)).1
  · intro short h
    rw [hkept] at h
    have hcandidate := accept_candidates stride data hid hshort (hsettled.kept_of short h)
    rw [accept_contains]
    refine ⟨by simpa [place_contains] using hcandidate.2, fun other hother heq => ?_⟩
    have hother' := accept_candidates stride data hid hshort (hsettled.refused_of other hother)
    have hsame : other.packetId = short.packetId := by omega
    have hlast := hsettled.kept_last short h
    rcases hsettled.refused_early other hother with hearly | ⟨last, hmem, hearly⟩
    · omega
    · have := hlast.2 last hmem
      omega
  · intro short h
    rw [hkept] at h
    rw [hhighest]
    rcases hsettled.kept_of short h with hpending | hthis
    · exact (hshort.le_highest short hpending).trans (le_max_left _ _)
    · rw [(mem_shortOf.mp hthis).2]
      exact le_max_right _ _

end Accept

end BlockInFlight

end VivaGenicam.Stream
