import VivaGenicam.Stream.History

/-!
Memory bounds. Packet ids, geometry and the trailer's packet count are remote
input; whatever they are, the buffer and the bitmap of a block stay within the
limit, and what was written stays within the buffer.
-/

namespace VivaGenicam.Stream

open Gvsp Library Library.Queue Library.Transition

/-- The stride a packet's header gives, never zero. -/
def packetStride (config : AssemblyConfig) (packet : Packet) : Nat :=
  max (payloadStride config.packetSize packet.1.headerLen) 1

/-- Bits a bitmap may track at a stride of `stride` or more. -/
def bitmapLimit (config : AssemblyConfig) (stride : Nat) : Nat :=
  max (config.payloadSize.getD 0 ⌈/⌉ stride) (config.bufferLimit / stride + 1)

theorem ceilDiv_le_of_le (bytes : Nat) {small large : Nat} (hpos : 0 < small)
    (hle : small ≤ large) : bytes ⌈/⌉ large ≤ bytes ⌈/⌉ small := by
  have hlarge : 0 < large := by omega
  rw [ceilDiv_le_iff_le_smul hlarge]
  calc
    bytes ≤ small • (bytes ⌈/⌉ small) := le_smul_ceilDiv hpos
    _ ≤ large • (bytes ⌈/⌉ small) := Nat.mul_le_mul_right _ hle

theorem ceilDiv_le_div_succ (bytes : Nat) {stride : Nat} (hpos : 0 < stride) :
    bytes ⌈/⌉ stride ≤ bytes / stride + 1 := by
  rw [ceilDiv_le_iff_le_smul hpos, smul_eq_mul]
  have := Nat.lt_div_mul_add (a := bytes) hpos
  have hcomm : stride * (bytes / stride + 1) = bytes / stride * stride + stride := by ring
  omega

/-- What is bounded of a block that was given `packets`. The pending short
packet is bounded too, because its range is computed again when it is taken
back out. -/
structure BlockInFlight.Bounded (config : AssemblyConfig) (packets : List Packet)
    (block : BlockInFlight) : Prop where
  buffer_le : block.buffer.length ≤ config.bufferLimit
  bitmap_le : ∀ stride, 0 < stride → (∀ packet ∈ packets, stride ≤ packetStride config packet) →
    block.bitmap.total ≤ bitmapLimit config stride
  total_lt : block.bitmap.total < 2 ^ 64
  extent_le : block.unsupported = false → block.extent ≤ block.buffer.length
  short_pos : ∀ short ∈ block.shortPacket, short.packetId ≠ 0
  short_fits : ∀ short ∈ block.shortPacket,
    (short.packetId - 1) * short.stride + short.length ≤ config.bufferLimit

namespace BlockInFlight

variable {config : AssemblyConfig} {packets : List Packet}

theorem SameData.bounded {before after : BlockInFlight} (h : before.SameData after)
    (hbound : before.Bounded config packets) : after.Bounded config packets := by
  obtain ⟨_, _, _, rfl⟩ := h
  exact ⟨hbound.buffer_le, hbound.bitmap_le, hbound.total_lt, hbound.extent_le,
    hbound.short_pos, hbound.short_fits⟩

theorem Bounded.append {config : AssemblyConfig} {packets : List Packet}
    {block : BlockInFlight} (h : block.Bounded config packets) (packet : Packet) :
    block.Bounded config (packets ++ [packet]) :=
  { h with bitmap_le := fun stride hpos hall =>
      h.bitmap_le stride hpos fun other hother => hall other (by simp [hother]) }

theorem start_bounded (config : AssemblyConfig) (header : GvspHeader) (content : Content)
    (now : Instant) : (start config .empty header now).Bounded config [(header, content)] := by
  have hsize : config.payloadSize.getD 0 ≤ config.bufferLimit := le_max_right _ _
  cases hpayload : config.payloadSize with
  | none => constructor <;> simp [start, hpayload]
  | some size =>
    rw [hpayload, Option.getD_some] at hsize
    constructor
    · simpa [start, hpayload, acquire] using hsize
    · intro stride hpos hall
      have hstride := hall (header, content) (by simp)
      simp only [start, hpayload, PacketBitmap.reset_eq, PacketBitmap.total_new, bitmapLimit,
        Option.getD_some]
      exact (ceilDiv_le_of_le size hpos hstride).trans (le_max_left _ _)
    · have hlt := config.payloadSize_lt size hpayload
      have hone := ceilDiv_le_of_le size Nat.one_pos
        (le_max_right (payloadStride config.packetSize header.headerLen) 1)
      simp only [start, hpayload, PacketBitmap.reset_eq, PacketBitmap.total_new]
      rw [ceilDiv_one] at hone
      omega
    · simp [start, hpayload]
    · simp [start, hpayload]
    · simp [start, hpayload]

theorem leaderInfo_le {leader : GvspLeader} {info : LeaderInfo} {estimate : Nat}
    (h : leaderInfo leader = some (info, estimate)) : estimate ≤ estimateCap := by
  unfold leaderInfo at h
  split at h
  · cases h
    exact Nat.zero_le _
  · split at h
    · cases h
    · cases h
      exact min_le_right _ _

variable (block : BlockInFlight)

theorem onLeader_bounded (stats : StreamStats) (leader : GvspLeader)
    (h : block.Bounded config packets) :
    (block.onLeader stats leader).1.Bounded config packets := by
  have hcase := onLeader_cases block stats leader
  generalize (block.onLeader stats leader).1 = after at hcase ⊢
  generalize (block.onLeader stats leader).2.1 = counted at hcase
  cases hcase with
  | repeated => exact h
  | unsupported =>
    exact ⟨Nat.zero_le _, h.bitmap_le, h.total_lt, nofun, h.short_pos, h.short_fits⟩
  | taken info estimate hnone hinfo =>
    have hestimate : estimate ≤ config.bufferLimit := (leaderInfo_le hinfo).trans (le_max_left _ _)
    refine ⟨?_, h.bitmap_le, h.total_lt, fun hsupported => ?_, h.short_pos, h.short_fits⟩
    · have := h.buffer_le
      simp only [Buffer.length_growTo]
      omega
    · have := h.extent_le hsupported
      simp only [Buffer.length_growTo]
      omega

theorem onPayload_bounded (stats : StreamStats) (header : GvspHeader) (data : List UInt8)
    (hmem : (header, Content.payload data) ∈ packets) (hwf : header.WellFormed)
    (h : block.Bounded config packets) :
    (block.onPayload config stats header data).2.1.Bounded config packets := by
  rcases onPayload_cases config block stats header data with ⟨hplace, heq⟩ | ⟨_, _, heq, _⟩
  swap
  · rw [heq]
    exact h
  rw [heq]
  dsimp only
  have hfits := hplace.fits_limit
  have hpos : 0 < payloadStride config.packetSize header.headerLen :=
    Nat.pos_of_ne_zero hplace.stride_pos
  generalize hstride : payloadStride config.packetSize header.headerLen = stride
    at hfits hpos ⊢
  obtain ⟨hbuffer, htotal, hextent, hunsupported, -, -, hshort⟩ :=
    block.accept_fields stats header.packetId stride data
  have hcandidate : ∀ short, short ∈ block.shortPacket ∨
      short ∈ shortOf header.packetId stride data → short.packetId ≠ 0 ∧
        (short.packetId - 1) * short.stride + short.length ≤ config.bufferLimit := by
    rintro short (hpending | hthis)
    · exact ⟨h.short_pos short hpending, h.short_fits short hpending⟩
    · rw [(mem_shortOf.mp hthis).2]
      exact ⟨hplace.id_pos, hfits⟩
  have hkept : ∀ short ∈ (block.settled header.packetId stride data).1, short.packetId ≠ 0 ∧
      (short.packetId - 1) * short.stride + short.length ≤ config.bufferLimit :=
    fun short hmem => hcandidate short (settleShort_mem _ _ _ _ short (.inl hmem))
  constructor
  · have := h.buffer_le
    omega
  · intro small hsmall hall
    have hle : small ≤ stride := by
      have := hall _ hmem
      simp only [packetStride, hstride] at this
      omega
    have hslot : header.packetId - 1 ≤ config.bufferLimit / small := by
      rw [Nat.le_div_iff_mul_le hsmall]
      have := Nat.mul_le_mul_left (header.packetId - 1) hle
      omega
    have hold := h.bitmap_le small hsmall hall
    have hnew : config.bufferLimit / small + 1 ≤ bitmapLimit config small := le_max_right _ _
    omega
  · have := h.total_lt
    have := hwf.packetId_lt
    omega
  · intro hsupported
    have := h.extent_le (hunsupported.symm.trans hsupported)
    omega
  · rw [hshort]
    exact fun short hmem => (hkept short hmem).1
  · rw [hshort]
    exact fun short hmem => (hkept short hmem).2

theorem trailerBound_le
    (header : GvspHeader) (content : Content) (hmem : (header, content) ∈ packets)
    {stride : Nat} (hpos : 0 < stride)
    (hall : ∀ packet ∈ packets, stride ≤ packetStride config packet) :
    trailerBound config header ≤ bitmapLimit config stride :=
  calc
    trailerBound config header
        ≤ config.bufferLimit ⌈/⌉ packetStride config (header, content) := min_le_right _ _
    _ ≤ config.bufferLimit ⌈/⌉ stride := ceilDiv_le_of_le _ hpos (hall _ hmem)
    _ ≤ config.bufferLimit / stride + 1 := ceilDiv_le_div_succ _ hpos
    _ ≤ bitmapLimit config stride := le_max_right _ _

theorem onTrailer_bounded (stats : StreamStats) (header : GvspHeader) (trailer : GvspTrailer)
    (hmem : (header, Content.trailer trailer) ∈ packets) (hwf : header.WellFormed)
    (h : block.Bounded config packets) :
    (block.onTrailer config stats header trailer).1.Bounded config packets := by
  have hcase := onTrailer_cases config block stats header trailer
  generalize (block.onTrailer config stats header trailer).1 = after at hcase ⊢
  generalize (block.onTrailer config stats header trailer).2 = counted at hcase
  have hgrow : ∀ stride, 0 < stride →
      (∀ packet ∈ packets, stride ≤ packetStride config packet) →
      (block.bitmap.grow (trailerBound config header)).total ≤ bitmapLimit config stride := by
    intro stride hpos hall
    rw [PacketBitmap.total_grow]
    exact max_le (h.bitmap_le stride hpos hall) (trailerBound_le header _ hmem hpos hall)
  have hlt : (block.bitmap.grow (trailerBound config header)).total < 2 ^ 64 := by
    have hbound : trailerBound config header ≤ header.packetId - 1 := min_le_left _ _
    have := hwf.packetId_lt
    rw [PacketBitmap.total_grow]
    exact max_lt h.total_lt (by omega)
  cases hcase with
  | repeated => exact h
  | unsupported =>
    exact ⟨h.buffer_le, h.bitmap_le, h.total_lt, h.extent_le, h.short_pos, h.short_fits⟩
  | error =>
    exact ⟨h.buffer_le, h.bitmap_le, h.total_lt, h.extent_le, h.short_pos, h.short_fits⟩
  | bounded => exact ⟨h.buffer_le, hgrow, hlt, h.extent_le, h.short_pos, h.short_fits⟩
  | refused =>
    refine ⟨?_, ?_, ?_, ?_, nofun, nofun⟩
    · rw [refuseShort_length]
      exact h.buffer_le
    · intro stride hpos hall
      rw [refuseShort_total]
      exact hgrow stride hpos hall
    · rw [refuseShort_total]
      exact hlt
    · rw [refuseShort_length]
      exact h.extent_le

theorem deliver_bounded (stats : StreamStats) (header : GvspHeader) (content : Content)
    (now : Instant) (hmem : (header, content) ∈ packets) (hwf : header.WellFormed)
    (h : block.Bounded config packets) :
    (block.deliver config stats header content now).1.Bounded config packets := by
  have htouched : block.SameData { block with lastPacket := now } :=
    ⟨now, block.resend, block.resolved, rfl⟩
  have h := htouched.bounded h
  unfold deliver
  dsimp only
  split
  · exact h
  · exact h
  · refine (receive_sameData _ _ _ _ _ _).bounded ?_
    cases content with
    | leader leader => exact onLeader_bounded _ stats leader h
    | payload data => exact onPayload_bounded _ stats header data hmem hwf h
    | trailer trailer => exact onTrailer_bounded _ stats header trailer hmem hwf h

end BlockInFlight

theorem History.bounded_after (config : AssemblyConfig) (calls : List Call)
    (hkeeps : ∀ call ∈ calls, call.keepsConfig = true) :
    (History.after config calls).Sound config
      (fun tracked => tracked.block.Bounded config tracked.packets) := by
  refine sound_after config _ (fun _ _ => True) ?_ ?_ ?_ calls ?_
  · exact fun _ stats _ header content now hread =>
      BlockInFlight.deliver_bounded _ stats header content now (by simp [Tracked.deliver])
        (readDatagram_wellFormed hread) (BlockInFlight.start_bounded config header content now)
  · exact fun _ _ _ hbound hstep => hstep.sameData.bounded hbound
  · exact fun tracked stats _ header content now hbound hread _ _ =>
      BlockInFlight.deliver_bounded _ stats header content now (by simp [Tracked.deliver])
        (readDatagram_wellFormed hread) (hbound.append (header, content))
  · exact guarded_of_forall _ _ _ _ fun _ call hcall =>
      ⟨hkeeps call hcall, fun _ _ _ _ _ => trivial⟩

end VivaGenicam.Stream
