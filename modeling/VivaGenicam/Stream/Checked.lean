import VivaGenicam.Gige.FakeCamera
import VivaGenicam.Library.Checked
import VivaGenicam.Stream.Memory

/-!
The arithmetic of block assembly on 64-bit numbers. Every function here is the
model's function of the same name with each product, sum, difference, word
index and buffer range checked; the theorems say that no check ever fails, so
the unbounded arithmetic of the model is what the machine computes.
-/

namespace VivaGenicam.Gvsp.PacketBitmap

open Library

/-- The word that holds a packet's bit, and its index check. -/
def wordChecked (bitmap : PacketBitmap) (packetId : Nat) : Option (BitVec 64) :=
  bitmap.words[packetId / 64]?

def containsChecked (bitmap : PacketBitmap) (packetId : Nat) : Option Bool :=
  if packetId ≥ bitmap.total then
    some false
  else do
    let word ← bitmap.wordChecked packetId
    some (word &&& WordSet.mask packetId != 0#64)

def setChecked (bitmap : PacketBitmap) (packetId : Nat) : Option (Bool × PacketBitmap) :=
  if packetId ≥ bitmap.total then
    some (bitmap.set packetId)
  else do
    let word ← bitmap.wordChecked packetId
    if word &&& WordSet.mask packetId = 0#64 then
      let _ ← Checked.add bitmap.received 1
      some (bitmap.set packetId)
    else
      some (bitmap.set packetId)

def clearChecked (bitmap : PacketBitmap) (packetId : Nat) : Option (Bool × PacketBitmap) := do
  let marked ← bitmap.containsChecked packetId
  if marked then
    let _ ← bitmap.wordChecked packetId
    let _ ← Checked.sub bitmap.received 1
    some (bitmap.clear packetId)
  else
    some (bitmap.clear packetId)

def firstNCompleteChecked (bitmap : PacketBitmap) (count : Nat) : Option Bool :=
  if count > bitmap.total then
    some false
  else if count / 64 > bitmap.words.length then
    none
  else if count % 64 ≠ 0 ∧ count / 64 ≥ bitmap.words.length then
    none
  else
    some (bitmap.firstNComplete count)

theorem wordChecked_eq {bitmap : PacketBitmap} {packetId : Nat} (h : packetId < bitmap.total) :
    bitmap.wordChecked packetId = some (bitmap.words.getD (packetId / 64) 0#64) := by
  have hword : packetId / 64 < bitmap.words.length := by
    rw [bitmap.words_length]
    exact div_lt_ceilDiv h
  simp [wordChecked, List.getElem?_eq_getElem hword]

variable (bitmap : PacketBitmap)

theorem containsChecked_eq (packetId : Nat) :
    bitmap.containsChecked packetId = some (bitmap.contains packetId) := by
  unfold containsChecked contains
  split
  · rfl
  · rename_i h
    rw [wordChecked_eq (by omega)]
    rfl

theorem received_le_total : bitmap.received ≤ bitmap.total := by
  rw [bitmap.received_eq, WordSet.card]
  simpa using List.countP_le_length (p := WordSet.member bitmap.words)
    (l := List.range bitmap.total)

theorem setChecked_eq (packetId : Nat) (hsmall : bitmap.total < 2 ^ 64) :
    bitmap.setChecked packetId = some (bitmap.set packetId) := by
  unfold setChecked
  split
  · rfl
  · rename_i h
    have hlt : packetId < bitmap.total := by omega
    rw [wordChecked_eq hlt, Option.bind_eq_bind, Option.bind_some]
    split
    · rename_i hclear
      have hfresh : bitmap.contains packetId = false := by
        rw [contains, if_neg h, hclear]
        rfl
      have hreceived := bitmap.received_set packetId hlt hfresh
      have hle := (bitmap.set packetId).2.received_le_total
      rw [total_set] at hle
      rw [Checked.add_eq (by omega)]
      rfl
    · rfl

theorem clearChecked_eq (packetId : Nat) :
    bitmap.clearChecked packetId = some (bitmap.clear packetId) := by
  unfold clearChecked
  rw [containsChecked_eq]
  cases hmarked : bitmap.contains packetId with
  | false => rfl
  | true =>
    have hreceived := bitmap.received_clear packetId hmarked
    rw [wordChecked_eq (lt_total_of_contains hmarked), Checked.sub_eq (by omega)]
    rfl

theorem firstNCompleteChecked_eq (count : Nat) :
    bitmap.firstNCompleteChecked count = some (bitmap.firstNComplete count) := by
  have hwords := le_mul_ceilDiv bitmap.total
  rw [← bitmap.words_length] at hwords
  unfold firstNCompleteChecked
  split
  · rename_i h
    simp [firstNComplete, h]
  · rw [if_neg (by omega), if_neg (by omega)]

end VivaGenicam.Gvsp.PacketBitmap

namespace VivaGenicam.Stream

open Gvsp Library

def geometrySizeChecked (image : ImageLeader) : Option Nat := do
  let bits := (image.pixelFormat >>> 16) &&& 0xFF
  let bits := if bits = 0 then 8 else bits
  let product ← Checked.mul image.width bits
  let line ← Checked.add (product ⌈/⌉ 8) image.paddingX
  some (saturatingAdd64 (saturatingMul64 line image.height) image.paddingY)

namespace BlockInFlight

def leaderInfoChecked (leader : GvspLeader) : Option (Option (LeaderInfo × Nat)) :=
  if isChunkDataPayload leader.payloadType then
    some (leaderInfo leader)
  else
    match leader.image.filter (fun _ => isImagePayload leader.payloadType) with
    | none => some none
    | some image => do
      let size ← geometrySizeChecked image
      some (some
        ({ timestamp := leader.timestamp
           pixelFormat := image.pixelFormat
           width := image.width
           height := image.height
           paddingX := image.paddingX },
          min size estimateCap))

def onLeaderChecked (block : BlockInFlight) (stats : StreamStats) (leader : GvspLeader) :
    Option (BlockInFlight × StreamStats × Nat) :=
  if block.leaderPayloadType.isSome then
    some (block, stats.recordDuplicatePacket, 0)
  else do
    let block := { block with leaderPayloadType := some leader.payloadType }
    match ← leaderInfoChecked leader with
    | none =>
      some ({ block with unsupported := true, resend := none, buffer := [] },
        stats.recordIgnoredPacket .unsupported, 0)
    | some (info, estimate) =>
      some ({ block with
          leader := some info
          planned := max block.planned estimate
          buffer := Buffer.growTo block.buffer estimate 0 },
        stats, estimate)

def refuseShortChecked (block : BlockInFlight) (stats : StreamStats) (short : ShortPacket) :
    Option (BlockInFlight × StreamStats) := do
  let slot ← Checked.sub short.packetId 1
  let (marked, bitmap) ← block.bitmap.clearChecked slot
  if marked then
    let offset ← Checked.mul slot short.stride
    let stop ← Checked.add offset short.length
    let stop := min stop block.buffer.length
    let fill := List.replicate (stop - min offset stop) 0
    let buffer ← Checked.overwrite block.buffer (min offset stop) stop fill
    some ({ block with bitmap, buffer }, stats.recordSizeMismatch)
  else
    some ({ block with bitmap }, stats.recordSizeMismatch)

def refuseAllChecked (block : BlockInFlight) (stats : StreamStats) :
    List ShortPacket → Option (BlockInFlight × StreamStats)
  | [] => some (block, stats)
  | short :: rest => do
    let (block, stats) ← block.refuseShortChecked stats short
    refuseAllChecked block stats rest

def onPayloadChecked (config : AssemblyConfig) (block : BlockInFlight) (stats : StreamStats)
    (header : GvspHeader) (data : List UInt8) : Option (Bool × BlockInFlight × StreamStats) :=
  let packetId := header.packetId
  let stride := payloadStride config.packetSize header.headerLen
  if block.unsupported then
    some (false, block, stats.recordIgnoredPacket .unsupported)
  else if packetId = 0 ∨ stride = 0 then
    some (false, block, stats.recordIgnoredPacket .malformed)
  else if block.trailer.any (fun t => decide (packetId > t.lastPayloadId)) then
    some (false, block, stats.recordIgnoredPacket .outOfRange)
  else do
    let slot ← Checked.sub packetId 1
    if ← block.bitmap.containsChecked slot then
      some (true, block, stats.recordDuplicatePacket)
    else if data.length > stride then
      some (true, block, stats.recordSizeMismatch)
    else
      let offset ← Checked.mul slot stride
      let stop ← Checked.add offset data.length
      if stop > config.bufferLimit then
        some (false, block, stats.recordIgnoredPacket .outOfRange)
      else
        let buffer ← Checked.overwrite (Buffer.growTo block.buffer stop 0) offset stop data
        let tracked ← Checked.add slot 1
        let (_, bitmap) ← (block.bitmap.grow tracked).setChecked slot
        let placed :=
          { block with
            buffer
            extent := max block.extent stop
            bitmap
            anyPayload := true
            highestPayloadId := max block.highestPayloadId packetId }
        let (shortPacket, mismatches) :=
          settleShort placed.shortPacket (shortOf packetId stride data) placed.highestPayloadId
            (placed.trailer.map (·.lastPayloadId))
        let (block, stats) ← { placed with shortPacket }.refuseAllChecked stats mismatches
        some (true, block, stats)

def missingWithTrailerChecked (block : BlockInFlight) : Option Nat := do
  let last := (block.trailer.map (·.lastPayloadId)).getD 0
  let tracked := min last block.bitmap.len
  let beyond ← Checked.sub last tracked
  let holes ← Checked.add
    ((List.range tracked).filter (fun slot => !block.bitmap.contains slot)).length beyond
  let missing ← Checked.add holes (if block.leaderPayloadType.isNone then 1 else 0)
  some (min missing (2 ^ 32 - 1))

def onTrailerChecked (config : AssemblyConfig) (block : BlockInFlight) (stats : StreamStats)
    (header : GvspHeader) (trailer : GvspTrailer) : Option (BlockInFlight × StreamStats) :=
  if block.trailer.isSome then
    some (block, stats.recordDuplicatePacket)
  else
    let lastPayloadId := header.packetId - 1
    let block :=
      { block with
        trailer := some
          { lastPayloadId, sizeY := trailer.sizeY, payloadType := trailer.payloadType } }
    if block.unsupported then
      some ({ block with resolved := some .unsupported }, stats)
    else if header.status &&& statusError ≠ 0 then do
      let missing ← block.missingWithTrailerChecked
      some
        ({ block with
            resolved := some (.frame (.deviceStatus (GigeStatus.fromRaw header.status))) },
          stats.recordMissingPackets missing)
    else
      let stride := max (payloadStride config.packetSize header.headerLen) 1
      let block :=
        { block with
          bitmap := block.bitmap.grow (min lastPayloadId (config.bufferLimit ⌈/⌉ stride)) }
      match block.shortPacket with
      | some short =>
        if short.packetId < lastPayloadId then
          { block with shortPacket := none }.refuseShortChecked stats short
        else
          some (block, stats)
      | none => some (block, stats)

def tryCompleteChecked (block : BlockInFlight) : Option BlockInFlight :=
  if block.resolved.isSome || block.unsupported || block.leader.isNone then
    some block
  else
    match block.trailer with
    | some trailer => do
      if ← block.bitmap.firstNCompleteChecked trailer.lastPayloadId then
        some { block with resolved := some (.frame .complete) }
      else
        some block
    | none => some block

def deliverChecked (config : AssemblyConfig) (block : BlockInFlight) (stats : StreamStats)
    (header : GvspHeader) (content : Content) (now : Instant) :
    Option (BlockInFlight × StreamStats × Nat) :=
  let touched := { block with lastPacket := now }
  match block.resolved with
  | some (.frame .complete) => some (touched, stats.recordDuplicatePacket, 0)
  | some _ => some (touched, stats.recordIgnoredPacket .late, 0)
  | none =>
    match content with
    | .leader leader => do
      let (block, stats, estimate) ← touched.onLeaderChecked stats leader
      let (block, stats) := block.trackArrival config stats header.packetId false now
      some (← block.tryCompleteChecked, stats, estimate)
    | .payload data => do
      let (arrived, block, stats) ← touched.onPayloadChecked config stats header data
      let (block, stats) :=
        if arrived then block.trackArrival config stats header.packetId false now
        else (block, stats)
      some (← block.tryCompleteChecked, stats, 0)
    | .trailer trailer => do
      let (block, stats) ← touched.onTrailerChecked config stats header trailer
      let (block, stats) := block.trackArrival config stats header.packetId true now
      some (← block.tryCompleteChecked, stats, 0)

end BlockInFlight

theorem AssemblyConfig.bufferLimit_lt (config : AssemblyConfig) : config.bufferLimit < 2 ^ 64 := by
  have hsize : config.payloadSize.getD 0 < 2 ^ 64 := by
    cases h : config.payloadSize with
    | none => simp
    | some size => exact config.payloadSize_lt size h
  exact max_lt (by decide) hsize

theorem geometrySizeChecked_eq {image : ImageLeader} (h : image.WellFormed) :
    geometrySizeChecked image = some (geometrySize image) := by
  have hbits : (if (image.pixelFormat >>> 16) &&& 0xFF = 0 then 8
      else (image.pixelFormat >>> 16) &&& 0xFF) ≤ 255 := by
    have := Nat.and_le_right (n := image.pixelFormat >>> 16) (m := 0xFF)
    split <;> omega
  unfold geometrySizeChecked geometrySize
  dsimp only
  generalize (if (image.pixelFormat >>> 16) &&& 0xFF = 0 then 8
    else (image.pixelFormat >>> 16) &&& 0xFF) = bits at hbits ⊢
  have hproduct : image.width * bits ≤ 2 ^ 32 * 255 :=
    Nat.mul_le_mul h.width_lt.le hbits
  have hline : (image.width * bits) ⌈/⌉ 8 ≤ image.width * bits := by
    have := ceilDiv_le_of_le (image.width * bits) Nat.one_pos (show 1 ≤ 8 by decide)
    rwa [ceilDiv_one] at this
  have hpadding := h.paddingX_lt
  rw [Checked.mul_eq (by omega), Option.bind_eq_bind, Option.bind_some,
    Checked.add_eq (by omega)]
  rfl

namespace BlockInFlight

theorem leaderInfoChecked_eq {leader : GvspLeader}
    (h : ∀ image ∈ leader.image, image.WellFormed) :
    leaderInfoChecked leader = some (leaderInfo leader) := by
  unfold leaderInfoChecked
  split
  · rfl
  · rename_i hchunk
    unfold leaderInfo
    rw [if_neg hchunk]
    cases himage : leader.image.filter (fun _ => isImagePayload leader.payloadType) with
    | none => rfl
    | some image =>
      have hwf := h image (Option.filter_eq_some_iff.mp himage).1
      dsimp only
      rw [geometrySizeChecked_eq hwf]
      rfl

variable (block : BlockInFlight)

theorem onLeaderChecked_eq (stats : StreamStats) {leader : GvspLeader}
    (h : ∀ image ∈ leader.image, image.WellFormed) :
    block.onLeaderChecked stats leader = some (block.onLeader stats leader) := by
  unfold onLeaderChecked onLeader
  split
  · rfl
  · rw [leaderInfoChecked_eq h]
    cases leaderInfo leader with
    | none => rfl
    | some info => rfl

theorem refuseShortChecked_eq (stats : StreamStats)
    {short : ShortPacket} (hpos : short.packetId ≠ 0)
    (hfits : (short.packetId - 1) * short.stride + short.length < 2 ^ 64) :
    block.refuseShortChecked stats short = some (block.refuseShort stats short) := by
  unfold refuseShortChecked refuseShort
  rw [Checked.sub_eq (by omega), Option.bind_eq_bind, Option.bind_some,
    PacketBitmap.clearChecked_eq, Option.bind_eq_bind, Option.bind_some]
  dsimp only
  split
  · rw [Checked.mul_eq (by omega), Option.bind_eq_bind, Option.bind_some,
      Checked.add_eq hfits, Option.bind_some,
      Checked.overwrite_eq (min_le_right _ _) (min_le_right _ _) (by simp)]
    rfl
  · rfl

theorem refuseAllChecked_eq (stats : StreamStats) (mismatches : List ShortPacket)
    (h : ∀ short ∈ mismatches, short.packetId ≠ 0 ∧
      (short.packetId - 1) * short.stride + short.length < 2 ^ 64) :
    block.refuseAllChecked stats mismatches = some (block.refuseAll stats mismatches) := by
  induction mismatches generalizing block stats with
  | nil => rfl
  | cons short rest ih =>
    obtain ⟨hpos, hfits⟩ := h short (by simp)
    unfold refuseAllChecked
    rw [refuseShortChecked_eq block stats hpos hfits]
    exact ih _ _ fun other hother => h other (by simp [hother])

variable {config : AssemblyConfig} {packets : List Packet}

theorem onPayloadChecked_eq (stats : StreamStats) (header : GvspHeader) (data : List UInt8)
    (hwf : header.WellFormed) (h : block.Bounded config packets) :
    block.onPayloadChecked config stats header data =
      some (block.onPayload config stats header data) := by
  have hlimit := config.bufferLimit_lt
  have hid := hwf.packetId_lt
  have hpacket := config.packetSize_lt
  have hstride : payloadStride config.packetSize header.headerLen < 2 ^ 32 := by
    unfold payloadStride
    omega
  unfold onPayloadChecked onPayload
  dsimp only
  generalize payloadStride config.packetSize header.headerLen = stride at hstride ⊢
  split
  · rfl
  split
  · rfl
  rename_i hpositive
  split
  · rfl
  rw [Checked.sub_eq (by omega), Option.bind_eq_bind, Option.bind_some,
    PacketBitmap.containsChecked_eq, Option.bind_eq_bind, Option.bind_some]
  split
  · rfl
  split
  · rfl
  rename_i hlong
  have hproduct : (header.packetId - 1) * stride ≤ (2 ^ 32 - 2) * (2 ^ 32 - 1) :=
    Nat.mul_le_mul (by omega) (by omega)
  rw [Checked.mul_eq (by omega), Option.bind_eq_bind, Option.bind_some,
    Checked.add_eq (by omega), Option.bind_eq_bind, Option.bind_some]
  split
  · rfl
  rename_i hfits
  rw [Checked.overwrite_eq (by omega) (by simp) (by omega), Option.bind_eq_bind,
    Option.bind_some, Checked.add_eq (by omega), Option.bind_some,
    PacketBitmap.setChecked_eq _ _ (by
      have := h.total_lt
      rw [PacketBitmap.total_grow]
      omega), Option.bind_some]
  rw [refuseAllChecked_eq]
  · rfl
  · intro short hshort
    rcases settleShort_mem _ _ _ _ short (.inr hshort) with hpending | hthis
    · have := h.short_fits short hpending
      exact ⟨h.short_pos short hpending, by omega⟩
    · rw [(mem_shortOf.mp hthis).2]
      dsimp only
      omega

theorem missingWithTrailerChecked_eq
    (h : ∀ trailer ∈ block.trailer, trailer.lastPayloadId < 2 ^ 32) :
    block.missingWithTrailerChecked = some block.missingWithTrailer := by
  have hlast : (block.trailer.map (·.lastPayloadId)).getD 0 < 2 ^ 32 := by
    cases htrailer : block.trailer with
    | none => simp
    | some trailer => exact h trailer htrailer
  unfold missingWithTrailerChecked missingWithTrailer
  dsimp only
  generalize (block.trailer.map (·.lastPayloadId)).getD 0 = last at hlast ⊢
  have hholes := List.length_filter_le (fun slot => !block.bitmap.contains slot)
    (List.range (min last block.bitmap.len))
  rw [List.length_range] at hholes
  have hone : (if block.leaderPayloadType.isNone = true then 1 else 0) ≤ 1 := by
    split <;> omega
  rw [Checked.sub_eq (min_le_left _ _), Option.bind_eq_bind, Option.bind_some,
    Checked.add_eq (by omega), Option.bind_some, Checked.add_eq (by omega)]
  rfl

theorem onTrailerChecked_eq (stats : StreamStats) (header : GvspHeader) (trailer : GvspTrailer)
    (hwf : header.WellFormed) (h : block.Bounded config packets) :
    block.onTrailerChecked config stats header trailer =
      some (block.onTrailer config stats header trailer) := by
  have hlimit := config.bufferLimit_lt
  have hid := hwf.packetId_lt
  unfold onTrailerChecked onTrailer
  split
  · rfl
  dsimp only
  split
  · rfl
  split
  · rw [missingWithTrailerChecked_eq]
    · rfl
    · rintro _ ⟨⟩
      dsimp only
      omega
  · cases hshort : block.shortPacket with
    | none => rfl
    | some short =>
      dsimp only
      split
      · have := h.short_fits short hshort
        exact refuseShortChecked_eq _ _ (h.short_pos short hshort) (by omega)
      · rfl

theorem tryCompleteChecked_eq :
    block.tryCompleteChecked = some block.tryComplete := by
  unfold tryCompleteChecked tryComplete
  split
  · rfl
  · cases block.trailer with
    | none => rfl
    | some trailer =>
      dsimp only
      rw [PacketBitmap.firstNCompleteChecked_eq, Option.bind_eq_bind, Option.bind_some]
      split <;> rfl

theorem deliverChecked_eq (stats : StreamStats) (header : GvspHeader) (content : Content)
    (now : Instant) (hwf : header.WellFormed)
    (hleader : ∀ leader, content = .leader leader → ∀ image ∈ leader.image, image.WellFormed)
    (h : block.Bounded config packets) :
    block.deliverChecked config stats header content now =
      some (block.deliver config stats header content now) := by
  have htouched : BlockInFlight.Bounded config packets
      { block with lastPacket := now, resolved := none } :=
    SameData.bounded ⟨now, block.resend, none, rfl⟩ h
  unfold deliverChecked deliver
  cases block.resolved with
  | some resolution =>
    rcases resolution with status | _
    · cases status <;> rfl
    · rfl
  | none =>
    cases content with
    | leader leader =>
      dsimp only
      rw [onLeaderChecked_eq _ _ (hleader leader rfl), Option.bind_eq_bind, Option.bind_some]
      rw [tryCompleteChecked_eq]
      rfl
    | payload data =>
      dsimp only
      rw [onPayloadChecked_eq _ _ _ _ hwf htouched, Option.bind_eq_bind, Option.bind_some]
      rw [tryCompleteChecked_eq]
      rfl
    | trailer trailer =>
      dsimp only
      rw [onTrailerChecked_eq _ _ _ _ hwf htouched, Option.bind_eq_bind, Option.bind_some]
      rw [tryCompleteChecked_eq]
      rfl

end BlockInFlight

/-- The smallest stride that the header kinds of a block's packets give, at
least one. -/
def Tracked.smallestStride (config : AssemblyConfig) (tracked : Tracked) : Nat :=
  (tracked.packets.map (packetStride config)).min?.getD 1

theorem Tracked.smallestStride_le (config : AssemblyConfig) (tracked : Tracked) :
    0 < tracked.smallestStride config ∧
      ∀ packet ∈ tracked.packets, tracked.smallestStride config ≤ packetStride config packet := by
  have hpos : ∀ packet, 0 < packetStride config packet := fun _ => le_max_right _ 1
  unfold smallestStride
  cases hmin : (tracked.packets.map (packetStride config)).min? with
  | none =>
    exact ⟨Nat.one_pos, fun packet _ => hpos packet⟩
  | some smallest =>
    obtain ⟨hmem, hle⟩ := List.min?_eq_some_iff.mp hmin
    obtain ⟨packet, -, rfl⟩ := List.mem_map.mp hmem
    exact ⟨hpos packet, fun other hother => hle _ (List.mem_map_of_mem hother)⟩

/-- Memory of the blocks in flight within the limit, and no arithmetic of the
next delivery out of 64 bits or out of its buffer. -/
structure History.MemorySafe (config : AssemblyConfig) (history : History) : Prop where
  buffer : ∀ tracked ∈ history.inFlight, tracked.block.buffer.length ≤ config.bufferLimit
  bitmap : ∀ tracked ∈ history.inFlight,
    tracked.block.bitmap.total ≤ bitmapLimit config (tracked.smallestStride config)
  extent : ∀ tracked ∈ history.inFlight, tracked.block.unsupported = false →
    tracked.block.extent ≤ tracked.block.buffer.length
  exact_arithmetic : ∀ datagram now header content,
    readDatagram datagram = .packet header content →
    ∀ block ∈ history.asm.inFlight ++ history.asm.fresh (.ingest datagram now),
      block.blockId = header.blockId → ∀ stats,
        block.deliverChecked config stats header content now =
          some (block.deliver config stats header content now)

/-- Whatever is received, blocks in flight stay within the memory limit. -/
theorem memory_within_limit (config : AssemblyConfig) (calls : List Call)
    (hkeeps : ∀ call ∈ calls, call.keepsConfig = true) :
    (History.after config calls).MemorySafe config := by
  have hsound := History.bounded_after config calls hkeeps
  constructor
  · exact fun tracked hmem => (hsound.inFlight tracked hmem).buffer_le
  · intro tracked hmem
    obtain ⟨hpos, hle⟩ := tracked.smallestStride_le config
    exact (hsound.inFlight tracked hmem).bitmap_le _ hpos hle
  · exact fun tracked hmem => (hsound.inFlight tracked hmem).extent_le
  · intro datagram now header content hread block hmem hid stats
    have hwf := readDatagram_wellFormed hread
    have hleader : ∀ leader, content = .leader leader →
        ∀ image ∈ leader.image, image.WellFormed := by
      rintro leader rfl
      exact readDatagram_leader hread
    rcases List.mem_append.mp hmem with hflight | hfresh
    · rw [← hsound.mirrors.inFlight_eq] at hflight
      obtain ⟨tracked, htracked, rfl⟩ := List.mem_map.mp hflight
      exact tracked.block.deliverChecked_eq stats header content now hwf hleader
        (hsound.inFlight tracked htracked)
    · rw [Assembler.fresh_ingest _ now hread, hsound.config_eq] at hfresh
      split at hfresh
      · cases hfresh
      · rw [List.mem_singleton] at hfresh
        subst hfresh
        exact BlockInFlight.deliverChecked_eq _ stats header content now hwf hleader
          (BlockInFlight.start_bounded config header content now)

open FakeCamera in
/-- A data packet, then a leader of a payload type that is not assembled. -/
def strayLeaderRun : List Call :=
  [.ingest (payload { blockId := 1, payloadType := 2 } 1 [7]) 0,
    .ingest (leader { blockId := 1, payloadType := 2 }) 1]

open FakeCamera in
/-- A data packet too small for its extended header, then a standard trailer. -/
def mixedHeaderRun : List Call :=
  [.ingest (payload { blockId := 1, payloadType := 1, extendedIds := true } 1 [7]) 0,
    .ingest (trailer { blockId := 1, payloadType := 1 } 1 0) 1]

theorem forty_lt : 40 < 2 ^ 32 := by decide

/-- 40-byte packets: 4 bytes of payload with a standard header, none with an
extended one. -/
def smallPackets (payloadSize : Option (Fin (2 ^ 64))) : AssemblyConfig where
  packetSize := 40
  packetSize_lt := forty_lt
  payloadSize := payloadSize.map (·.val)
  payloadSize_lt := by
    intro size hsize
    obtain ⟨bound, -, rfl⟩ := Option.mem_map.mp hsize
    exact bound.isLt

set_option maxRecDepth 10000 in
/-- An unsupported leader drops the buffer and leaves the extent; and where a
header kind leaves no room for payload, the bitmap is sized by one byte a
packet, beyond what the positive stride 4 allows. -/
theorem memory_limit_exceeded :
    (∃ tracked ∈ (History.after (smallPackets none) strayLeaderRun).inFlight,
      tracked.block.buffer.length < tracked.block.extent) ∧
    ∃ tracked ∈ (History.after (smallPackets (some 268435456)) mixedHeaderRun).inFlight,
      tracked.packets.map (fun packet => payloadStride 40 packet.1.headerLen) = [0, 4] ∧
        bitmapLimit (smallPackets (some 268435456)) 4 < tracked.block.bitmap.total := by
  decide

theorem memory_within_limit_mixed :
    (History.after (smallPackets none) (strayLeaderRun ++ mixedHeaderRun)).MemorySafe
      (smallPackets none) :=
  memory_within_limit _ _ (by decide)

end VivaGenicam.Stream
