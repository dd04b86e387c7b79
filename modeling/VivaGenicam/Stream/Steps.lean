import VivaGenicam.Stream.Assembler
import VivaGenicam.Stream.ShortPackets

/-!
What one call can do to the queue of blocks in flight, stated once. The queue
before a call, with the block it starts, and the blocks that left followed by
the queue after it stand in one-to-one correspondence; each block is either
delivered the call's packet or goes through steps that place no packet.
-/

namespace VivaGenicam.Stream

open Gvsp Library Library.Queue

/-- What identifies a block from its start on. -/
def BlockInFlight.key (block : BlockInFlight) : Nat × Bool := (block.blockId, block.extendedIds)

variable {config : AssemblyConfig} {resolution : Resolution}

namespace BlockInFlight

/-- A data packet that `on_payload` places. -/
@[mk_iff]
structure Placeable (config : AssemblyConfig) (block : BlockInFlight) (header : GvspHeader)
    (data : List UInt8) : Prop where
  supported : block.unsupported = false
  id_pos : header.packetId ≠ 0
  stride_pos : payloadStride config.packetSize header.headerLen ≠ 0
  within : ∀ trailer ∈ block.trailer, header.packetId ≤ trailer.lastPayloadId
  fresh : block.bitmap.contains (header.packetId - 1) = false
  fits_stride : data.length ≤ payloadStride config.packetSize header.headerLen
  fits_limit : (header.packetId - 1) * payloadStride config.packetSize header.headerLen +
    data.length ≤ config.bufferLimit

instance (config : AssemblyConfig) (block : BlockInFlight) (header : GvspHeader)
    (data : List UInt8) : Decidable (Placeable config block header data) :=
  decidable_of_iff _ (placeable_iff config block header data).symm

/-- A data packet is placed, or it leaves the block as it was and is counted
once as unused. One that counts as arrived all the same is no further than the
accepted trailer allows. -/
theorem onPayload_cases (config : AssemblyConfig) (block : BlockInFlight)
    (stats : StreamStats) (header : GvspHeader) (data : List UInt8) :
    (Placeable config block header data ∧
      block.onPayload config stats header data =
        (true, block.accept stats header.packetId
          (payloadStride config.packetSize header.headerLen) data)) ∨
    (∃ arrived counted, block.onPayload config stats header data = (arrived, block, counted) ∧
      (counted = stats.recordDuplicatePacket ∨ counted = stats.recordSizeMismatch ∨
        ∃ reason, counted = stats.recordIgnoredPacket reason) ∧
      (arrived = true → header.packetId ≠ 0 ∧
        ∀ trailer ∈ block.trailer, header.packetId ≤ trailer.lastPayloadId)) := by
  unfold onPayload
  dsimp only
  split
  · exact .inr ⟨_, _, rfl, .inr (.inr ⟨_, rfl⟩), by simp⟩
  rename_i hsupported
  split
  · exact .inr ⟨_, _, rfl, .inr (.inr ⟨_, rfl⟩), by simp⟩
  rename_i hpositive
  split
  · exact .inr ⟨_, _, rfl, .inr (.inr ⟨_, rfl⟩), by simp⟩
  rename_i hbeyond
  have hid : header.packetId ≠ 0 := fun h => hpositive (.inl h)
  have hwithin : ∀ trailer ∈ block.trailer, header.packetId ≤ trailer.lastPayloadId := by
    intro trailer htrailer
    rw [Option.mem_def] at htrailer
    simpa [htrailer] using hbeyond
  split
  · exact .inr ⟨_, _, rfl, .inl rfl, fun _ => ⟨hid, hwithin⟩⟩
  rename_i hfresh
  split
  · exact .inr ⟨_, _, rfl, .inr (.inl rfl), fun _ => ⟨hid, hwithin⟩⟩
  rename_i hlong
  split
  · exact .inr ⟨_, _, rfl, .inr (.inr ⟨_, rfl⟩), by simp⟩
  rename_i hlimit
  refine .inl ⟨⟨?_, hid, fun h => hpositive (.inr h), hwithin, ?_, by omega, by omega⟩, rfl⟩
  · simpa using hsupported
  · simpa using hfresh

theorem onPayload_placeable (config : AssemblyConfig) (block : BlockInFlight)
    (stats : StreamStats) (header : GvspHeader) (data : List UInt8)
    (h : Placeable config block header data) :
    block.onPayload config stats header data =
      (true, block.accept stats header.packetId
        (payloadStride config.packetSize header.headerLen) data) := by
  have hbeyond : block.trailer.any (fun t => decide (header.packetId > t.lastPayloadId)) =
      false := by
    rw [Option.any_eq_false]
    exact fun trailer htrailer => by simpa using h.within trailer htrailer
  have hlong := h.fits_stride
  have hlimit := h.fits_limit
  unfold onPayload
  dsimp only
  rw [if_neg (by simp [h.supported]), if_neg (by simp [h.id_pos, h.stride_pos]),
    if_neg (by simp [hbeyond]), if_neg (by simp [h.fresh]), if_neg (by omega),
    if_neg (by omega)]

variable (block : BlockInFlight)

/-- Placing changes the buffer, the extent, the bitmap and what is known of
short and high packets, nothing else. -/
theorem accept_eq (stats : StreamStats) (packetId stride : Nat) (data : List UInt8) :
    ∃ bitmap buffer extent highestPayloadId shortPacket,
      (block.accept stats packetId stride data).1 =
        { block with bitmap, buffer, extent, highestPayloadId, shortPacket,
                     anyPayload := true } := by
  unfold accept
  dsimp only
  obtain ⟨bitmap, buffer, h⟩ := refuseAll_eq _ _ _
  exact ⟨bitmap, buffer, _, _, _, h⟩

/-- What taking a leader comes to. -/
inductive OnLeader (block : BlockInFlight) (stats : StreamStats) (leader : GvspLeader) :
    BlockInFlight → StreamStats → Prop
  | repeated (hsome : block.leaderPayloadType.isSome = true) :
      OnLeader block stats leader block stats.recordDuplicatePacket
  | unsupported (hnone : block.leaderPayloadType = none) (hinfo : leaderInfo leader = none) :
      OnLeader block stats leader
        { block with
          leaderPayloadType := some leader.payloadType
          unsupported := true
          resend := none
          buffer := [] }
        (stats.recordIgnoredPacket .unsupported)
  | taken (info : LeaderInfo) (estimate : Nat) (hnone : block.leaderPayloadType = none)
      (hinfo : leaderInfo leader = some (info, estimate)) :
      OnLeader block stats leader
        { block with
          leaderPayloadType := some leader.payloadType
          leader := some info
          planned := max block.planned estimate
          buffer := Buffer.growTo block.buffer estimate 0 }
        stats

theorem onLeader_cases (stats : StreamStats) (leader : GvspLeader) :
    OnLeader block stats leader (block.onLeader stats leader).1
      (block.onLeader stats leader).2.1 := by
  unfold onLeader
  split
  · rename_i hsome
    exact .repeated hsome
  · rename_i hnone
    have hnone : block.leaderPayloadType = none := by simpa using hnone
    dsimp only
    split
    · rename_i hinfo
      exact .unsupported hnone hinfo
    · rename_i info estimate hinfo
      exact .taken info estimate hnone hinfo

def trailerInfo (header : GvspHeader) (trailer : GvspTrailer) : TrailerInfo where
  lastPayloadId := header.packetId - 1
  sizeY := trailer.sizeY
  payloadType := trailer.payloadType

/-- Packets tracked once a trailer has come: no more than the buffer could hold. -/
def trailerBound (config : AssemblyConfig) (header : GvspHeader) : Nat :=
  min (header.packetId - 1)
    (config.bufferLimit ⌈/⌉ max (payloadStride config.packetSize header.headerLen) 1)

/-- What taking a trailer comes to. -/
inductive OnTrailer (config : AssemblyConfig) (block : BlockInFlight) (stats : StreamStats)
    (header : GvspHeader) (trailer : GvspTrailer) : BlockInFlight → StreamStats → Prop
  | repeated (hsome : block.trailer.isSome = true) :
      OnTrailer config block stats header trailer block stats.recordDuplicatePacket
  | unsupported (hnone : block.trailer = none) (hunsupported : block.unsupported = true) :
      OnTrailer config block stats header trailer
        { block with
          trailer := some (trailerInfo header trailer)
          resolved := some .unsupported }
        stats
  | error (missing : Nat) (hnone : block.trailer = none) (hsupported : block.unsupported = false)
      (herror : header.status &&& statusError ≠ 0) :
      OnTrailer config block stats header trailer
        { block with
          trailer := some (trailerInfo header trailer)
          resolved := some (.frame (.deviceStatus (GigeStatus.fromRaw header.status))) }
        (stats.recordMissingPackets missing)
  | bounded (hnone : block.trailer = none) (hsupported : block.unsupported = false)
      (hok : header.status &&& statusError = 0)
      (hlast : ∀ short ∈ block.shortPacket, header.packetId - 1 ≤ short.packetId) :
      OnTrailer config block stats header trailer
        { block with
          trailer := some (trailerInfo header trailer)
          bitmap := block.bitmap.grow (trailerBound config header) }
        stats
  | refused (short : ShortPacket) (hnone : block.trailer = none)
      (hsupported : block.unsupported = false) (hok : header.status &&& statusError = 0)
      (hshort : block.shortPacket = some short) (hearly : short.packetId < header.packetId - 1) :
      OnTrailer config block stats header trailer
        ({ block with
            trailer := some (trailerInfo header trailer)
            bitmap := block.bitmap.grow (trailerBound config header)
            shortPacket := none }.refuseShort stats short).1
        stats.recordSizeMismatch

theorem onTrailer_cases (config : AssemblyConfig) (block : BlockInFlight) (stats : StreamStats)
    (header : GvspHeader) (trailer : GvspTrailer) :
    OnTrailer config block stats header trailer
      (block.onTrailer config stats header trailer).1
      (block.onTrailer config stats header trailer).2 := by
  unfold onTrailer
  split
  · rename_i hsome
    exact .repeated hsome
  rename_i hnone
  have hnone : block.trailer = none := by simpa using hnone
  dsimp only
  split
  · rename_i hunsupported
    exact .unsupported hnone hunsupported
  rename_i hsupported
  have hsupported : block.unsupported = false := by simpa using hsupported
  split
  · rename_i herror
    exact .error _ hnone hsupported herror
  rename_i hok
  have hok : header.status &&& statusError = 0 := by simpa using hok
  split
  · rename_i short hshort
    split
    · rename_i hearly
      exact .refused short hnone hsupported hok hshort hearly
    · rename_i hlate
      exact .bounded hnone hsupported hok fun other hother => by
        rw [hshort] at hother
        cases hother
        omega
  · rename_i hshort
    exact .bounded hnone hsupported hok (by simp [hshort])

theorem trackArrival_eq (config : AssemblyConfig) (block : BlockInFlight) (stats : StreamStats)
    (id : Nat) (isTrailer : Bool) (now : Instant) :
    ∃ resend, (block.trackArrival config stats id isTrailer now).1 = { block with resend } := by
  unfold trackArrival
  split
  · exact ⟨block.resend, rfl⟩
  · exact ⟨_, rfl⟩

theorem tryComplete_eq :
    ∃ resolved, block.tryComplete = { block with resolved } := by
  unfold tryComplete
  split
  · exact ⟨block.resolved, rfl⟩
  · split
    · split
      · exact ⟨_, rfl⟩
      · exact ⟨block.resolved, rfl⟩
    · exact ⟨block.resolved, rfl⟩

theorem close_eq (stats : StreamStats) :
    ∃ resolution, (block.close stats).1 = { block with resolved := some resolution } := by
  unfold close
  split
  · exact ⟨_, rfl⟩
  · split
    · exact ⟨_, rfl⟩
    · exact ⟨_, rfl⟩

theorem resendDue_eq (config : AssemblyConfig) (block : BlockInFlight) (stats : StreamStats)
    (now : Instant) :
    ∃ resend, (block.resendDue config stats now).1 = { block with resend } := by
  unfold resendDue
  split
  · exact ⟨_, rfl⟩
  · exact ⟨block.resend, rfl⟩

/-- Equal but for the time of the last packet, the resend state and the
resolution: what a block was given is the same. -/
def SameData (before after : BlockInFlight) : Prop :=
  ∃ lastPacket resend resolved, after = { before with lastPacket, resend, resolved }

theorem SameData.trans {first second third : BlockInFlight} (h₁ : first.SameData second)
    (h₂ : second.SameData third) : first.SameData third := by
  obtain ⟨_, _, _, rfl⟩ := h₁
  obtain ⟨lastPacket, resend, resolved, rfl⟩ := h₂
  exact ⟨lastPacket, resend, resolved, rfl⟩

theorem trackArrival_sameData (config : AssemblyConfig) (block : BlockInFlight)
    (stats : StreamStats) (id : Nat) (isTrailer : Bool) (now : Instant) :
    block.SameData (block.trackArrival config stats id isTrailer now).1 := by
  obtain ⟨resend, h⟩ := trackArrival_eq config block stats id isTrailer now
  exact ⟨block.lastPacket, resend, block.resolved, h⟩

theorem tryComplete_sameData : block.SameData block.tryComplete := by
  obtain ⟨resolved, h⟩ := tryComplete_eq block
  exact ⟨block.lastPacket, block.resend, resolved, h⟩

/-- What the handler of a packet makes of its block. -/
def handle (config : AssemblyConfig) (block : BlockInFlight) (stats : StreamStats)
    (header : GvspHeader) : Content → BlockInFlight × StreamStats
  | .leader leader => ((block.onLeader stats leader).1, (block.onLeader stats leader).2.1)
  | .payload data => (block.onPayload config stats header data).2
  | .trailer trailer => block.onTrailer config stats header trailer

theorem receive_sameData (config : AssemblyConfig) (block : BlockInFlight)
    (stats : StreamStats) (header : GvspHeader) (content : Content) (now : Instant) :
    (block.handle config stats header content).1.SameData
      (block.receive config stats header content now).1 := by
  cases content with
  | leader leader =>
    exact (trackArrival_sameData _ _ _ _ _ _).trans (tryComplete_sameData _)
  | payload data =>
    unfold receive
    dsimp only
    split
    · exact (trackArrival_sameData _ _ _ _ _ _).trans (tryComplete_sameData _)
    · exact tryComplete_sameData _
  | trailer trailer =>
    exact (trackArrival_sameData _ _ _ _ _ _).trans (tryComplete_sameData _)

@[simp] theorem onLeader_key (stats : StreamStats)
    (leader : GvspLeader) : (block.onLeader stats leader).1.key = block.key := by
  have h := onLeader_cases block stats leader
  generalize (block.onLeader stats leader).1 = after at h
  generalize (block.onLeader stats leader).2.1 = counted at h
  cases h <;> rfl

@[simp] theorem onPayload_key (config : AssemblyConfig) (block : BlockInFlight)
    (stats : StreamStats) (header : GvspHeader) (data : List UInt8) :
    (block.onPayload config stats header data).2.1.key = block.key := by
  rcases onPayload_cases config block stats header data with ⟨_, h⟩ | ⟨_, _, h, _⟩
  · rw [h]
    obtain ⟨_, _, _, _, _, hblock⟩ := accept_eq block stats header.packetId
      (payloadStride config.packetSize header.headerLen) data
    rw [hblock]
    rfl
  · rw [h]

@[simp] theorem onTrailer_key (config : AssemblyConfig) (block : BlockInFlight)
    (stats : StreamStats) (header : GvspHeader) (trailer : GvspTrailer) :
    (block.onTrailer config stats header trailer).1.key = block.key := by
  have h := onTrailer_cases config block stats header trailer
  generalize (block.onTrailer config stats header trailer).1 = after at h
  generalize (block.onTrailer config stats header trailer).2 = counted at h
  cases h <;> rfl

@[simp] theorem trackArrival_key (config : AssemblyConfig) (block : BlockInFlight)
    (stats : StreamStats) (id : Nat) (isTrailer : Bool) (now : Instant) :
    (block.trackArrival config stats id isTrailer now).1.key = block.key := by
  obtain ⟨_, h⟩ := trackArrival_eq config block stats id isTrailer now
  rw [h]
  rfl

@[simp] theorem tryComplete_key : block.tryComplete.key = block.key := by
  obtain ⟨_, h⟩ := tryComplete_eq block
  rw [h]
  rfl

/-- What taking a packet is made of: its own handler, a note of its arrival
for resend unless it lies beyond the frame, and the completion check. -/
inductive Received (config : AssemblyConfig) (block : BlockInFlight) (header : GvspHeader)
    (now : Instant) : Content → BlockInFlight → Prop
  | leader (stats stats' : StreamStats) (leader : GvspLeader) :
      Received config block header now (.leader leader)
        (((block.onLeader stats leader).1.trackArrival config stats' header.packetId false
          now).1.tryComplete)
  | arrived (stats stats' : StreamStats) (data : List UInt8)
      (h : (block.onPayload config stats header data).1 = true) :
      Received config block header now (.payload data)
        (((block.onPayload config stats header data).2.1.trackArrival config stats'
          header.packetId false now).1.tryComplete)
  | beyond (stats : StreamStats) (data : List UInt8)
      (h : (block.onPayload config stats header data).1 = false) :
      Received config block header now (.payload data)
        (block.onPayload config stats header data).2.1.tryComplete
  | trailer (stats stats' : StreamStats) (trailer : GvspTrailer) :
      Received config block header now (.trailer trailer)
        (((block.onTrailer config stats header trailer).1.trackArrival config stats'
          header.packetId true now).1.tryComplete)

theorem receive_cases (config : AssemblyConfig) (block : BlockInFlight) (stats : StreamStats)
    (header : GvspHeader) (content : Content) (now : Instant) :
    Received config block header now content
      (block.receive config stats header content now).1 := by
  cases content with
  | leader leader => exact .leader _ _ _
  | payload data =>
    unfold receive
    dsimp only
    split
    · rename_i h
      exact .arrived _ _ _ h
    · rename_i h
      exact .beyond _ _ (by simpa using h)
  | trailer trailer => exact .trailer _ _ _

theorem Received.key {block after : BlockInFlight}
    {header : GvspHeader} {now : Instant} {content : Content}
    (h : Received config block header now content after) : after.key = block.key := by
  cases h <;> simp

theorem deliver_open (config : AssemblyConfig) (block : BlockInFlight) (stats : StreamStats)
    (header : GvspHeader) (content : Content) (now : Instant) (hopen : block.resolved = none) :
    block.deliver config stats header content now =
      { block with lastPacket := now }.receive config stats header content now := by
  unfold deliver
  rw [hopen]

theorem deliver_resolved (config : AssemblyConfig) (block : BlockInFlight)
    (stats : StreamStats) (header : GvspHeader) (content : Content) (now : Instant)
    (hresolved : block.resolved = some resolution) :
    (block.deliver config stats header content now).1 = { block with lastPacket := now } := by
  unfold deliver
  dsimp only
  rw [hresolved]
  split
  · rfl
  · rfl
  · rename_i h
    cases h

theorem deliver_key (config : AssemblyConfig) (block : BlockInFlight) (stats : StreamStats)
    (header : GvspHeader) (content : Content) (now : Instant) :
    (block.deliver config stats header content now).1.key = block.key := by
  cases hresolved : block.resolved with
  | none =>
    rw [deliver_open config block stats header content now hresolved]
    exact (receive_cases config { block with lastPacket := now } stats header content now).key
  | some resolution =>
    rw [deliver_resolved config block stats header content now hresolved]
    rfl

end BlockInFlight

/-- A packet to assemble: its header and its content. -/
abbrev Packet := GvspHeader × Content

def Call.packet : Call → Option Packet
  | .ingest datagram _ =>
    match readDatagram datagram with
    | .packet header content => some (header, content)
    | _ => none
  | _ => none

def Call.isIngest : Call → Bool
  | .ingest _ _ => true
  | _ => false

/-- Every call but `set_config`. -/
def Call.keepsConfig : Call → Bool
  | .setConfig _ => false
  | _ => true

theorem Call.packet_ingest {datagram : List UInt8} {header : GvspHeader} {content : Content}
    (now : Instant) (h : readDatagram datagram = .packet header content) :
    (Call.ingest datagram now).packet = some (header, content) := by
  simp [Call.packet, h]

def Assembler.fresh (self : Assembler) (call : Call) : List BlockInFlight :=
  match call, call.packet with
  | .ingest _ now, some (header, content) =>
    if self.inFlight.any (·.blockId == header.blockId) ∨
        (self.order header content.isLeader).isNone then
      []
    else
      [BlockInFlight.start self.config .empty header now]
  | _, _ => []

/-- Whether a call closes an unfinished block: by the block timeout, or as the
oldest of as many blocks as are assembled at once when another one starts. -/
def Assembler.closes (self : Assembler) (call : Call) (blockId : Nat) : Bool :=
  match call with
  | .ingest _ _ =>
    !(self.fresh call).isEmpty && decide (maxInFlight ≤ self.inFlight.length) &&
      self.inFlight.head?.any (·.blockId == blockId)
  | .poll now =>
    self.inFlight.zipIdx.any fun (block, index) =>
      block.blockId == blockId &&
        block.timedOut self.config now (index == self.inFlight.length - 1)
  | _ => false

/-- The steps of a block that place no packet: a note that something of it was
received, an answer to a resend request, a close, a look for due requests. -/
inductive Quiet (config : AssemblyConfig) (closing : Bool) :
    BlockInFlight → BlockInFlight → Prop
  | touched (block : BlockInFlight) (now : Instant) :
      Quiet config closing block { block with lastPacket := now }
  | answered (block : BlockInFlight) (resend : ResendState) (id : Nat) (answer : Answer)
      (hresend : block.resend = some resend) :
      Quiet config closing block { block with resend := some (resend.unavailable id answer).2 }
  | closed (block : BlockInFlight) (stats : StreamStats) (hclosing : closing = true)
      (hopen : block.resolved = none) :
      Quiet config closing block (block.close stats).1
  | asked (block : BlockInFlight) (stats : StreamStats) (now : Instant) :
      Quiet config closing block (block.resendDue config stats now).1

variable {closing : Bool} {before : BlockInFlight}

theorem Quiet.key {after : BlockInFlight}
    (h : Quiet config closing before after) : after.key = before.key := by
  cases h with
  | touched => rfl
  | answered => rfl
  | closed stats =>
    obtain ⟨_, h⟩ := before.close_eq stats
    rw [h]
    rfl
  | asked stats now =>
    obtain ⟨_, h⟩ := before.resendDue_eq config stats now
    rw [h]
    rfl

theorem Quiet.sameData {after : BlockInFlight} (h : Quiet config closing before after) :
    before.SameData after := by
  cases h with
  | touched now => exact ⟨now, before.resend, before.resolved, rfl⟩
  | answered resend id answer => exact ⟨before.lastPacket, _, before.resolved, rfl⟩
  | closed stats =>
    obtain ⟨resolution, h⟩ := before.close_eq stats
    exact ⟨before.lastPacket, before.resend, some resolution, h⟩
  | asked stats now =>
    obtain ⟨resend, h⟩ := before.resendDue_eq config stats now
    exact ⟨before.lastPacket, resend, before.resolved, h⟩

theorem Quiet.resolved_some {after : BlockInFlight} (h : Quiet config closing before after)
    (hresolved : before.resolved = some resolution) :
    after.resolved = some resolution := by
  cases h with
  | touched => exact hresolved
  | answered => exact hresolved
  | closed _ _ hopen =>
    rw [hresolved] at hopen
    cases hopen
  | asked stats now =>
    obtain ⟨_, h⟩ := before.resendDue_eq config stats now
    rw [h]
    exact hresolved

/-- Quiet steps, with `closing` telling which blocks may be closed. -/
def QuietRun (config : AssemblyConfig) (closing : Nat → Bool) (before after : BlockInFlight) :
    Prop :=
  Relation.ReflTransGen (Quiet config (closing before.blockId)) before after

theorem QuietRun.key {closing : Nat → Bool}
    {after : BlockInFlight} (h : QuietRun config closing before after) :
    after.key = before.key := by
  unfold QuietRun at h
  induction h with
  | refl => rfl
  | tail _ hstep ih => exact hstep.key.trans ih

theorem QuietRun.refl (config : AssemblyConfig) (closing : Nat → Bool)
    (block : BlockInFlight) : QuietRun config closing block block := Relation.ReflTransGen.refl

theorem QuietRun.single {config : AssemblyConfig} {closing : Nat → Bool}
    {before after : BlockInFlight}
    (h : Quiet config (closing before.blockId) before after) :
    QuietRun config closing before after := Relation.ReflTransGen.single h

theorem QuietRun.trans {closing : Nat → Bool}
    {first second third : BlockInFlight} (h₁ : QuietRun config closing first second)
    (h₂ : QuietRun config closing second third) : QuietRun config closing first third := by
  have hid : second.blockId = first.blockId := congrArg Prod.fst h₁.key
  unfold QuietRun at h₂
  rw [hid] at h₂
  exact Relation.ReflTransGen.trans h₁ h₂

/-- What one call does to one block: it delivers the packet the call carries to
that packet's block, and takes every other block through quiet steps. -/
inductive BlockStep (self : Assembler) (call : Call) : BlockInFlight → BlockInFlight → Prop
  | quiet (before after : BlockInFlight)
      (hother : ∀ packet ∈ call.packet, before.blockId ≠ packet.1.blockId)
      (h : QuietRun self.config (self.closes call) before after) :
      BlockStep self call before after
  | delivered (block : BlockInFlight) (stats : StreamStats) (header : GvspHeader)
      (content : Content) (datagram : List UInt8) (now : Instant)
      (hcall : call = .ingest datagram now)
      (hread : readDatagram datagram = .packet header content)
      (hid : block.blockId = header.blockId) :
      BlockStep self call block (block.deliver self.config stats header content now).1

theorem BlockStep.key {self : Assembler} {call : Call} {after : BlockInFlight}
    (h : BlockStep self call before after) : after.key = before.key := by
  cases h with
  | quiet _ _ h => exact h.key
  | delivered stats header content datagram now =>
    exact before.deliver_key self.config stats header content now

theorem BlockStep.resolved_some {self : Assembler} {call : Call} {after : BlockInFlight}
    (h : BlockStep self call before after)
    (hresolved : before.resolved = some resolution) : after.resolved = some resolution := by
  cases h with
  | quiet _ _ h =>
    unfold QuietRun at h
    induction h with
    | refl => exact hresolved
    | tail _ hstep ih => exact hstep.resolved_some ih
  | delivered stats header content datagram now =>
    rw [before.deliver_resolved self.config stats header content now hresolved]
    exact hresolved

end VivaGenicam.Stream
