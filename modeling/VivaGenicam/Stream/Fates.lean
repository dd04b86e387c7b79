import VivaGenicam.Gige.FakeCamera
import VivaGenicam.Stream.History

/-!
What becomes of every datagram. A datagram is used (an accepted leader or
trailer, or a data packet whose bit is set) or counted once as a duplicate, as
ignored, or as not fitting; a short packet taken back out moves from the first
group to the last. Over any run the four add up to the datagrams ingested.
-/

namespace VivaGenicam.Stream

open Gvsp Library Library.Queue Library.Transition

/-- What a block makes use of: its leader, its trailer and the data packets
whose bit is set. -/
def BlockInFlight.used (block : BlockInFlight) : Nat :=
  block.leader.isSome.toNat + block.trailer.isSome.toNat +
    (List.range block.bitmap.total).countP block.bitmap.contains

variable (block : BlockInFlight)

theorem BlockInFlight.used_eq :
    block.used =
      block.leader.isSome.toNat + block.trailer.isSome.toNat + block.bitmap.received := by
  have hcard : (List.range block.bitmap.total).countP block.bitmap.contains =
      block.bitmap.received := by
    rw [block.bitmap.received_eq, WordSet.card]
    exact List.countP_congr fun index _ => by rw [block.bitmap.contains_eq_member]
  rw [used, hcard]

/-- The packets used and the packets not used, by counter. -/
structure Tally where
  used : Nat
  duplicate : Nat
  ignored : Nat
  mismatch : Nat

def Tally.total (tally : Tally) : Nat :=
  tally.used + tally.duplicate + tally.ignored + tally.mismatch

def tally (used : Nat) (stats : StreamStats) : Tally where
  used
  duplicate := stats.packetsDuplicate
  ignored := stats.packetsIgnored
  mismatch := stats.packetsSizeMismatch

/-- What one datagram does to the tally: it is counted in exactly one place,
and the short packets it disproves move from the used to the mismatched. -/
inductive Fate (before : Tally) : Tally → Prop
  | used (now taken : Nat) (h : now + taken = before.used + 1) :
      Fate before { before with used := now, mismatch := before.mismatch + taken }
  | duplicate : Fate before { before with duplicate := before.duplicate + 1 }
  | ignored : Fate before { before with ignored := before.ignored + 1 }
  | mismatch : Fate before { before with mismatch := before.mismatch + 1 }

theorem Fate.total {before after : Tally} (h : Fate before after) :
    after.total = before.total + 1 := by
  cases h <;> simp only [Tally.total] <;> omega

theorem Fate.add {before after : Nat} {stats stats' : StreamStats} (others : Nat)
    (h : Fate (tally before stats) (tally after stats')) :
    Fate (tally (before + others) stats) (tally (after + others) stats') := by
  have hused : tally (after + others) stats' =
      { tally after stats' with used := (tally after stats').used + others } := rfl
  rw [hused]
  generalize tally after stats' = final at h ⊢
  cases h with
  | used now taken hnow =>
    refine Fate.used (now + others) taken ?_
    simp only [tally] at hnow ⊢
    omega
  | duplicate => exact .duplicate
  | ignored => exact .ignored
  | mismatch => exact .mismatch

theorem tally_ignored (used : Nat) (stats : StreamStats) (reason : IgnoredPacket) :
    Fate (tally used stats) (tally used (stats.recordIgnoredPacket reason)) := by
  have : tally used (stats.recordIgnoredPacket reason) =
      { tally used stats with ignored := (tally used stats).ignored + 1 } := by
    cases reason <;>
      simp only [tally, StreamStats.recordIgnoredPacket, StreamStats.packetsIgnored,
        Tally.mk.injEq, true_and, and_true] <;>
      omega
  rw [this]
  exact .ignored

variable {before : BlockInFlight} (config : AssemblyConfig)

namespace BlockInFlight

/-- What keeps the fates apart: the pending short packet is marked once, and a
leader is only taken from a block that had none. -/
structure Countable (block : BlockInFlight) : Prop where
  short : block.ShortOk
  leader_typed : block.leaderPayloadType = none → block.leader = none

theorem onLeader_fate (stats : StreamStats) (leader : GvspLeader) (h : block.Countable) :
    Fate (tally block.used stats)
      (tally (block.onLeader stats leader).1.used (block.onLeader stats leader).2.1) := by
  have hcase := onLeader_cases block stats leader
  generalize (block.onLeader stats leader).1 = after at hcase ⊢
  generalize (block.onLeader stats leader).2.1 = counted at hcase ⊢
  cases hcase with
  | repeated => exact .duplicate
  | unsupported => exact tally_ignored block.used stats .unsupported
  | taken info estimate hnone =>
    refine Fate.used _ 0 ?_
    simp only [used_eq, tally, h.leader_typed hnone]
    simp
    omega

theorem onPayload_fate (block : BlockInFlight) (stats : StreamStats)
    (header : GvspHeader) (data : List UInt8) (h : block.Countable) :
    Fate (tally block.used stats)
      (tally (block.onPayload config stats header data).2.1.used
        (block.onPayload config stats header data).2.2) := by
  rcases onPayload_cases config block stats header data with
    ⟨hplace, heq⟩ | ⟨arrived, counted, heq, hcounted, -⟩
  · obtain ⟨taken, hreceived, hstats⟩ := accept_received stats
      (payloadStride config.packetSize header.headerLen) data hplace.id_pos hplace.fresh h.short
    obtain ⟨_, _, _, _, _, hblock⟩ := accept_eq block stats header.packetId
      (payloadStride config.packetSize header.headerLen) data
    rw [heq]
    dsimp only
    rw [hstats]
    refine Fate.used _ taken ?_
    simp only [tally, used_eq]
    rw [hblock] at hreceived ⊢
    dsimp only at hreceived ⊢
    omega
  · rw [heq]
    dsimp only
    rcases hcounted with rfl | rfl | ⟨reason, rfl⟩
    · exact .duplicate
    · exact .mismatch
    · exact tally_ignored _ _ reason

theorem onTrailer_fate (block : BlockInFlight) (stats : StreamStats)
    (header : GvspHeader) (trailer : GvspTrailer) (h : block.Countable) :
    Fate (tally block.used stats)
      (tally (block.onTrailer config stats header trailer).1.used
        (block.onTrailer config stats header trailer).2) := by
  have hcase := onTrailer_cases config block stats header trailer
  generalize (block.onTrailer config stats header trailer).1 = after at hcase ⊢
  generalize (block.onTrailer config stats header trailer).2 = counted at hcase ⊢
  have htaken : ∀ (after : BlockInFlight) (taken : Nat), block.trailer = none →
      after.leader = block.leader → after.trailer.isSome = true →
      after.bitmap.received + taken = block.bitmap.received →
      after.used + taken = block.used + 1 := by
    intro after taken hnone hleader hsome hreceived
    simp only [used_eq, hleader, hnone, hsome]
    simp
    omega
  cases hcase with
  | repeated => exact .duplicate
  | unsupported hnone => exact Fate.used _ 0 (htaken _ 0 hnone rfl rfl rfl)
  | error missing hnone => exact Fate.used _ 0 (htaken _ 0 hnone rfl rfl rfl)
  | bounded hnone =>
    exact Fate.used _ 0 (htaken _ 0 hnone rfl rfl (block.bitmap.received_grow _))
  | refused short hnone hsupported hok hshort hearly =>
    have hmarked := h.short.marked short hshort
    have hcleared := refuseShort_received
      { block with
        trailer := some (trailerInfo header trailer)
        bitmap := block.bitmap.grow (trailerBound config header)
        shortPacket := none } stats short (by rwa [PacketBitmap.contains_grow])
    rw [PacketBitmap.received_grow] at hcleared
    exact Fate.used _ 1 (htaken _ 1 hnone rfl rfl hcleared)

theorem handle_fate (block : BlockInFlight) (stats : StreamStats)
    (header : GvspHeader) (content : Content) (h : block.Countable) :
    Fate (tally block.used stats)
      (tally (block.handle config stats header content).1.used
        (block.handle config stats header content).2) := by
  cases content with
  | leader leader => exact onLeader_fate block stats leader h
  | payload data => exact onPayload_fate config block stats header data h
  | trailer trailer => exact onTrailer_fate config block stats header trailer h

theorem SameData.used {after : BlockInFlight} (h : before.SameData after) :
    after.used = before.used := by
  obtain ⟨_, _, _, rfl⟩ := h
  rfl

theorem SameData.countable {after : BlockInFlight} (h : before.SameData after)
    (hcount : before.Countable) : after.Countable := by
  obtain ⟨_, _, _, rfl⟩ := h
  exact ⟨⟨hcount.short.pos, hcount.short.marked, hcount.short.le_highest⟩, hcount.leader_typed⟩

theorem start_countable (header : GvspHeader) (now : Instant) :
    (start config .empty header now).Countable := by
  constructor
  · constructor <;> simp [start]
  · simp [start]

theorem handle_countable (block : BlockInFlight) (stats : StreamStats)
    (header : GvspHeader) (content : Content) (h : block.Countable) :
    (block.handle config stats header content).1.Countable := by
  obtain ⟨⟨hpos, hmarked, hhighest⟩, htyped⟩ := h
  cases content with
  | leader leader =>
    simp only [handle]
    have hcase := onLeader_cases block stats leader
    generalize (block.onLeader stats leader).1 = after at hcase ⊢
    generalize (block.onLeader stats leader).2.1 = counted at hcase
    cases hcase with
    | repeated => exact ⟨⟨hpos, hmarked, hhighest⟩, htyped⟩
    | unsupported => exact ⟨⟨hpos, hmarked, hhighest⟩, by simp⟩
    | taken => exact ⟨⟨hpos, hmarked, hhighest⟩, by simp⟩
  | payload data =>
    simp only [handle]
    rcases onPayload_cases config block stats header data with ⟨hplace, heq⟩ | ⟨_, _, heq, _⟩
    · rw [heq]
      refine ⟨accept_shortOk stats _ data hplace.id_pos hplace.fresh
        ⟨hpos, hmarked, hhighest⟩, ?_⟩
      obtain ⟨_, _, _, _, _, hblock⟩ := accept_eq block stats header.packetId
        (payloadStride config.packetSize header.headerLen) data
      rw [hblock]
      exact htyped
    · rw [heq]
      exact ⟨⟨hpos, hmarked, hhighest⟩, htyped⟩
  | trailer trailer =>
    simp only [handle]
    have hcase := onTrailer_cases config block stats header trailer
    generalize (block.onTrailer config stats header trailer).1 = after at hcase ⊢
    generalize (block.onTrailer config stats header trailer).2 = counted at hcase
    cases hcase with
    | repeated => exact ⟨⟨hpos, hmarked, hhighest⟩, htyped⟩
    | unsupported => exact ⟨⟨hpos, hmarked, hhighest⟩, htyped⟩
    | error => exact ⟨⟨hpos, hmarked, hhighest⟩, htyped⟩
    | bounded =>
      exact ⟨⟨hpos, fun short h => by
        rw [PacketBitmap.contains_grow]
        exact hmarked short h, hhighest⟩, htyped⟩
    | refused => exact ⟨⟨nofun, nofun, nofun⟩, htyped⟩

end BlockInFlight

/-- The counters of packets that were not used are the same. -/
def SameCount (before after : StreamStats) : Prop :=
  ∀ used, tally used after = tally used before

theorem SameCount.trans {first second third : StreamStats} (h₁ : SameCount first second)
    (h₂ : SameCount second third) : SameCount first third :=
  fun used => (h₂ used).trans (h₁ used)

theorem SameCount.refl (stats : StreamStats) : SameCount stats stats := fun _ => rfl

namespace BlockInFlight

theorem trackArrival_count (block : BlockInFlight)
    (stats : StreamStats) (id : Nat) (isTrailer : Bool) (now : Instant) :
    SameCount stats (block.trackArrival config stats id isTrailer now).2 := by
  unfold trackArrival
  split
  · exact SameCount.refl stats
  · dsimp only
    split <;> exact fun _ => rfl

theorem receive_count (block : BlockInFlight) (stats : StreamStats)
    (header : GvspHeader) (content : Content) (now : Instant) :
    SameCount (block.handle config stats header content).2
      (block.receive config stats header content now).2.1 := by
  cases content with
  | leader leader => exact trackArrival_count _ _ _ _ _ _
  | payload data =>
    unfold receive
    dsimp only
    split
    · exact trackArrival_count _ _ _ _ _ _
    · exact SameCount.refl _
  | trailer trailer => exact trackArrival_count _ _ _ _ _ _

theorem close_count (stats : StreamStats) :
    SameCount stats (block.close stats).2 := by
  unfold close
  split
  · exact SameCount.refl stats
  · split <;> exact fun _ => rfl

theorem resendDue_count (block : BlockInFlight) (stats : StreamStats)
    (now : Instant) : SameCount stats (block.resendDue config stats now).2.1 := by
  have hrequested : ∀ count : Nat,
      SameCount stats (if count > 0 then stats.recordResendRequested count else stats) := by
    intro count
    split <;> exact fun _ => rfl
  unfold resendDue
  split
  · exact hrequested _
  · exact SameCount.refl stats

theorem deliver_fate (block : BlockInFlight) (stats : StreamStats)
    (header : GvspHeader) (content : Content) (now : Instant) (h : block.Countable) :
    Fate (tally block.used stats)
      (tally (block.deliver config stats header content now).1.used
        (block.deliver config stats header content now).2.1) := by
  unfold deliver
  dsimp only
  split
  · exact .duplicate
  · exact tally_ignored block.used stats .late
  · have htouched : block.SameData { block with lastPacket := now } :=
      ⟨now, block.resend, block.resolved, rfl⟩
    have hfate := handle_fate config { block with lastPacket := now } stats header content
      (htouched.countable h)
    rw [(receive_sameData _ _ _ _ _ _).used, receive_count _ _ _ _ _ _, ← htouched.used]
    exact hfate

theorem deliver_countable (block : BlockInFlight)
    (stats : StreamStats) (header : GvspHeader) (content : Content) (now : Instant)
    (h : block.Countable) : (block.deliver config stats header content now).1.Countable := by
  have htouched : block.SameData { block with lastPacket := now } :=
    ⟨now, block.resend, block.resolved, rfl⟩
  unfold deliver
  dsimp only
  split
  · exact htouched.countable h
  · exact htouched.countable h
  · exact (receive_sameData _ _ _ _ _ _).countable
      (handle_countable config _ stats header content (htouched.countable h))

end BlockInFlight

def usedAll (blocks : List BlockInFlight) : Nat := (blocks.map (·.used)).sum

theorem usedAll_append (first second : List BlockInFlight) :
    usedAll (first ++ second) = usedAll first + usedAll second := by
  simp [usedAll]

theorem usedAll_set (blocks : List BlockInFlight) (index : Nat) (block after : BlockInFlight)
    (hat : blocks[index]? = some block) :
    ∃ others, usedAll blocks = block.used + others ∧
      usedAll (blocks.set index after) = after.used + others := by
  induction blocks generalizing index with
  | nil => cases hat
  | cons head rest ih =>
    cases index with
    | zero =>
      cases hat
      exact ⟨usedAll rest, by simp [usedAll], by simp [usedAll]⟩
    | succ index =>
      obtain ⟨others, hbefore, hafter⟩ := ih index hat
      refine ⟨head.used + others, ?_, ?_⟩
      · simp only [usedAll, List.map_cons, List.sum_cons] at hbefore ⊢
        omega
      · simp only [usedAll, List.set_cons_succ, List.map_cons, List.sum_cons] at hafter ⊢
        omega

theorem QuietRun.used {config : AssemblyConfig} {closing : Nat → Bool}
    {after : BlockInFlight} (h : QuietRun config closing before after) :
    after.used = before.used := by
  unfold QuietRun at h
  induction h with
  | refl => rfl
  | tail _ hstep ih => exact hstep.sameData.used.trans ih

theorem usedAll_quiet {config : AssemblyConfig} {closing : Nat → Bool}
    {before after : List BlockInFlight}
    (h : List.Forall₂ (QuietRun config closing) before after) : usedAll after = usedAll before :=
  congrArg List.sum (map_eq_of_forall₂ BlockInFlight.used
    (fun _ _ (hstep : QuietRun config closing _ _) => hstep.used) h)

namespace Assembler

variable (self : Assembler)

theorem emit_count : SameCount self.stats self.emit.1.stats := by
  have hfold : ∀ (leaving : List BlockInFlight) (stats : StreamStats),
      SameCount stats (leaving.foldl StreamStats.recordDeparture stats) := by
    intro leaving
    induction leaving with
    | nil => exact SameCount.refl
    | cons block rest ih =>
      intro stats
      refine SameCount.trans ?_ (ih _)
      unfold StreamStats.recordDeparture
      split <;> exact fun _ => rfl
  exact hfold _ _

theorem evictOne_count : SameCount self.stats self.evictOne.1.stats := by
  unfold evictOne
  split
  · exact emit_count self
  · rename_i block rest _
    split
    · exact SameCount.trans (block.close_count self.stats) (emit_count _)
    · exact emit_count self

theorem evict_count (fuel : Nat) (self : Assembler) :
    SameCount self.stats (evict fuel self).1.stats := by
  induction fuel generalizing self with
  | zero => exact SameCount.refl _
  | succ fuel ih =>
    unfold evict
    split
    · exact SameCount.trans (evictOne_count self) (ih _)
    · exact SameCount.refl _

theorem pollBlocks_count (now : Instant) (newest index : Nat)
    (blocks : List BlockInFlight) (stats : StreamStats) :
    SameCount stats (pollBlocks config now newest index blocks stats).2 := by
  induction blocks generalizing index stats with
  | nil => exact SameCount.refl _
  | cons block rest ih =>
    unfold pollBlocks
    dsimp only
    split
    · exact SameCount.trans (block.close_count stats) (ih _ _)
    · exact ih _ _

theorem resendDueBlocks_count (now : Instant) (blocks : List BlockInFlight) (stats : StreamStats) :
    SameCount stats (resendDueBlocks config now blocks stats).2.1 := by
  induction blocks generalizing stats with
  | nil => exact SameCount.refl _
  | cons block rest ih =>
    unfold resendDueBlocks
    exact SameCount.trans (block.resendDue_count config stats now) (ih _)

theorem order_count {self ordered : Assembler} {header : GvspHeader} {leader : Bool}
    (h : self.order header leader = some ordered) : SameCount self.stats ordered.stats := by
  unfold order at h
  split at h
  · cases h
  · cases h
    dsimp only
    split <;> exact fun _ => rfl
  · cases h
    exact SameCount.refl _
  · split at h <;>
    · cases h
      exact SameCount.refl _

theorem deliver_fate (index : Nat) (header : GvspHeader)
    (content : Content) (now : Instant) (block : BlockInFlight)
    (hat : self.inFlight[index]? = some block) (hcount : block.Countable) :
    Fate (tally (usedAll self.inFlight) self.stats)
      (tally (usedAll ((self.deliver index header content now).2.map (·.block) ++
          (self.deliver index header content now).1.inFlight))
        (self.deliver index header content now).1.stats) := by
  have hstats : SameCount (block.deliver self.config self.stats header content now).2.1
      (self.deliver index header content now).1.stats := by
    unfold deliver
    rw [hat]
    dsimp only
    split
    · exact SameCount.refl _
    · exact emit_count _
  rw [deliver_blocks self index header content now block hat, hstats]
  obtain ⟨others, hbefore, hafter⟩ := usedAll_set self.inFlight index block
    (block.deliver self.config self.stats header content now).1 hat
  rw [hbefore, hafter]
  exact (block.deliver_fate self.config self.stats header content now hcount).add others

theorem ingest_fate (datagram : List UInt8) (now : Instant)
    (hqueue : self.Queue) (hcount : ∀ block ∈ self.inFlight, block.Countable) :
    Fate (tally (usedAll self.inFlight) self.stats)
      (tally (usedAll ((self.ingest datagram now).2.map (·.block) ++
          (self.ingest datagram now).1.inFlight))
        (self.ingest datagram now).1.stats) := by
  have hcase := ingest_cases self datagram now
  generalize (self.ingest datagram now).1 = after at hcase ⊢
  generalize (self.ingest datagram now).2 = out at hcase ⊢
  cases hcase with
  | ignored _ hread hconfig hlast hstats hsteps =>
    obtain ⟨reason, gone, hstats⟩ := hstats
    rw [List.map_nil, List.nil_append, usedAll_quiet (hsteps fun _ => true), hstats]
    exact tally_ignored _ _ reason
  | late => exact tally_ignored _ _ .late
  | existing header content index block hread hat hid =>
    exact deliver_fate self index header content now block hat
      (hcount block (List.mem_of_getElem? hat))
  | started header content ordered room out spare hread hnew horder hevict opened hopened =>
    have hroom := evict_blocks ordered (by rw [(order_inFlight horder).1]; exact hqueue.length_le)
    rw [hevict, (order_inFlight horder).1] at hroom
    have hused : usedAll (out.map (·.block)) + usedAll room.inFlight = usedAll self.inFlight := by
      rw [← usedAll_append, hroom]
      split
      · exact usedAll_quiet (closeOldest_quiet self.config (fun _ => true) _ _ fun _ _ => rfl)
      · rfl
    have hstats : SameCount self.stats room.stats := by
      have := evict_count ordered.inFlight.length ordered
      rw [hevict] at this
      exact SameCount.trans (order_count horder) this
    have hstart : (BlockInFlight.start room.config spare header now).used = 0 := by
      simp [BlockInFlight.used_eq, BlockInFlight.start]
    have hfate := deliver_fate opened room.inFlight.length header content now
      (BlockInFlight.start room.config spare header now) (by simp [hopened])
      (BlockInFlight.start_countable room.config header now)
    have hopenedUsed : usedAll opened.inFlight = usedAll room.inFlight := by
      rw [hopened, usedAll_append]
      simp [usedAll, hstart]
    have hopenedStats : opened.stats = room.stats := by rw [hopened]
    rw [hopenedUsed, hopenedStats, hstats] at hfate
    have hadded := hfate.add (usedAll (out.map (·.block)))
    rw [List.map_append, List.append_assoc, usedAll_append, ← hused]
    rw [Nat.add_comm (usedAll room.inFlight), Nat.add_comm (usedAll (_ ++ _))] at hadded
    exact hadded

theorem call_tally (call : Call) (hqueue : self.Queue)
    (hingest : ∀ datagram now, call ≠ .ingest datagram now) :
    tally (usedAll ((self.call call).departed.map (·.block) ++ (self.call call).asm.inFlight))
        (self.call call).asm.stats =
      tally (usedAll self.inFlight) self.stats := by
  have hstats : SameCount self.stats (self.call call).asm.stats := by
    cases call with
    | ingest datagram now => exact absurd rfl (hingest datagram now)
    | poll now => exact SameCount.trans (pollBlocks_count _ _ _ _ _ _) (emit_count _)
    | resendDue now =>
      simp only [Assembler.call, resendDue]
      split
      · exact resendDueBlocks_count _ _ _ _
      · exact SameCount.refl _
    | setConfig config => exact SameCount.refl _
  have hnone : self.fresh call = [] := by
    cases call with
    | ingest datagram now => exact absurd rfl (hingest datagram now)
    | _ => rfl
  have hblocks := call_blocks self call hqueue
  rw [hnone, List.append_nil] at hblocks
  have hused : usedAll ((self.call call).departed.map (·.block) ++
      (self.call call).asm.inFlight) = usedAll self.inFlight := by
    refine congrArg List.sum (map_eq_of_forall₂ BlockInFlight.used (fun _ _ hstep => ?_) hblocks)
    cases hstep with
    | quiet _ _ h => exact h.used
    | delivered stats header content datagram now hcall =>
      exact absurd hcall (hingest datagram now)
  rw [hused, hstats]

end Assembler

namespace History

/-- The tally of a run: what all its blocks use, and the counters. -/
def tally (history : History) : Tally :=
  Stream.tally (history.blocks.map (·.block.used)).sum history.asm.stats

theorem tally_call (history : History) (call : Call) (h : history.Mirrors) :
    (history.call call).tally =
      Stream.tally
        (usedAll ((history.asm.call call).departed.map (·.block) ++
            (history.asm.call call).asm.inFlight) +
          (history.left.map (·.tracked.block.used)).sum)
        (history.asm.call call).asm.stats := by
  have hblocks := history.observed_blocks call h
  unfold tally
  rw [blocks_call history call h, List.map_append, List.sum_append, ← hblocks, Nat.add_comm]
  simp only [usedAll, List.map_map, Function.comp_def]
  rfl

theorem tally_eq (history : History) (h : history.Mirrors) :
    history.tally =
      Stream.tally (usedAll history.asm.inFlight +
        (history.left.map (·.tracked.block.used)).sum) history.asm.stats := by
  unfold tally
  rw [blocks, List.map_append, List.sum_append, ← h.inFlight_eq, Nat.add_comm]
  simp only [usedAll, List.map_map, Function.comp_def]

theorem countable_after (calls : List Call) (hkeeps : ∀ call ∈ calls, call.keepsConfig = true) :
    (after config calls).Sound config (fun tracked => tracked.block.Countable) :=
  sound_blocks config BlockInFlight.Countable (BlockInFlight.start_countable config)
    (fun _ _ _ hcount hstep => hstep.sameData.countable hcount)
    (fun block stats _ header content now hcount _ _ =>
      block.deliver_countable config stats header content now hcount) calls hkeeps

theorem ingest_fate (calls : List Call)
    (hkeeps : ∀ call ∈ calls, call.keepsConfig = true) (datagram : List UInt8) (now : Instant) :
    Fate (after config calls).tally ((after config calls).call (.ingest datagram now)).tally := by
  have hsound := countable_after config calls hkeeps
  have hmirrors := hsound.mirrors
  rw [tally_call _ _ hmirrors, tally_eq _ hmirrors]
  refine Fate.add _ (Assembler.ingest_fate _ datagram now hmirrors.queue fun block hblock => ?_)
  rw [← hmirrors.inFlight_eq] at hblock
  obtain ⟨tracked, htracked, rfl⟩ := List.mem_map.mp hblock
  exact hsound.inFlight tracked htracked

theorem tally_other (history : History) (call : Call) (h : history.Mirrors)
    (hingest : call.isIngest = false) : (history.call call).tally = history.tally := by
  rw [tally_call _ _ h, tally_eq _ h]
  have hcall := Assembler.call_tally history.asm call h.queue (by
    rintro datagram now rfl
    cases hingest)
  have hused := congrArg Tally.used hcall
  simp only [Stream.tally, Tally.mk.injEq] at hcall hused ⊢
  exact ⟨by rw [hused], hcall.2⟩

end History

/-- The used and the counters add up to the datagrams ingested, and the next
datagram adds one to one of them. -/
structure History.Accounted (history : History) (ingested : Nat) : Prop where
  total : ingested = (history.blocks.map (·.block.used)).sum +
    history.asm.stats.packetsDuplicate + history.asm.stats.packetsIgnored +
    history.asm.stats.packetsSizeMismatch
  next : ∀ datagram now, Fate history.tally (history.call (.ingest datagram now)).tally

/-- Every datagram is counted once: used, duplicate, ignored or mismatched. -/
theorem datagrams_accounted (calls : List Call) (hkeeps : ∀ call ∈ calls, call.keepsConfig = true) :
    (History.after config calls).Accounted (calls.countP Call.isIngest) := by
  refine ⟨?_, History.ingest_fate config calls hkeeps⟩
  suffices htotal : (History.after config calls).tally.total = calls.countP Call.isIngest by
    exact htotal.symm
  induction calls using List.reverseRecOn with
  | nil => rfl
  | append_singleton calls call ih =>
    have hbefore : ∀ earlier ∈ calls, earlier.keepsConfig = true :=
      fun earlier h => hkeeps earlier (by simp [h])
    have hrun : History.after config (calls ++ [call]) =
        (History.after config calls).call call := run_append _ _ _ _
    have ih := ih hbefore
    rw [hrun, List.countP_append, ← ih]
    cases hingest : call.isIngest with
    | true =>
      obtain ⟨datagram, now, rfl⟩ : ∃ datagram now, call = .ingest datagram now := by
        cases call with
        | ingest datagram now => exact ⟨datagram, now, rfl⟩
        | _ => cases hingest
      exact (History.ingest_fate config calls hbefore datagram now).total
    | false =>
      rw [History.tally_other _ call (History.mirrors_after config calls) hingest]
      simp [hingest]

open FakeCamera in
/-- A short packet, taken back out when the one after it arrives, and a poll. -/
def shortPacketRun : List Call :=
  [.ingest (payload { blockId := 1, payloadType := 1 } 1 [7]) 0,
    .ingest (payload { blockId := 1, payloadType := 1 } 2 [1, 2, 3, 4]) 1, .poll 2]

theorem datagrams_accounted_short :
    (History.after { packetSize := 40 } shortPacketRun).Accounted 2 :=
  datagrams_accounted _ shortPacketRun (by decide)

end VivaGenicam.Stream
