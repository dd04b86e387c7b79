import VivaGenicam.Stream.Steps

/-!
The queue of blocks in flight. It never holds more than three blocks or two of
one id, its front is unresolved between calls, and blocks leave it from the
front only. Everything a call does to it is read off the control flow of
`ingest`, `poll` and `resend_due` here, once.
-/

namespace VivaGenicam.Stream

open Gvsp Library Library.Queue

/-- The control flow of `ingest`: the datagram is not a packet to assemble, its
block is long gone, its block is in flight, or it starts a block. -/
inductive IngestCase (self : Assembler) (datagram : List UInt8) (now : Instant) :
    Assembler → List Departed → Prop
  | ignored (after : Assembler)
      (hread : ∀ header content, readDatagram datagram ≠ .packet header content)
      (hconfig : after.config = self.config) (hlast : after.lastBlockId = self.lastBlockId)
      (hstats : ∃ reason gone,
        after.stats = (self.stats.recordIgnoredPacket reason).recordResendUnavailable gone)
      (hquiet : ∀ closing, List.Forall₂ (QuietRun self.config closing)
        self.inFlight after.inFlight) :
      IngestCase self datagram now after []
  | late (header : GvspHeader) (content : Content)
      (hread : readDatagram datagram = .packet header content)
      (hnew : ∀ block ∈ self.inFlight, block.blockId ≠ header.blockId)
      (horder : self.order header content.isLeader = none) :
      IngestCase self datagram now (self.ignore .late) []
  | existing (header : GvspHeader) (content : Content) (index : Nat) (block : BlockInFlight)
      (hread : readDatagram datagram = .packet header content)
      (hat : self.inFlight[index]? = some block) (hid : block.blockId = header.blockId) :
      IngestCase self datagram now (self.deliver index header content now).1
        (self.deliver index header content now).2
  | started (header : GvspHeader) (content : Content) (ordered room : Assembler)
      (out : List Departed) (spare : PacketBitmap)
      (hread : readDatagram datagram = .packet header content)
      (hnew : ∀ block ∈ self.inFlight, block.blockId ≠ header.blockId)
      (horder : self.order header content.isLeader = some ordered)
      (hevict : Assembler.evict ordered.inFlight.length ordered = (room, out))
      (opened : Assembler)
      (hopened : opened =
        { room with
          inFlight := room.inFlight ++ [BlockInFlight.start room.config spare header now]
          spareBitmaps := room.spareBitmaps.dropLast }) :
      IngestCase self datagram now
        (opened.deliver room.inFlight.length header content now).1
        (out ++ (opened.deliver room.inFlight.length header content now).2)

/-- What the queue satisfies between calls. -/
structure Assembler.Queue (asm : Assembler) : Prop where
  length_le : asm.inFlight.length ≤ maxInFlight
  ids_nodup : (asm.inFlight.map (·.blockId)).Nodup
  front_open : ∀ block ∈ asm.inFlight.head?, block.resolved = none

namespace Assembler

variable (self : Assembler)

@[simp] theorem touch_config (blockId : Nat) (now : Instant) :
    (self.touch blockId now).config = self.config := rfl

@[simp] theorem touch_lastBlockId (blockId : Nat) (now : Instant) :
    (self.touch blockId now).lastBlockId = self.lastBlockId := rfl

@[simp] theorem ignore_config (reason : IgnoredPacket) :
    (self.ignore reason).config = self.config := rfl

@[simp] theorem ignore_lastBlockId (reason : IgnoredPacket) :
    (self.ignore reason).lastBlockId = self.lastBlockId := rfl

@[simp] theorem ignore_inFlight (reason : IgnoredPacket) :
    (self.ignore reason).inFlight = self.inFlight := rfl

@[simp] theorem onResendAnswer_config (header : GvspHeader)
    (answer : Option Answer) : (self.onResendAnswer header answer).config = self.config := by
  unfold onResendAnswer
  dsimp only
  split <;> rfl

@[simp] theorem onResendAnswer_lastBlockId (header : GvspHeader) (answer : Option Answer) :
    (self.onResendAnswer header answer).lastBlockId = self.lastBlockId := by
  unfold onResendAnswer
  dsimp only
  split <;> rfl

theorem onResendAnswer_stats (header : GvspHeader) (answer : Option Answer) :
    ∃ gone, (self.onResendAnswer header answer).stats = self.stats.recordResendUnavailable gone := by
  unfold onResendAnswer
  dsimp only
  split
  · split
    · exact ⟨_, rfl⟩
    · exact ⟨0, rfl⟩
  · exact ⟨0, rfl⟩

theorem touch_quiet (config : AssemblyConfig) (closing : Nat → Bool)
    (blockId : Nat) (now : Instant) :
    List.Forall₂ (QuietRun config closing) self.inFlight (self.touch blockId now).inFlight :=
  forall₂_updateFirst (QuietRun.refl config closing) _ _ _ fun block _ _ =>
    QuietRun.single (.touched block now)

theorem onResendAnswer_quiet (config : AssemblyConfig)
    (closing : Nat → Bool) (header : GvspHeader) (answer : Option Answer) :
    List.Forall₂ (QuietRun config closing) self.inFlight
      (self.onResendAnswer header answer).inFlight := by
  unfold onResendAnswer
  dsimp only
  split
  · rename_i resend answer hfound
    apply forall₂_updateFound (QuietRun.refl config closing)
    intro block hblock
    rw [hblock] at hfound
    exact QuietRun.single (.answered block resend header.packetId answer hfound)
  · exact forall₂_refl (QuietRun.refl config closing) _

@[simp] theorem emit_config : self.emit.1.config = self.config := rfl

@[simp] theorem emit_lastBlockId :
    self.emit.1.lastBlockId = self.lastBlockId := rfl

theorem emit_blocks :
    self.emit.2.map (·.block) ++ self.emit.1.inFlight = self.inFlight := by
  have hblock : ((·.block) : Departed → BlockInFlight) ∘
      (fun block => block.depart self.config.packetSize) = id := rfl
  simp only [emit, List.map_map, hblock, List.map_id]
  exact List.takeWhile_append_dropWhile

/-- A departed block was resolved, and its frame is what it departs as. -/
def Left (packetSize : Nat) (departed : Departed) : Prop :=
  departed.block.resolved.isSome = true ∧ departed = departed.block.depart packetSize

theorem emit_left :
    ∀ departed ∈ self.emit.2, Left self.config.packetSize departed := by
  intro departed hmem
  obtain ⟨block, hblock, rfl⟩ := List.mem_map.mp hmem
  have hresolved := List.mem_takeWhile_imp hblock
  exact ⟨hresolved, rfl⟩

theorem emit_front :
    ∀ block ∈ self.emit.1.inFlight.head?, block.resolved = none := by
  intro block hblock
  have := List.head?_dropWhile_not (fun block : BlockInFlight => block.resolved.isSome)
    self.inFlight
  rw [Option.mem_def] at hblock
  simp only [emit] at hblock
  rw [hblock] at this
  simpa using this

theorem emit_length_le :
    self.emit.1.inFlight.length ≤ self.inFlight.length := by
  have := congrArg List.length (emit_blocks self)
  rw [List.length_append] at this
  omega

theorem emit_length_lt (block : BlockInFlight)
    (rest : List BlockInFlight) (hqueue : self.inFlight = block :: rest)
    (hresolved : block.resolved.isSome = true) :
    self.emit.1.inFlight.length < self.inFlight.length := by
  simp only [emit, hqueue, List.dropWhile_cons, hresolved, if_true, List.length_cons]
  have := (List.dropWhile_sublist (fun block : BlockInFlight => block.resolved.isSome)
    (l := rest)).length_le
  omega

/-- The queue once its oldest block has been closed, unless it is finished. -/
def closeOldest (stats : StreamStats) : List BlockInFlight → List BlockInFlight
  | [] => []
  | block :: rest =>
    if block.resolved.isNone then (block.close stats).1 :: rest else block :: rest

theorem close_resolved (block : BlockInFlight) (stats : StreamStats) :
    (block.close stats).1.resolved.isSome = true := by
  obtain ⟨resolution, h⟩ := block.close_eq stats
  rw [h]
  rfl

@[simp] theorem evictOne_config :
    self.evictOne.1.config = self.config := by
  unfold evictOne
  split
  · rfl
  · split <;> rfl

@[simp] theorem evictOne_lastBlockId :
    self.evictOne.1.lastBlockId = self.lastBlockId := by
  unfold evictOne
  split
  · rfl
  · split <;> rfl

theorem evictOne_blocks :
    self.evictOne.2.map (·.block) ++ self.evictOne.1.inFlight =
      closeOldest self.stats self.inFlight := by
  cases hblocks : self.inFlight with
  | nil =>
    simp only [evictOne, closeOldest, hblocks]
    rw [emit_blocks, hblocks]
  | cons block rest =>
    simp only [evictOne, closeOldest, hblocks]
    split
    · exact emit_blocks _
    · rw [emit_blocks, hblocks]

theorem evictOne_length_lt (hne : self.inFlight ≠ []) :
    self.evictOne.1.inFlight.length < self.inFlight.length := by
  cases hqueue : self.inFlight with
  | nil => exact absurd hqueue hne
  | cons block rest =>
    unfold evictOne
    rw [hqueue]
    dsimp only
    split
    · have := emit_length_lt
        { self with inFlight := (block.close self.stats).1 :: rest
                    stats := (block.close self.stats).2 } _ _ rfl (close_resolved block _)
      simpa using this
    · rename_i hresolved
      have := emit_length_lt self block rest hqueue (by simpa [Option.isSome_iff_ne_none]
        using hresolved)
      rwa [hqueue] at this

theorem evictOne_left :
    ∀ departed ∈ self.evictOne.2, Left self.config.packetSize departed := by
  unfold evictOne
  split
  · exact emit_left self
  · split
    · exact emit_left _
    · exact emit_left self

theorem evictOne_front :
    ∀ block ∈ self.evictOne.1.inFlight.head?, block.resolved = none := by
  unfold evictOne
  split
  · exact emit_front self
  · split
    · exact emit_front _
    · exact emit_front self

variable (fuel : Nat)

theorem evict_done (self : Assembler) (hfuel : self.inFlight.length ≤ fuel) :
    (evict fuel self).1.inFlight.length < maxInFlight := by
  induction fuel generalizing self with
  | zero =>
    simp only [evict]
    unfold maxInFlight
    omega
  | succ fuel ih =>
    unfold evict
    split
    · rename_i hfull
      have hne : self.inFlight ≠ [] := by
        intro hnil
        rw [hnil] at hfull
        simp [maxInFlight] at hfull
      have := evictOne_length_lt self hne
      exact ih self.evictOne.1 (by omega)
    · rename_i hroom
      dsimp only
      omega

@[simp] theorem evict_config (self : Assembler) :
    (evict fuel self).1.config = self.config := by
  induction fuel generalizing self with
  | zero => rfl
  | succ fuel ih =>
    unfold evict
    split
    · exact (ih _).trans (evictOne_config self)
    · rfl

@[simp] theorem evict_lastBlockId (self : Assembler) :
    (evict fuel self).1.lastBlockId = self.lastBlockId := by
  induction fuel generalizing self with
  | zero => rfl
  | succ fuel ih =>
    unfold evict
    split
    · exact (ih _).trans (evictOne_lastBlockId self)
    · rfl

theorem evict_left (self : Assembler) :
    ∀ departed ∈ (evict fuel self).2, Left self.config.packetSize departed := by
  induction fuel generalizing self with
  | zero => simp [evict]
  | succ fuel ih =>
    unfold evict
    split
    · intro departed hmem
      rcases List.mem_append.mp hmem with h | h
      · exact evictOne_left self departed h
      · simpa using ih self.evictOne.1 departed h
    · simp

/-- With at most three blocks in flight the loop makes at most one pass, so at
most the oldest block is closed. -/
theorem evict_blocks (hlen : self.inFlight.length ≤ maxInFlight) :
    (evict self.inFlight.length self).2.map (·.block) ++
        (evict self.inFlight.length self).1.inFlight =
      if self.inFlight.length = maxInFlight then closeOldest self.stats self.inFlight
      else self.inFlight := by
  by_cases hfull : self.inFlight.length = maxInFlight
  · rw [if_pos hfull]
    have hne : self.inFlight ≠ [] := by
      intro hnil
      rw [hnil] at hfull
      simp [maxInFlight] at hfull
    have hlt := evictOne_length_lt self hne
    have hfuel : self.inFlight.length = 2 + 1 := by rw [hfull]; rfl
    rw [hfuel]
    unfold evict
    rw [if_pos (by omega)]
    dsimp only
    unfold evict
    rw [if_neg (by unfold maxInFlight; omega)]
    dsimp only
    rw [List.append_nil]
    exact evictOne_blocks self
  · rw [if_neg hfull]
    cases hfuel : self.inFlight.length with
    | zero =>
      unfold evict
      simp
    | succ fuel =>
      unfold evict
      rw [if_neg (by omega)]
      simp

theorem evict_front (self : Assembler)
    (hfront : ∀ block ∈ self.inFlight.head?, block.resolved = none) :
    ∀ block ∈ (evict fuel self).1.inFlight.head?, block.resolved = none := by
  induction fuel generalizing self with
  | zero => exact hfront
  | succ fuel ih =>
    unfold evict
    split
    · exact ih _ (evictOne_front self)
    · exact hfront

theorem deliver_blocks (index : Nat) (header : GvspHeader)
    (content : Content) (now : Instant) (block : BlockInFlight)
    (hat : self.inFlight[index]? = some block) :
    (self.deliver index header content now).2.map (·.block) ++
        (self.deliver index header content now).1.inFlight =
      self.inFlight.set index
        (block.deliver self.config self.stats header content now).1 := by
  unfold deliver
  rw [hat]
  dsimp only
  split
  · rfl
  · exact emit_blocks _

@[simp] theorem deliver_config (index : Nat) (header : GvspHeader)
    (content : Content) (now : Instant) :
    (self.deliver index header content now).1.config = self.config := by
  unfold deliver
  split
  · rfl
  · dsimp only
    split <;> rfl

@[simp] theorem deliver_lastBlockId (index : Nat) (header : GvspHeader)
    (content : Content) (now : Instant) :
    (self.deliver index header content now).1.lastBlockId = self.lastBlockId := by
  unfold deliver
  split
  · rfl
  · dsimp only
    split <;> rfl

theorem deliver_left (index : Nat) (header : GvspHeader) (content : Content) (now : Instant) :
    ∀ departed ∈ (self.deliver index header content now).2,
      Left self.config.packetSize departed := by
  unfold deliver
  split
  · simp
  · dsimp only
    split
    · simp
    · exact emit_left _

/-- A packet for a resolved block changes no block's status, one for an open
block is followed by a look at the front; either way the front stays open. -/
theorem deliver_front (index : Nat) (header : GvspHeader) (content : Content) (now : Instant)
    (hfront : ∀ block ∈ self.inFlight.head?, block.resolved = none) :
    ∀ block ∈ (self.deliver index header content now).1.inFlight.head?,
      block.resolved = none := by
  unfold deliver
  split
  · exact hfront
  · rename_i block hat
    dsimp only
    split
    · rename_i hresolved
      intro front hhead
      have hindex : index ≠ 0 := by
        rintro rfl
        rw [← List.head?_eq_getElem?] at hat
        rw [hfront block hat] at hresolved
        cases hresolved
      refine hfront front ?_
      rw [List.head?_eq_getElem?] at hhead ⊢
      rwa [List.getElem?_set_ne hindex] at hhead
    · exact emit_front _

variable {header : GvspHeader}

theorem order_inFlight {self ordered : Assembler} {leader : Bool}
    (h : self.order header leader = some ordered) :
    ordered.inFlight = self.inFlight ∧ ordered.config = self.config := by
  unfold order at h
  split at h
  · cases h
  · cases h
    exact ⟨rfl, rfl⟩
  · cases h
    exact ⟨rfl, rfl⟩
  · split at h <;>
    · cases h
      exact ⟨rfl, rfl⟩

theorem ingest_cases (datagram : List UInt8) (now : Instant) :
    IngestCase self datagram now (self.ingest datagram now).1 (self.ingest datagram now).2 := by
  unfold ingest
  split
  · rename_i header answer hread
    obtain ⟨gone, hstats⟩ := onResendAnswer_stats
      ((self.touch header.blockId now).ignore .errorStatus) header answer
    refine .ignored _ (by simp [hread]) (by simp) (by simp) ⟨_, gone, hstats⟩ fun closing => ?_
    have htrans : ∀ a b c, QuietRun self.config closing a b →
        QuietRun self.config closing b c → QuietRun self.config closing a c :=
      fun _ _ _ => QuietRun.trans
    exact forall₂_trans htrans
      (self.touch_quiet self.config closing header.blockId now)
      (onResendAnswer_quiet ((self.touch header.blockId now).ignore .errorStatus)
        self.config closing header answer)
  · rename_i hread
    exact .ignored _ (by simp [hread]) rfl rfl ⟨.malformed, 0, rfl⟩ fun closing =>
      forall₂_refl (QuietRun.refl self.config closing) _
  · rename_i header hread
    exact .ignored _ (by simp [hread]) rfl rfl ⟨.unsupported, 0, rfl⟩ fun closing =>
      self.touch_quiet self.config closing header.blockId now
  · rename_i header hread
    exact .ignored _ (by simp [hread]) rfl rfl ⟨.errorStatus, 0, rfl⟩ fun closing =>
      self.touch_quiet self.config closing header.blockId now
  · rename_i header content hread
    unfold admitPacket
    cases hindex : self.inFlight.findIdx? (·.blockId == header.blockId) with
    | some index =>
      obtain ⟨hlt, hid, -⟩ := List.findIdx?_eq_some_iff_getElem.mp hindex
      exact .existing header content index self.inFlight[index] hread
        (List.getElem?_eq_getElem hlt) (by simpa using hid)
    | none =>
      have hnew : ∀ block ∈ self.inFlight, block.blockId ≠ header.blockId := by
        simpa using hindex
      cases horder : self.order header content.isLeader with
      | none => exact .late header content hread hnew horder
      | some ordered =>
        exact .started header content ordered _ _ _ hread hnew horder rfl _ rfl

variable (config : AssemblyConfig)

theorem pollBlocks_quiet (closing : Nat → Bool) (now : Instant)
    (newest index : Nat) (blocks : List BlockInFlight) (stats : StreamStats)
    (hclosing : ∀ i (block : BlockInFlight), blocks[i]? = some block →
      block.timedOut config now (index + i == newest) = true → closing block.blockId = true) :
    List.Forall₂ (QuietRun config closing) blocks
      (pollBlocks config now newest index blocks stats).1 := by
  induction blocks generalizing index stats with
  | nil => exact .nil
  | cons block rest ih =>
    have hrest : ∀ i (block : BlockInFlight), rest[i]? = some block →
        block.timedOut config now (index + 1 + i == newest) = true →
        closing block.blockId = true := by
      intro i next hat htimed
      refine hclosing (i + 1) next (by simpa using hat) ?_
      rwa [show index + (i + 1) = index + 1 + i by omega]
    unfold pollBlocks
    dsimp only
    split
    · rename_i htimed
      have hopen : block.resolved = none := by
        unfold BlockInFlight.timedOut at htimed
        simp only [Bool.and_eq_true, Option.isNone_iff_eq_none] at htimed
        exact htimed.1.1
      refine .cons (QuietRun.single (.closed block stats ?_ hopen)) (ih _ _ hrest)
      exact hclosing 0 block rfl (by simpa using htimed)
    · exact .cons (QuietRun.refl config closing block) (ih _ _ hrest)

theorem resendDueBlocks_quiet (closing : Nat → Bool)
    (now : Instant) (blocks : List BlockInFlight) (stats : StreamStats) :
    List.Forall₂ (QuietRun config closing) blocks
      (resendDueBlocks config now blocks stats).1 := by
  induction blocks generalizing stats with
  | nil => exact .nil
  | cons block rest ih =>
    unfold resendDueBlocks
    exact .cons (QuietRun.single (.asked block stats now)) (ih _)

theorem closeOldest_quiet (closing : Nat → Bool) (stats : StreamStats) (blocks : List BlockInFlight)
    (hclosing : ∀ block ∈ blocks.head?, closing block.blockId = true) :
    List.Forall₂ (QuietRun config closing) blocks (closeOldest stats blocks) := by
  unfold closeOldest
  split
  · exact .nil
  · rename_i block rest
    split
    · rename_i hopen
      refine .cons (QuietRun.single (.closed block stats ?_ (by simpa using hopen)))
        (forall₂_refl (QuietRun.refl config closing) rest)
      exact hclosing block rfl
    · exact forall₂_refl (QuietRun.refl config closing) _

variable {datagram : List UInt8} {content : Content}

theorem fresh_ingest (now : Instant) (hread : readDatagram datagram = .packet header content) :
    self.fresh (.ingest datagram now) =
      if self.inFlight.any (·.blockId == header.blockId) ∨
          (self.order header content.isLeader).isNone then
        []
      else
        [BlockInFlight.start self.config .empty header now] := by
  simp only [fresh, Call.packet_ingest now hread]

theorem fresh_started (now : Instant) (hread : readDatagram datagram = .packet header content)
    (hnew : ∀ block ∈ self.inFlight, block.blockId ≠ header.blockId) {ordered : Assembler}
    (horder : self.order header content.isLeader = some ordered) :
    self.fresh (.ingest datagram now) =
      [BlockInFlight.start self.config .empty header now] := by
  rw [fresh_ingest self now hread, if_neg]
  simpa [horder] using hnew

theorem fresh_existing (now : Instant) (hread : readDatagram datagram = .packet header content)
    {block : BlockInFlight} (hmem : block ∈ self.inFlight)
    (hid : block.blockId = header.blockId) : self.fresh (.ingest datagram now) = [] := by
  rw [fresh_ingest self now hread, if_pos]
  exact .inl (List.any_eq_true.mpr ⟨block, hmem, by simpa using hid⟩)

theorem fresh_late (now : Instant) (hread : readDatagram datagram = .packet header content)
    (horder : self.order header content.isLeader = none) :
    self.fresh (.ingest datagram now) = [] := by
  rw [fresh_ingest self now hread, if_pos]
  exact .inr (by simp [horder])

theorem fresh_ignored {call : Call} (h : call.packet = none) :
    self.fresh call = [] := by
  unfold fresh
  rw [h]
  split
  · rename_i heq
    cases heq
  · rfl

theorem packet_ignored (now : Instant)
    (hread : ∀ header content, readDatagram datagram ≠ .packet header content) :
    (Call.ingest datagram now).packet = none := by
  unfold Call.packet
  dsimp only
  split
  · rename_i header content h
    exact absurd h (hread header content)
  · rfl

theorem forall₂_quiet {self : Assembler} {call : Call} {before after : List BlockInFlight}
    (hother : ∀ packet ∈ call.packet, ∀ block ∈ before, block.blockId ≠ packet.1.blockId)
    (h : List.Forall₂ (QuietRun self.config (self.closes call)) before after) :
    List.Forall₂ (BlockStep self call) before after := by
  rw [List.forall₂_iff_get] at h ⊢
  refine ⟨h.1, fun i hbefore hafter => ?_⟩
  exact .quiet _ _ (fun packet hpacket => hother packet hpacket _ (by simp))
    (h.2 i hbefore hafter)

/-- The queue before a call, with the block the call starts, corresponds block
by block to the blocks that left and the queue after it. -/
theorem call_blocks (call : Call) (hqueue : self.Queue) :
    List.Forall₂ (BlockStep self call) (self.inFlight ++ self.fresh call)
      ((self.call call).departed.map (·.block) ++ (self.call call).asm.inFlight) := by
  cases call with
  | poll now =>
    rw [fresh_ignored self rfl, List.append_nil]
    refine forall₂_quiet (by simp [Call.packet]) ?_
    simp only [Assembler.call, poll]
    rw [emit_blocks]
    refine pollBlocks_quiet _ _ _ _ _ _ _ fun i block hat htimed => ?_
    simp only [closes, List.any_eq_true, Prod.exists]
    refine ⟨block, i, ?_, by simpa using htimed⟩
    rwa [List.mk_mem_zipIdx_iff_getElem?]
  | resendDue now =>
    rw [fresh_ignored self rfl, List.append_nil]
    refine forall₂_quiet (by simp [Call.packet]) ?_
    simp only [Assembler.call, resendDue]
    split
    · exact resendDueBlocks_quiet _ _ _ _ _
    · exact forall₂_refl (QuietRun.refl _ _) _
  | setConfig config =>
    rw [fresh_ignored self rfl, List.append_nil]
    exact forall₂_quiet (by simp [Call.packet]) (forall₂_refl (QuietRun.refl _ _) _)
  | ingest datagram now =>
    simp only [Assembler.call]
    have hcase := ingest_cases self datagram now
    generalize (self.ingest datagram now).1 = after at hcase
    generalize (self.ingest datagram now).2 = out at hcase
    cases hcase with
    | ignored _ hread hconfig hlast hstats hsteps =>
      have hnone := packet_ignored now hread
      rw [fresh_ignored self hnone, List.append_nil]
      exact forall₂_quiet (by simp [hnone]) (hsteps _)
    | late header content hread hnew horder =>
      rw [fresh_late self now hread horder, List.append_nil]
      refine forall₂_quiet ?_ (forall₂_refl (QuietRun.refl _ _) _)
      simpa [Call.packet_ingest now hread] using hnew
    | existing header content index block hread hat hid =>
      rw [fresh_existing self now hread (List.mem_of_getElem? hat) hid, List.append_nil,
        deliver_blocks self index header content now block hat]
      refine forall₂_set _ _ _ _ hat (.delivered block _ header content datagram now rfl hread hid)
        fun i other hother hne => .quiet _ _ ?_ (QuietRun.refl _ _ _)
      intro packet hpacket hsame
      rw [Call.packet_ingest now hread] at hpacket
      cases hpacket
      have hlt : i < (self.inFlight.map (·.blockId)).length := by
        simpa using (List.getElem?_eq_some_iff.mp hother).1
      refine hne ((List.getElem?_inj hlt hqueue.ids_nodup).mp ?_)
      simp [hother, hat, hsame, hid]
    | started header content ordered room out spare hread hnew horder hevict opened hopened =>
      obtain ⟨hblocks, hconfig⟩ := order_inFlight horder
      have hroom : room.config = self.config := by
        have := evict_config ordered.inFlight.length ordered
        rw [hevict] at this
        exact this.trans hconfig
      have hat : opened.inFlight[room.inFlight.length]? =
          some (BlockInFlight.start room.config spare header now) := by
        simp [hopened]
      have hevicted := evict_blocks ordered (by rw [hblocks]; exact hqueue.length_le)
      rw [hevict, hblocks] at hevicted
      dsimp only at hevicted
      rw [fresh_started self now hread hnew horder, List.map_append, List.append_assoc,
        deliver_blocks opened _ header content now _ hat, hopened]
      dsimp only
      rw [List.set_append_right _ _ (le_refl _), Nat.sub_self, List.set_cons_zero,
        ← List.append_assoc, hevicted, hroom]
      refine List.rel_append ?_ (.cons ?_ .nil)
      · refine forall₂_quiet (by simpa [Call.packet_ingest now hread] using hnew) ?_
        split
        · rename_i hfull
          refine closeOldest_quiet _ _ _ _ fun block hhead => ?_
          simp only [closes, fresh_started self now hread hnew horder, hfull]
          rw [Option.mem_def] at hhead
          simp [hhead]
        · exact forall₂_refl (QuietRun.refl _ _) _
      · exact .delivered _ _ header content datagram now rfl hread rfl

theorem call_config (call : Call) (hkeeps : call.keepsConfig = true) :
    (self.call call).asm.config = self.config := by
  cases call with
  | poll now => rfl
  | resendDue now =>
    simp only [Assembler.call, resendDue]
    split <;> rfl
  | setConfig config => cases hkeeps
  | ingest datagram now =>
    simp only [Assembler.call]
    have hcase := ingest_cases self datagram now
    generalize (self.ingest datagram now).1 = after at hcase
    generalize (self.ingest datagram now).2 = out at hcase
    cases hcase with
    | ignored _ hread hconfig => exact hconfig
    | late => rfl
    | existing header content index => exact deliver_config self index header content now
    | started header content ordered room out spare hread hnew horder hevict opened hopened =>
      have hroom := evict_config ordered.inFlight.length ordered
      rw [hevict, (order_inFlight horder).2] at hroom
      rw [deliver_config, hopened]
      exact hroom

theorem call_left (call : Call) :
    ∀ departed ∈ (self.call call).departed, Left self.config.packetSize departed := by
  cases call with
  | poll now => exact emit_left _
  | resendDue now => simp [Assembler.call]
  | setConfig config => simp [Assembler.call]
  | ingest datagram now =>
    simp only [Assembler.call]
    have hcase := ingest_cases self datagram now
    generalize (self.ingest datagram now).1 = after at hcase
    generalize (self.ingest datagram now).2 = out at hcase
    cases hcase with
    | ignored => simp
    | late => simp
    | existing header content index => exact deliver_left self index header content now
    | started header content ordered room out spare hread hnew horder hevict opened hopened =>
      have hconfig := (order_inFlight horder).2
      have hout := evict_left ordered.inFlight.length ordered
      have hroom := evict_config ordered.inFlight.length ordered
      rw [hevict, hconfig] at hout hroom
      intro departed hmem
      rcases List.mem_append.mp hmem with h | h
      · exact hout departed h
      · have := deliver_left opened room.inFlight.length header content now departed h
        rwa [hopened, hroom] at this

theorem fresh_cases (call : Call) :
    self.fresh call = [] ∨
      ∃ datagram now header content, call = .ingest datagram now ∧
        readDatagram datagram = .packet header content ∧
        (∀ block ∈ self.inFlight, block.blockId ≠ header.blockId) ∧
        self.fresh call = [BlockInFlight.start self.config .empty header now] := by
  cases call with
  | ingest datagram now =>
    cases hread : readDatagram datagram with
    | packet header content =>
      rw [fresh_ingest self now hread]
      split
      · exact .inl rfl
      · rename_i h
        push Not at h
        exact .inr ⟨datagram, now, header, content, rfl, hread, by simpa using h.1, rfl⟩
    | _ => exact .inl (fresh_ignored self (by simp [Call.packet, hread]))
  | _ => exact .inl rfl

theorem ids_fresh_nodup (call : Call) (hqueue : self.Queue) :
    ((self.inFlight ++ self.fresh call).map (·.blockId)).Nodup := by
  rcases self.fresh_cases call with h | ⟨_, _, header, _, _, _, hnew, h⟩
  · rw [h, List.append_nil]
    exact hqueue.ids_nodup
  · rw [h, List.map_append]
    refine List.nodup_append'.mpr ⟨hqueue.ids_nodup, by simp, ?_⟩
    simpa [List.disjoint_left, BlockInFlight.start] using hnew

theorem deliver_length_le (index : Nat) (header : GvspHeader) (content : Content) (now : Instant) :
    (self.deliver index header content now).1.inFlight.length ≤ self.inFlight.length := by
  cases hat : self.inFlight[index]? with
  | none =>
    unfold deliver
    rw [hat]
  | some block =>
    have := congrArg List.length (deliver_blocks self index header content now block hat)
    rw [List.length_append, List.length_set] at this
    omega

theorem call_length_le (call : Call) (hqueue : self.Queue) :
    (self.call call).asm.inFlight.length ≤ maxInFlight := by
  have hle := hqueue.length_le
  cases call with
  | poll now =>
    have hblocks := (pollBlocks_quiet self.config (fun _ => true) now
      (self.inFlight.length - 1) 0 self.inFlight self.stats fun _ _ _ _ => rfl).length_eq
    simp only [Assembler.call, poll]
    refine (emit_length_le _).trans ?_
    dsimp only
    omega
  | resendDue now =>
    have hblocks := (resendDueBlocks_quiet self.config (fun _ => true) now self.inFlight
      self.stats).length_eq
    simp only [Assembler.call, resendDue]
    split
    · dsimp only
      omega
    · exact hle
  | setConfig config => exact hle
  | ingest datagram now =>
    simp only [Assembler.call]
    have hcase := ingest_cases self datagram now
    generalize (self.ingest datagram now).1 = after at hcase
    generalize (self.ingest datagram now).2 = out at hcase
    cases hcase with
    | ignored _ hread hconfig hlast hstats hsteps =>
      have := (hsteps fun _ => true).length_eq
      omega
    | late => exact hle
    | existing header content index =>
      exact (deliver_length_le self index header content now).trans hle
    | started header content ordered room out spare hread hnew horder hevict opened hopened =>
      have hdone := evict_done ordered.inFlight.length ordered (le_refl _)
      rw [hevict] at hdone
      refine (deliver_length_le opened room.inFlight.length header content now).trans ?_
      rw [hopened]
      simpa using hdone

theorem head?_of_forall₂_quiet {config : AssemblyConfig} {closing : Nat → Bool}
    {before after : List BlockInFlight}
    (h : List.Forall₂ (QuietRun config closing) before after)
    (hresolved : ∀ before after, QuietRun config closing before after →
      after.resolved = before.resolved)
    (hfront : ∀ block ∈ before.head?, block.resolved = none) :
    ∀ block ∈ after.head?, block.resolved = none := by
  cases h with
  | nil => simp
  | cons hhead _ =>
    intro block hblock
    cases hblock
    rw [hresolved _ _ hhead]
    exact hfront _ rfl

theorem QuietRun.resolved_eq {config : AssemblyConfig} {before after : BlockInFlight}
    (h : QuietRun config (fun _ => false) before after) : after.resolved = before.resolved := by
  unfold QuietRun at h
  induction h with
  | refl => rfl
  | tail _ hstep ih =>
    rw [← ih]
    cases hstep with
    | touched => rfl
    | answered => rfl
    | closed _ hclosing => cases hclosing
    | asked stats now =>
      obtain ⟨_, h⟩ := BlockInFlight.resendDue_eq config _ stats now
      rw [h]

theorem call_front (call : Call) (hqueue : self.Queue) :
    ∀ block ∈ (self.call call).asm.inFlight.head?, block.resolved = none := by
  have hfront := hqueue.front_open
  have hquiet : ∀ blocks,
      List.Forall₂ (QuietRun self.config fun _ => false) self.inFlight blocks →
      ∀ block ∈ blocks.head?, block.resolved = none := fun blocks h =>
    head?_of_forall₂_quiet h (fun _ _ => QuietRun.resolved_eq) hfront
  cases call with
  | poll now => exact emit_front _
  | resendDue now =>
    simp only [Assembler.call, resendDue]
    split
    · exact hquiet _ (resendDueBlocks_quiet _ _ _ _ _)
    · exact hfront
  | setConfig config => exact hfront
  | ingest datagram now =>
    simp only [Assembler.call]
    have hcase := ingest_cases self datagram now
    generalize (self.ingest datagram now).1 = after at hcase
    generalize (self.ingest datagram now).2 = out at hcase
    cases hcase with
    | ignored _ hread hconfig hlast hstats hsteps => exact hquiet _ (hsteps fun _ => false)
    | late => exact hfront
    | existing header content index => exact deliver_front self index header content now hfront
    | started header content ordered room out spare hread hnew horder hevict opened hopened =>
      have hroom := evict_front ordered.inFlight.length ordered
        (by rwa [(order_inFlight horder).1])
      rw [hevict] at hroom
      refine deliver_front opened room.inFlight.length header content now ?_
      rw [hopened]
      intro block hblock
      dsimp only at hblock
      cases hqueue : room.inFlight with
      | nil =>
        rw [hqueue] at hblock
        cases hblock
        rfl
      | cons front rest =>
        rw [hqueue] at hblock
        cases hblock
        exact hroom _ (by simp [hqueue])

theorem call_queue (call : Call) (hqueue : self.Queue) : (self.call call).asm.Queue where
  length_le := call_length_le self call hqueue
  ids_nodup := by
    have hkeys := congrArg (List.map Prod.fst)
      (map_eq_of_forall₂ BlockInFlight.key
        (fun _ _ (hstep : BlockStep self call _ _) => hstep.key) (call_blocks self call hqueue))
    have hnodup := ids_fresh_nodup self call hqueue
    have hids : ∀ blocks : List BlockInFlight,
        (blocks.map (·.key)).map Prod.fst = blocks.map (·.blockId) := by simp [BlockInFlight.key]
    rw [hids, hids] at hkeys
    rw [← hkeys, List.map_append] at hnodup
    exact (List.nodup_append'.mp hnodup).2.1
  front_open := call_front self call hqueue

end Assembler

end VivaGenicam.Stream
