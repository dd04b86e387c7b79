import VivaGenicam.Library.Transition
import VivaGenicam.Stream.Queue

/-!
Runs of the assembler with the history that its state forgets: for every block
the packets it was given and those it holds, for every block that left the
frame it left as, and the order in which blocks were started. The history is
kept outside the assembler, from the state before and after each call.
-/

namespace VivaGenicam.Stream

open Gvsp Library Library.Queue Library.Transition

/-- Whether what a packet fills in its block is filled: the leader, the trailer
or the data packet's bit. -/
def BlockInFlight.holds (block : BlockInFlight) : Packet → Bool
  | (_, .leader _) => block.leader.isSome
  | (header, .payload _) =>
    decide (header.packetId ≠ 0) && block.bitmap.contains (header.packetId - 1)
  | (_, .trailer _) => block.trailer.isSome

/-- Whether a packet is a data packet that an open block places. -/
def BlockInFlight.Places (config : AssemblyConfig) (block : BlockInFlight) : Packet → Prop
  | (header, .payload data) => block.resolved = none ∧ Placeable config block header data
  | _ => False

instance (config : AssemblyConfig) (block : BlockInFlight) (packet : Packet) :
    Decidable (block.Places config packet) := by
  unfold BlockInFlight.Places
  split <;> infer_instance

/-- A block with its history. -/
structure Tracked where
  /-- How many blocks were started before it. -/
  serial : Nat
  block : BlockInFlight
  /-- Every packet given to the block, in order of arrival. -/
  packets : List Packet := []
  /-- The data packets placed, also those taken back out. -/
  placed : List Packet := []
  /-- The packets that filled something in the block that is still filled. -/
  accepted : List Packet := []

variable (tracked : Tracked)

namespace Tracked

/-- A block of which nothing was received yet. -/
def ofBlock (serial : Nat) (block : BlockInFlight) : Tracked := { serial, block }

/-- The history once `packet` was given to the block and left it as `after`. A
packet is accepted when what it fills was empty before and is filled after. -/
def deliver (tracked : Tracked) (config : AssemblyConfig) (packet : Packet)
    (after : BlockInFlight) : Tracked where
  serial := tracked.serial
  block := after
  packets := tracked.packets ++ [packet]
  placed := tracked.placed ++ if tracked.block.Places config packet then [packet] else []
  accepted :=
    (tracked.accepted ++ if tracked.block.holds packet then [] else [packet]).filter after.holds

/-- The history after a call that carried `packet`, if any. -/
def observe (tracked : Tracked) (config : AssemblyConfig) (packet : Option Packet)
    (after : BlockInFlight) : Tracked :=
  match packet with
  | some packet =>
    if packet.1.blockId = after.blockId then tracked.deliver config packet after
    else { tracked with block := after }
  | none => { tracked with block := after }

@[simp] theorem observe_block (config : AssemblyConfig)
    (packet : Option Packet) (after : BlockInFlight) :
    (tracked.observe config packet after).block = after := by
  unfold observe
  split
  · split <;> rfl
  · rfl

@[simp] theorem observe_serial (config : AssemblyConfig)
    (packet : Option Packet) (after : BlockInFlight) :
    (tracked.observe config packet after).serial = tracked.serial := by
  unfold observe
  split
  · split <;> rfl
  · rfl

theorem observe_other (config : AssemblyConfig) (packet : Option Packet)
    (after : BlockInFlight) (hother : ∀ p ∈ packet, after.blockId ≠ p.1.blockId) :
    tracked.observe config packet after = { tracked with block := after } := by
  unfold observe
  split
  · rename_i packet
    rw [if_neg (fun h => hother packet rfl h.symm)]
  · rfl

end Tracked

theorem Tracked.observe_given (config : AssemblyConfig) (packet : Packet)
    (after : BlockInFlight) (hgiven : packet.1.blockId = after.blockId) :
    tracked.observe config (some packet) after = tracked.deliver config packet after :=
  if_pos hgiven

/-- A block that left, with its history and the frame it left as. -/
structure Gone where
  tracked : Tracked
  frame : Option AssembledBlock

/-- The assembler with the history of a run. -/
structure History where
  asm : Assembler
  inFlight : List Tracked := []
  left : List Gone := []
  /-- Id and id width of the blocks started, in order. -/
  started : List (Nat × Bool) := []

namespace History

def start (config : AssemblyConfig) : History := { asm := { config } }

/-- The blocks of a call with their history: those that left, then those in
flight. -/
def observed (history : History) (call : Call) : List Tracked :=
  let outcome := history.asm.call call
  List.zipWith (fun tracked after => tracked.observe history.asm.config call.packet after)
    (history.inFlight ++ (history.asm.fresh call).map (Tracked.ofBlock history.started.length))
    (outcome.departed.map (·.block) ++ outcome.asm.inFlight)

def call (history : History) (call : Call) : History :=
  let outcome := history.asm.call call
  let observed := history.observed call
  { asm := outcome.asm
    inFlight := observed.drop outcome.departed.length
    left := history.left ++
      ((observed.take outcome.departed.length).zip outcome.departed).map
        fun (tracked, departed) => { tracked, frame := departed.frame }
    started := history.started ++ (history.asm.fresh call).map (·.key) }

/-- Every block started, in the order they left, then those in flight. -/
def blocks (history : History) : List Tracked :=
  history.left.map (·.tracked) ++ history.inFlight

/-- The history of a run from an assembler just made. -/
def after (config : AssemblyConfig) (calls : List Call) : History :=
  run History.call (History.start config) calls

/-- The history follows the queue: what holds in every run. -/
structure Mirrors (history : History) : Prop where
  queue : history.asm.Queue
  inFlight_eq : history.inFlight.map (·.block) = history.asm.inFlight
  order : history.blocks.map (fun tracked => (tracked.block.key, tracked.serial)) =
    history.started.zipIdx
  left_resolved : ∀ gone ∈ history.left, gone.tracked.block.resolved.isSome = true

/-- What a call does to a block and its history. -/
def Step (asm : Assembler) (call : Call) (before after : Tracked) : Prop :=
  ∃ block, BlockStep asm call before.block block ∧
    after = before.observe asm.config call.packet block

theorem observed_steps (history : History) (call : Call) (h : history.Mirrors) :
    List.Forall₂ (Step history.asm call)
      (history.inFlight ++
        (history.asm.fresh call).map (Tracked.ofBlock history.started.length))
      (history.observed call) := by
  refine forall₂_zipWith Tracked.block _ _ _ ?_
  have hfresh : ((history.asm.fresh call).map (Tracked.ofBlock history.started.length)).map (·.block) =
      history.asm.fresh call := by simp [Function.comp_def, Tracked.ofBlock]
  rw [List.map_append, h.inFlight_eq, hfresh]
  exact history.asm.call_blocks call h.queue

theorem observed_blocks (history : History) (call : Call) (h : history.Mirrors) :
    (history.observed call).map (·.block) =
      (history.asm.call call).departed.map (·.block) ++
        (history.asm.call call).asm.inFlight := by
  refine map_zipWith_update Tracked.block _ _ _ ?_ (by simp)
  have hlength := (history.observed_steps call h).length_eq
  have hblocks := congrArg List.length h.inFlight_eq
  have := (history.asm.call_blocks call h.queue).length_eq
  simp only [List.length_append, List.length_map] at this hblocks ⊢
  omega

theorem observed_split (history : History) (call : Call) (h : history.Mirrors) :
    ((history.observed call).take (history.asm.call call).departed.length).map (·.block) =
        (history.asm.call call).departed.map (·.block) ∧
      ((history.call call).inFlight).map (·.block) = (history.asm.call call).asm.inFlight := by
  have hblocks := history.observed_blocks call h
  constructor
  · rw [List.map_take, hblocks, List.take_left' (by simp)]
  · simp only [History.call, List.map_drop]
    rw [hblocks, List.drop_left' (by simp)]

theorem blocks_call (history : History) (call : Call) (h : history.Mirrors) :
    (history.call call).blocks = history.left.map (·.tracked) ++ history.observed call := by
  have hlength := congrArg List.length (history.observed_split call h).1
  rw [List.length_map, List.length_map] at hlength
  have hfst : ∀ pairs : List (Tracked × Departed),
      (pairs.map fun (tracked, departed) =>
        ({ tracked, frame := departed.frame } : Gone)).map (·.tracked) =
      pairs.map Prod.fst := by simp
  simp only [blocks, History.call, List.map_append]
  rw [hfst, List.map_fst_zip hlength.le, List.append_assoc, List.take_append_drop]

/-- A block that has left had left before, or leaves now: it is one of the
call's blocks, it is resolved, and its frame is what it departs as. -/
theorem mem_call_left (history : History) (call : Call) (h : history.Mirrors) {gone : Gone}
    (hgone : gone ∈ (history.call call).left) :
    gone ∈ history.left ∨
      (gone.tracked ∈ history.observed call ∧ gone.tracked.block.resolved.isSome = true ∧
        gone.frame = (gone.tracked.block.depart history.asm.config.packetSize).frame) := by
  simp only [History.call, List.mem_append, List.mem_map, Prod.exists] at hgone
  rcases hgone with hgone | ⟨tracked, departed, hmem, rfl⟩
  · exact .inl hgone
  · have hblock := eq_of_mem_zip (·.block) (·.block) (history.observed_split call h).1 hmem
    have hleft := history.asm.call_left call departed (List.of_mem_zip hmem).2
    refine .inr ⟨List.mem_of_mem_take (List.of_mem_zip hmem).1, ?_, ?_⟩
    · rw [hblock]
      exact hleft.1
    · rw [hblock, ← hleft.2]

variable {asm : Assembler}

theorem Step.key {call : Call} {before after : Tracked} (h : Step asm call before after) :
    (after.block.key, after.serial) = (before.block.key, before.serial) := by
  obtain ⟨block, hblock, rfl⟩ := h
  rw [Tracked.observe_block, hblock.key, Tracked.observe_serial]

theorem mirrors_call (history : History) (call : Call) (h : history.Mirrors) :
    (history.call call).Mirrors where
  queue := history.asm.call_queue call h.queue
  inFlight_eq := (history.observed_split call h).2
  order := by
    have hobserved : (history.observed call).map
          (fun tracked => (tracked.block.key, tracked.serial)) =
        (history.inFlight ++ (history.asm.fresh call).map
          (Tracked.ofBlock history.started.length)).map
            (fun tracked => (tracked.block.key, tracked.serial)) :=
      map_eq_of_forall₂ _ (fun _ _ (hstep : Step history.asm call _ _) => hstep.key)
        (history.observed_steps call h)
    have hfresh : ((history.asm.fresh call).map
          (Tracked.ofBlock history.started.length)).map
            (fun tracked => (tracked.block.key, tracked.serial)) =
        ((history.asm.fresh call).map (·.key)).zipIdx history.started.length := by
      rcases history.asm.fresh_cases call with hnone | ⟨_, _, _, _, _, _, _, hone⟩
      · simp [hnone]
      · simp [hone, Tracked.ofBlock]
    have horder := h.order
    simp only [blocks, List.map_append] at horder hobserved
    rw [blocks_call history call h, List.map_append, hobserved, hfresh, ← List.append_assoc,
      horder]
    simp [History.call, List.zipIdx_append]
  left_resolved := by
    intro gone hgone
    rcases history.mem_call_left call h hgone with hold | ⟨_, hresolved, _⟩
    · exact h.left_resolved gone hold
    · exact hresolved

theorem mirrors_start (config : AssemblyConfig) : (History.start config).Mirrors where
  queue := ⟨by simp [start], by simp [start], by simp [start]⟩
  inFlight_eq := rfl
  order := rfl
  left_resolved := by simp [start]

theorem mirrors_after (config : AssemblyConfig) (calls : List Call) :
    (after config calls).Mirrors :=
  run_invariant History.call (fun _ _ => True) Mirrors
    (fun history call h _ => history.mirrors_call call h) _ _ (mirrors_start config)
    (guarded_of_forall _ _ _ _ fun _ _ _ => trivial)

/-- Conditions on what a call does to blocks: which packets may start one, be
given to one in flight, and which blocks, by serial, may be closed. -/
structure Guard where
  starts : Nat → Packet → Prop := fun _ _ => True
  gives : Tracked → Packet → Prop := fun _ _ => True
  closes : Nat → Prop := fun _ => True

/-- The call changes no configuration and meets the conditions. -/
structure Guard.Admits (guard : Guard) (history : History) (call : Call) : Prop where
  keepsConfig : call.keepsConfig = true
  starts : ∀ packet ∈ call.packet, history.asm.fresh call ≠ [] →
    guard.starts history.started.length packet
  gives : ∀ packet ∈ call.packet, ∀ tracked ∈ history.inFlight,
    tracked.block.blockId = packet.1.blockId → guard.gives tracked packet
  closes : ∀ tracked ∈ history.inFlight,
    history.asm.closes call tracked.block.blockId = true → guard.closes tracked.serial

/-- The call changes no configuration, and its packet, if it is for a block in
flight, meets `guard` on that block. -/
def Admissible (guard : Tracked → Packet → Prop) (history : History) (call : Call) : Prop :=
  call.keepsConfig = true ∧ ∀ packet ∈ call.packet, ∀ tracked ∈ history.inFlight,
    tracked.block.blockId = packet.1.blockId → guard tracked packet

instance (guard : Tracked → Packet → Prop) [∀ tracked packet, Decidable (guard tracked packet)]
    (history : History) (call : Call) : Decidable (Admissible guard history call) :=
  inferInstanceAs (Decidable (_ ∧ _))

variable {history : History}

theorem Admissible.admits {guard : Tracked → Packet → Prop} {call : Call}
    (h : Admissible guard history call) : ({ gives := guard } : Guard).Admits history call :=
  ⟨h.1, fun _ _ _ => trivial, h.2, fun _ _ _ => trivial⟩

/-- What every block of a run at `config` satisfies, in flight or gone. -/
structure Sound (config : AssemblyConfig) (inv : Tracked → Prop) (history : History) : Prop where
  config_eq : history.asm.config = config
  mirrors : history.Mirrors
  inFlight : ∀ tracked ∈ history.inFlight, inv tracked
  left : ∀ gone ∈ history.left,
    inv gone.tracked ∧ gone.frame = (gone.tracked.block.depart config.packetSize).frame

theorem observed_mem {call : Call} (h : history.Mirrors)
    {after : Tracked} (hafter : after ∈ history.observed call) :
    ∃ before ∈ history.inFlight ++
        (history.asm.fresh call).map (Tracked.ofBlock history.started.length),
      Step history.asm call before after := by
  obtain ⟨i, hi, rfl⟩ := List.getElem_of_mem hafter
  have hsteps := List.forall₂_iff_get.mp (history.observed_steps call h)
  exact ⟨_, List.getElem_mem (by rw [hsteps.1]; exact hi), hsteps.2 i _ hi⟩

section Rule

variable (config : AssemblyConfig) (inv : Tracked → Prop) (guard : Guard)
  (hfirst : ∀ serial stats datagram header content now,
    readDatagram datagram = .packet header content → guard.starts serial (header, content) →
    inv ((Tracked.ofBlock serial (.start config .empty header now)).deliver config
      (header, content)
      ((BlockInFlight.start config .empty header now).deliver config stats header content now).1))
  (hquiet : ∀ tracked closing after, inv tracked →
    (closing = true → guard.closes tracked.serial) → Quiet config closing tracked.block after →
    inv { tracked with block := after })
  (hdeliver : ∀ tracked stats datagram header content now, inv tracked →
    readDatagram datagram = .packet header content → tracked.block.blockId = header.blockId →
    guard.gives tracked (header, content) →
    inv (tracked.deliver config (header, content)
      (tracked.block.deliver config stats header content now).1))

include hquiet hdeliver in
theorem step_inv {call : Call} {before after : Tracked}
    (hconfig : asm.config = config) (hinv : inv before)
    (hgives : ∀ packet ∈ call.packet, before.block.blockId = packet.1.blockId →
      guard.gives before packet)
    (hcloses : asm.closes call before.block.blockId = true → guard.closes before.serial)
    (h : Step asm call before after) : inv after := by
  subst hconfig
  obtain ⟨block, hblock, rfl⟩ := h
  have hkey : block.blockId = before.block.blockId := congrArg Prod.fst hblock.key
  obtain ⟨serial, held, packets, placed, accepted⟩ := before
  dsimp only at hblock hkey hgives hcloses
  cases hblock with
  | quiet _ hother hsteps =>
    rw [Tracked.observe_other _ _ _ _ (by rwa [hkey])]
    unfold QuietRun at hsteps
    clear hkey
    induction hsteps with
    | refl => exact hinv
    | @tail held _ _ hstep ih =>
      exact hquiet { serial, block := held, packets, placed, accepted } _ _ ih hcloses hstep
  | delivered stats header content datagram now hcall hread hid =>
    subst hcall
    rw [Call.packet_ingest now hread] at hgives ⊢
    rw [Tracked.observe_given _ _ (header, content) _ (by rw [hkey, hid])]
    exact hdeliver _ stats datagram header content now hinv hread hid (hgives _ rfl hid)

include hfirst in
theorem first_inv {call : Call} {serial : Nat} {header : GvspHeader}
    {content : Content} {datagram : List UInt8} {now : Instant} {after : Tracked}
    (hconfig : asm.config = config) (hcall : call = .ingest datagram now)
    (hread : readDatagram datagram = .packet header content)
    (hstarts : guard.starts serial (header, content))
    (h : Step asm call (.ofBlock serial (.start config .empty header now)) after) :
    inv after := by
  subst hconfig hcall
  obtain ⟨block, hblock, rfl⟩ := h
  have hpacket := Call.packet_ingest now hread
  rw [hpacket]
  generalize hstart : (Tracked.ofBlock serial
    (BlockInFlight.start asm.config .empty header now)).block = block₀ at hblock
  cases hblock with
  | quiet _ hother =>
    rw [hpacket] at hother
    exact absurd (by rw [← hstart]; rfl) (hother _ rfl)
  | delivered stats header' content' datagram' now' hcall hread' =>
    cases hcall
    rw [hread] at hread'
    cases hread'
    subst hstart
    have hkey := (BlockInFlight.start asm.config .empty header now).deliver_key asm.config stats
      header content now
    rw [Tracked.observe_given]
    swap
    · exact (congrArg Prod.fst hkey).symm
    exact hfirst serial stats datagram header content now hread hstarts

include hfirst hquiet hdeliver in
/-- What holds of a block once it was given its first packet, and is kept by
quiet steps and by every delivery, all within the conditions of `guard`, holds
of every block of every run that meets them. -/
theorem sound_call {call : Call} (h : history.Sound config inv)
    (hadmitted : guard.Admits history call) : (history.call call).Sound config inv := by
  have hobserved : ∀ after ∈ history.observed call, inv after := by
    intro after hafter
    obtain ⟨before, hbefore, hstep⟩ := observed_mem h.mirrors hafter
    rcases List.mem_append.mp hbefore with hold | hnew
    · exact step_inv config inv guard hquiet hdeliver h.config_eq (h.inFlight before hold)
        (fun packet hpacket hid => hadmitted.gives packet hpacket before hold hid)
        (hadmitted.closes before hold) hstep
    · obtain ⟨block, hblock, rfl⟩ := List.mem_map.mp hnew
      have hfresh : history.asm.fresh call ≠ [] := List.ne_nil_of_mem hblock
      rcases history.asm.fresh_cases call with hnone | ⟨_, now, header, _, hcall, hread, _, hone⟩
      · exact absurd hnone hfresh
      · have hstarts := hadmitted.starts _ (by rw [hcall, Call.packet_ingest now hread]; rfl) hfresh
        rw [hone, h.config_eq, List.mem_singleton] at hblock
        subst hblock
        exact first_inv config inv guard hfirst h.config_eq hcall hread hstarts hstep
  refine ⟨?_, history.mirrors_call call h.mirrors, ?_, ?_⟩
  · exact (history.asm.call_config call hadmitted.keepsConfig).trans h.config_eq
  · exact fun tracked hmem => hobserved tracked (List.mem_of_mem_drop hmem)
  · intro gone hgone
    rcases history.mem_call_left call h.mirrors hgone with hold | ⟨hmem, _, hframe⟩
    · exact h.left gone hold
    · rw [h.config_eq] at hframe
      exact ⟨hobserved _ hmem, hframe⟩

include hfirst hquiet hdeliver in
theorem sound_run (history : History) (calls : List Call) (hsound : history.Sound config inv)
    (hcalls : Guarded History.call guard.Admits history calls) :
    (run History.call history calls).Sound config inv :=
  run_invariant History.call guard.Admits (Sound config inv)
    (fun _ _ h hadmitted => sound_call config inv guard hfirst hquiet hdeliver h hadmitted)
    _ _ hsound hcalls

end Rule

theorem sound_start (config : AssemblyConfig) (inv : Tracked → Prop) :
    (start config).Sound config inv :=
  ⟨rfl, mirrors_start config, by simp [start], by simp [start]⟩

theorem sound_after (config : AssemblyConfig) (inv : Tracked → Prop)
    (guard : Tracked → Packet → Prop)
    (hfirst : ∀ serial stats datagram header content now,
      readDatagram datagram = .packet header content →
      inv ((Tracked.ofBlock serial (.start config .empty header now)).deliver config
        (header, content)
        ((BlockInFlight.start config .empty header now).deliver config stats header content
          now).1))
    (hquiet : ∀ tracked closing after, inv tracked → Quiet config closing tracked.block after →
      inv { tracked with block := after })
    (hdeliver : ∀ tracked stats datagram header content now, inv tracked →
      readDatagram datagram = .packet header content → tracked.block.blockId = header.blockId →
      guard tracked (header, content) →
      inv (tracked.deliver config (header, content)
        (tracked.block.deliver config stats header content now).1))
    (calls : List Call)
    (hcalls : Guarded History.call (Admissible guard) (start config) calls) :
    (after config calls).Sound config inv :=
  sound_run config inv { gives := guard }
    (fun serial stats datagram header content now hread _ =>
      hfirst serial stats datagram header content now hread)
    (fun tracked closing after hinv _ h => hquiet tracked closing after hinv h) hdeliver
    (start config) calls (sound_start config inv)
    (hcalls.mono fun _ _ => Admissible.admits)

theorem sound_blocks (config : AssemblyConfig) (inv : BlockInFlight → Prop)
    (hstart : ∀ header now, inv (BlockInFlight.start config .empty header now))
    (hquiet : ∀ closing before after, inv before → Quiet config closing before after →
      inv after)
    (hdeliver : ∀ block stats datagram header content now, inv block →
      readDatagram datagram = .packet header content → block.blockId = header.blockId →
      inv (block.deliver config stats header content now).1)
    (calls : List Call) (hkeeps : ∀ call ∈ calls, call.keepsConfig = true) :
    (after config calls).Sound config (fun tracked => inv tracked.block) := by
  refine sound_after config (fun tracked => inv tracked.block) (fun _ _ => True) ?_ ?_ ?_
    calls ?_
  · exact fun _ stats datagram header content now hread =>
      hdeliver _ stats datagram header content now (hstart header now) hread rfl
  · exact fun tracked closing next hinv h => hquiet closing tracked.block next hinv h
  · exact fun tracked stats datagram header content now hinv hread hid _ =>
      hdeliver tracked.block stats datagram header content now hinv hread hid
  · exact guarded_of_forall _ _ _ _ fun _ call hcall =>
      ⟨hkeeps call hcall, fun _ _ _ _ _ => trivial⟩

end History

end VivaGenicam.Stream
