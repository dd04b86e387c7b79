import VivaGenicam.Stream.History

/-!
How blocks leave the assembler. Over every run, whatever is called, blocks
leave in the order in which they were started, a resolution is final, and the
eviction loop makes room.
-/

namespace VivaGenicam.Stream

open Gvsp Library.Queue Library.Transition

namespace History

/-- Everything resolved stays resolved as it was. -/
def Outlives (before after : History) : Prop :=
  ∀ tracked ∈ before.blocks, ∀ resolution, tracked.block.resolved = some resolution →
    ∃ later ∈ after.blocks, later.serial = tracked.serial ∧
      later.block.resolved = some resolution

theorem outlives_call (history : History) (call : Call) (h : history.Mirrors) :
    history.Outlives (history.call call) := by
  intro tracked hmem resolution hresolved
  rw [blocks_call history call h]
  rcases List.mem_append.mp hmem with hleft | hflight
  · exact ⟨tracked, List.mem_append_left _ hleft, rfl, hresolved⟩
  · have hsteps := List.forall₂_iff_get.mp (history.observed_steps call h)
    obtain ⟨i, hi, rfl⟩ := List.getElem_of_mem (List.mem_append_left
      ((history.asm.fresh call).map (Tracked.ofBlock history.started.length)) hflight)
    have hi' : i < (history.observed call).length := by
      rw [← hsteps.1]
      exact hi
    have hstep := hsteps.2 i hi hi'
    refine ⟨(history.observed call)[i], by simp, congrArg Prod.snd hstep.key, ?_⟩
    obtain ⟨block, hblock, hafter⟩ := hstep
    simp only [List.get_eq_getElem] at hafter
    rw [hafter, Tracked.observe_block]
    exact hblock.resolved_some hresolved

theorem outlives_run (history : History) (calls : List Call) (h : history.Mirrors) :
    history.Outlives (run History.call history calls) := by
  refine run_relation History.call Mirrors Outlives ?_ ?_ (fun state call => state.mirrors_call call)
    (fun state call => state.outlives_call call) history calls h
  · exact fun state tracked hmem resolution hresolved => ⟨tracked, hmem, rfl, hresolved⟩
  · intro first second third h₁ h₂ tracked hmem resolution hresolved
    obtain ⟨middle, hmiddle, hserial, hmid⟩ := h₁ tracked hmem resolution hresolved
    obtain ⟨last, hlast, hserial', hlater⟩ := h₂ middle hmiddle resolution hmid
    exact ⟨last, hlast, hserial'.trans hserial, hlater⟩

theorem left_initial_run (history : History) (calls : List Call) (h : history.Mirrors) :
    history.left <+: (run History.call history calls).left :=
  run_relation History.call Mirrors (fun before after => before.left <+: after.left)
    (fun _ => List.prefix_refl _) (fun _ _ _ => List.IsPrefix.trans)
    (fun state call => state.mirrors_call call) (fun _ _ _ => List.prefix_append _ _) history calls h

end History

/-- The eviction loop: a pass over a queue that is not empty closes at most its
oldest block and removes at least one, so the loop ends, with room for another
block; passes beyond one for each block change nothing. -/
structure Assembler.Evicts (asm : Assembler) : Prop where
  one_close : asm.evictOne.2.map (·.block) ++ asm.evictOne.1.inFlight =
    Assembler.closeOldest asm.stats asm.inFlight
  removes : asm.inFlight ≠ [] → asm.evictOne.1.inFlight.length < asm.inFlight.length
  makes_room : (Assembler.evict asm.inFlight.length asm).1.inFlight.length < maxInFlight
  ends : ∀ extra, Assembler.evict (asm.inFlight.length + extra) asm =
    Assembler.evict asm.inFlight.length asm

theorem Assembler.evict_add (fuel extra : Nat) (asm : Assembler)
    (hfuel : asm.inFlight.length ≤ fuel) :
    Assembler.evict (fuel + extra) asm = Assembler.evict fuel asm := by
  induction fuel generalizing asm with
  | zero =>
    cases extra with
    | zero => rfl
    | succ extra =>
      rw [Nat.zero_add]
      unfold Assembler.evict
      rw [if_neg]
      unfold maxInFlight
      omega
  | succ fuel ih =>
    rw [show fuel + 1 + extra = (fuel + extra) + 1 by omega]
    unfold Assembler.evict
    split
    · rename_i hfull
      have hne : asm.inFlight ≠ [] := by
        intro hnil
        rw [hnil] at hfull
        simp [maxInFlight] at hfull
      have := asm.evictOne_length_lt hne
      dsimp only
      rw [ih asm.evictOne.1 (by omega)]
    · rfl

theorem Assembler.evicts (asm : Assembler) : asm.Evicts where
  one_close := asm.evictOne_blocks
  removes := asm.evictOne_length_lt
  makes_room := Assembler.evict_done _ asm (le_refl _)
  ends := fun extra => Assembler.evict_add _ extra asm (le_refl _)

theorem BlockInFlight.depart_frame (block : BlockInFlight) (packetSize : Nat)
    (hresolved : block.resolved.isSome = true) :
    (block.depart packetSize).frame = none ↔ block.resolved = some .unsupported := by
  unfold BlockInFlight.depart
  obtain ⟨resolution, h⟩ := Option.isSome_iff_exists.mp hresolved
  rw [h]
  cases resolution <;> simp

theorem History.left_frames (history : History) (calls : List Call) (h : history.Mirrors)
    (hframes : ∀ gone ∈ history.left,
      gone.frame = none ↔ gone.tracked.block.resolved = some .unsupported) :
    ∀ gone ∈ (run History.call history calls).left,
      gone.frame = none ↔ gone.tracked.block.resolved = some .unsupported := by
  induction calls generalizing history with
  | nil => exact hframes
  | cons call rest ih =>
    refine ih (history.call call) (history.mirrors_call call h) fun gone hgone => ?_
    rcases history.mem_call_left call h hgone with hold | ⟨_, hresolved, hframe⟩
    · exact hframes gone hold
    · rw [hframe]
      exact gone.tracked.block.depart_frame _ hresolved

/-- After any calls: at most three blocks in flight, of distinct ids, the front
one open; the blocks that left and those in flight are the blocks started, in
order, each once; and what is resolved stays resolved as it was. -/
theorem queue_laws (config : AssemblyConfig) (calls more : List Call) :
    let history := History.after config calls
    let later := History.after config (calls ++ more)
    history.asm.Queue ∧
      history.inFlight.map (·.block) = history.asm.inFlight ∧
      history.blocks.map (fun tracked => (tracked.block.key, tracked.serial)) =
        history.started.zipIdx ∧
      (∀ gone ∈ history.left, gone.tracked.block.resolved.isSome = true ∧
        (gone.frame = none ↔ gone.tracked.block.resolved = some .unsupported)) ∧
      history.left <+: later.left ∧
      history.Outlives later ∧
      ∀ asm : Assembler, asm.Evicts := by
  intro history later
  have hmirrors := History.mirrors_after config calls
  have hlater : later = run History.call history more := run_append _ _ _ _
  refine ⟨hmirrors.queue, hmirrors.inFlight_eq, hmirrors.order, ?_, ?_, ?_, Assembler.evicts⟩
  · exact fun gone hgone => ⟨hmirrors.left_resolved gone hgone,
      History.left_frames _ calls (History.mirrors_start config) (by simp [History.start]) gone
        hgone⟩
  · rw [hlater]
    exact history.left_initial_run more hmirrors
  · rw [hlater]
    exact history.outlives_run more hmirrors

end VivaGenicam.Stream
