import VivaGenicam.U3v.Stream

/-!
Queued transfers stay paired with their plan. A transfer is taken in as one of
the size it was submitted with, as long as every cancelled queue is drained to
its end; a drain that runs out of time forgets the plan of transfers that are
still queued.
-/

namespace VivaGenicam.U3v

/-- Every wait for a cancelled transfer brings one back in time. -/
def Turn.Drains (turn : Turn) : Prop := ∀ wait, (turn.drain wait).isSome = true

namespace U3vStream

/-- Each transfer queued has its plan, which gives it the size it was submitted
with, and every transfer taken in was taken in with its own. -/
structure Aligned (stream : U3vStream) : Prop where
  sizes : stream.planned.map Prod.snd = stream.queue
  planned_size : ∀ plan ∈ stream.planned, plan.2 = (slot stream.layout plan.1).1
  absorbed : ∀ data submitted requested fate,
    .absorbed data submitted requested fate ∈ stream.events → requested = submitted

/-- The cursor after the last planned transfer, or where the device is when none
is planned. -/
def following (stream : U3vStream) : Cursor :=
  match stream.planned.getLast? with
  | none => stream.cursor
  | some (last, _) => (slot stream.layout last).2

/-- What holds between two calls. -/
structure Paired (stream : U3vStream) : Prop where
  aligned : stream.Aligned
  next_eq : stream.next = stream.following

/-- What holds while a call is at work: the block may have moved on. -/
structure Working (stream : U3vStream) : Prop where
  aligned : stream.Aligned
  next_eq : ∀ plan ∈ stream.planned.getLast?, stream.next = (slot stream.layout plan.1).2

theorem Paired.working {stream : U3vStream} (h : stream.Paired) : stream.Working where
  aligned := h.aligned
  next_eq := by
    intro plan hplan
    rw [h.next_eq, following, hplan]

theorem Working.paired {stream : U3vStream} (h : stream.Working) (hne : stream.planned ≠ []) :
    stream.Paired where
  aligned := h.aligned
  next_eq := by
    rw [following, List.getLast?_eq_some_getLast hne]
    exact h.next_eq _ (List.getLast?_eq_some_getLast hne)

theorem Aligned.cleared {stream : U3vStream} (h : stream.Aligned) (next : Cursor)
    (hnext : next = stream.cursor) :
    ({ stream with queue := [], planned := [], next } : U3vStream).Paired where
  aligned :=
    { sizes := rfl
      planned_size := nofun
      absorbed := h.absorbed }
  next_eq := hnext

theorem Working.submitNext {stream : U3vStream} (h : stream.Working) :
    stream.submitNext.Working where
  aligned :=
    { sizes := by
        simp only [U3vStream.submitNext, List.map_append, h.aligned.sizes]
        rfl
      planned_size := by
        intro plan hplan
        rcases List.mem_append.mp hplan with hold | hnew
        · exact h.aligned.planned_size plan hold
        · rw [List.mem_singleton.mp hnew]
          rfl
      absorbed := h.aligned.absorbed }
  next_eq := by
    intro plan hplan
    simp only [U3vStream.submitNext, List.getLast?_concat, Option.mem_some_iff] at hplan
    rw [← hplan]
    rfl

theorem iterate_submitNext_length (stream : U3vStream) (count : Nat) :
    (Nat.iterate submitNext count stream).queue.length = stream.queue.length + count := by
  induction count generalizing stream with
  | zero => rfl
  | succ count ih =>
    rw [Function.iterate_succ_apply, ih]
    simp only [submitNext, List.length_append, List.length_singleton]
    omega

theorem Working.fill {stream : U3vStream} (h : stream.Working) : stream.fill.Working := by
  unfold U3vStream.fill
  generalize stream.inFlight - stream.queue.length = count
  induction count generalizing stream with
  | zero => exact h
  | succ count ih =>
    rw [Function.iterate_succ_apply]
    exact ih h.submitNext

theorem fill_queue_length (stream : U3vStream) :
    stream.inFlight ≤ stream.fill.queue.length := by
  rw [fill, iterate_submitNext_length]
  omega

theorem fill_inFlight (stream : U3vStream) : stream.fill.inFlight = stream.inFlight := by
  unfold fill
  generalize stream.inFlight - stream.queue.length = count
  induction count generalizing stream with
  | zero => rfl
  | succ count ih =>
    rw [Function.iterate_succ_apply, ih]
    rfl

theorem Working.planned_ne_nil {stream : U3vStream} (h : stream.fill.Working)
    (hflight : 0 < stream.inFlight) : stream.fill.planned ≠ [] := by
  intro hnil
  have hle := stream.fill_queue_length
  rw [← h.aligned.sizes, hnil, List.map_nil, List.length_nil] at hle
  omega

theorem waitNext_none {stream : U3vStream} {answer : Option Completion}
    (h : stream.waitNext answer = none) : stream.queue = [] ∨ answer = none := by
  cases hqueue : stream.queue with
  | nil => exact .inl rfl
  | cons submitted queue =>
    cases answer with
    | none => exact .inr rfl
    | some completion =>
      simp only [waitNext, hqueue] at h
      cases h

section Completion

variable {stream : U3vStream} (h : stream.Working)

include h

theorem Working.taken {answer : Option Completion} {submitted : Nat} {completion : Completion}
    {later : U3vStream}
    (hwait : stream.waitNext answer = some (submitted, completion, later)) :
    later.plannedSize completion = submitted ∧
      ({ later with planned := later.planned.tail } : U3vStream).Working := by
  obtain ⟨queue, hqueue, -, rfl⟩ := waitNext_some hwait
  have hsizes := h.aligned.sizes
  rw [hqueue] at hsizes
  cases hplanned : stream.planned with
  | nil =>
    rw [hplanned] at hsizes
    cases hsizes
  | cons plan rest =>
    rw [hplanned, List.map_cons, List.cons.injEq] at hsizes
    obtain ⟨hsize, hrest⟩ := hsizes
    refine ⟨hsize, ⟨⟨hrest, ?_, h.aligned.absorbed⟩, ?_⟩⟩
    · intro other hother
      exact h.aligned.planned_size other (hplanned ▸ List.mem_cons_of_mem _ hother)
    · intro last hlast
      refine h.next_eq last ?_
      have hlast : rest.getLast? = some last := hlast
      rw [hplanned, List.getLast?_cons, hlast]
      rfl

theorem Working.absorb (data : List UInt8) (size : Nat) (now : Instant) :
    (stream.count.absorb data size size now).Working := by
  obtain ⟨block, ready, counters, failures, fate, heq⟩ := stream.count.absorb_eq data size size now
  rw [heq]
  refine ⟨⟨h.aligned.sizes, h.aligned.planned_size, ?_⟩, h.next_eq⟩
  intro other submitted requested otherFate hmem
  rcases List.mem_append.mp hmem with hold | hnew
  · exact h.aligned.absorbed other submitted requested otherFate hold
  · simp only [List.mem_singleton, Event.absorbed.injEq] at hnew
    obtain ⟨-, rfl, rfl, -⟩ := hnew
    rfl

end Completion

theorem emptyQueue_drained (queue : List Nat) (drain : Nat → Option Completion)
    (hdrain : ∀ wait, (drain wait).isSome = true) (h : (emptyQueue queue drain).gone = false) :
    (emptyQueue queue drain).queue = [] := by
  induction queue generalizing drain with
  | nil => rfl
  | cons submitted queue ih =>
    obtain ⟨completion, hcompletion⟩ := Option.isSome_iff_exists.mp (hdrain 0)
    have hrest := ih (fun wait => drain (wait + 1)) fun wait => hdrain (wait + 1)
    simp only [emptyQueue, hcompletion] at h ⊢
    split at h
    · cases h
    · exact hrest h

theorem Aligned.recover {stream later : U3vStream} {error : U3vError}
    {drain : Nat → Option Completion} {aftermath : Aftermath} (h : stream.Aligned)
    (hdrain : ∀ wait, (drain wait).isSome = true)
    (hrecover : stream.recover error drain aftermath = (.ok (), later)) :
    later.Paired ∧ later.planned = [] ∧ later.inFlight = stream.inFlight := by
  unfold U3vStream.recover at hrecover
  dsimp only at hrecover
  split at hrecover
  · cases hrecover
  · split at hrecover
    · cases hrecover
    · split at hrecover
      · cases hrecover
      · rename_i hgone
        split at hrecover
        · cases hrecover
        · simp only [Prod.mk.injEq, true_and] at hrecover
          subst hrecover
          obtain ⟨ready, counters, heq⟩ := abandon_eq
            { stream with
              counters :=
                { stream.counters with transferErrors := stream.counters.transferErrors + 1 }
              failures := stream.failures + 1 }
          have hqueue := emptyQueue_drained _ _ hdrain (Bool.eq_false_of_not_eq_true hgone)
          simp only [note, heq] at hqueue ⊢
          refine ⟨⟨⟨hqueue.symm, nofun, ?_⟩, rfl⟩, trivial, trivial⟩
          intro data submitted requested fate hmem
          rcases List.mem_append.mp hmem with hold | hnew
          · exact h.absorbed data submitted requested fate hold
          · simp at hnew

theorem Working.complete {stream later : U3vStream} (h : stream.Working) (completion : Completion)
    (size : Nat) (cancelling : Bool) (drain : Nat → Option Completion) (aftermath : Aftermath)
    (hdrain : ∀ wait, (drain wait).isSome = true)
    (hcomplete : stream.complete completion size size cancelling drain aftermath =
      (.ok (), later)) :
    later.inFlight = stream.inFlight ∧
      (later.Working ∧ later.queue = stream.queue ∧
          (cancelling = true → completion.failed = false) ∨
        later.Paired ∧ later.planned = [] ∧
          (cancelling = true → completion.failed = true)) := by
  change later.inFlight = (stream.arrive completion).inFlight ∧
    (later.Working ∧ later.queue = (stream.arrive completion).queue ∧ _ ∨ _)
  replace h : (stream.arrive completion).Working :=
    ⟨⟨h.aligned.sizes, h.aligned.planned_size, h.aligned.absorbed⟩, h.next_eq⟩
  unfold U3vStream.complete at hcomplete
  dsimp only at hcomplete
  generalize stream.arrive completion = stream at *
  have hkept : (stream.count.absorb completion.data size size completion.now).Working ∧
      (stream.count.absorb completion.data size size completion.now).queue = stream.queue ∧
      (stream.count.absorb completion.data size size completion.now).inFlight =
        stream.inFlight := by
    obtain ⟨_, _, _, _, _, heq⟩ :=
      stream.count.absorb_eq completion.data size size completion.now
    refine ⟨h.absorb completion.data size completion.now, ?_, ?_⟩ <;> rw [heq] <;> rfl
  have hcount : stream.count.Aligned :=
    ⟨h.aligned.sizes, h.aligned.planned_size, h.aligned.absorbed⟩
  split at hcomplete
  · rename_i hstatus
    have hfailed : completion.failed = false := by simp only [Completion.failed, hstatus]
    simp only [Prod.mk.injEq, true_and] at hcomplete
    subst hcomplete
    exact ⟨hkept.2.2, .inl ⟨hkept.1, hkept.2.1, fun _ => hfailed⟩⟩
  · rename_i hstatus
    have hfailed : completion.failed = false := by simp only [Completion.failed, hstatus]
    split at hcomplete
    · split at hcomplete
      all_goals
        simp only [Prod.mk.injEq, true_and] at hcomplete
        subst hcomplete
      · exact ⟨rfl, .inl ⟨h, rfl, fun _ => hfailed⟩⟩
      · exact ⟨hkept.2.2, .inl ⟨hkept.1, hkept.2.1, fun _ => hfailed⟩⟩
    · rename_i hnot
      obtain ⟨hpaired, hnil, hflight⟩ := hkept.1.aligned.recover hdrain hcomplete
      exact ⟨hflight.trans hkept.2.2, .inr ⟨hpaired, hnil, fun htrue => absurd htrue hnot⟩⟩
  · cases hcomplete
  · rename_i error hcancelled hdisconnected hstatus
    obtain ⟨hpaired, hnil, hflight⟩ := hcount.recover hdrain hcomplete
    refine ⟨hflight, .inr ⟨hpaired, hnil, fun _ => ?_⟩⟩
    unfold Completion.failed
    split
    · rename_i hok
      rw [hstatus] at hok
      cases hok
    · rename_i hcancel
      rw [hstatus, Except.error.injEq] at hcancel
      exact absurd hcancel hcancelled
    · rfl

theorem Working.replanLoop {aftermath : Aftermath} (fuel : Nat) :
    ∀ {stream later : U3vStream} {drain : Nat → Option Completion} {recovered : Bool},
      stream.Working → stream.queue.length ≤ fuel → (∀ wait, (drain wait).isSome = true) →
      U3vStream.replanLoop aftermath fuel drain stream = (.ok recovered, later) →
      later.inFlight = stream.inFlight ∧
        if recovered then later.Paired else later.Working ∧ later.queue = [] := by
  induction fuel with
  | zero =>
    intro stream later drain recovered h hfuel _ hloop
    simp only [U3vStream.replanLoop, Prod.mk.injEq, Except.ok.injEq] at hloop
    obtain ⟨rfl, rfl⟩ := hloop
    exact ⟨rfl, h, List.length_eq_zero_iff.mp (Nat.le_zero.mp hfuel)⟩
  | succ fuel ih =>
    intro stream later drain recovered h hfuel hdrain hloop
    have hrest : ∀ wait, (drain (wait + 1)).isSome = true := fun wait => hdrain (wait + 1)
    unfold U3vStream.replanLoop at hloop
    split at hloop
    · rename_i hwait
      simp only [Prod.mk.injEq, Except.ok.injEq] at hloop
      obtain ⟨rfl, rfl⟩ := hloop
      rcases waitNext_none hwait with hempty | hnone
      · exact ⟨rfl, h, hempty⟩
      · have := hdrain 0
        rw [hnone] at this
        cases this
    · rename_i submitted completion taken hwait
      obtain ⟨hsize, htaken⟩ := h.taken hwait
      obtain ⟨queue, hqueue, -, rfl⟩ := waitNext_some hwait
      dsimp only at hloop hsize
      rw [hsize] at hloop
      split at hloop
      · cases hloop
      · rename_i completed hcomplete
        obtain ⟨hflight, hcase⟩ := htaken.complete completion submitted true _ aftermath hrest hcomplete
        rcases hcase with ⟨hworking, hsame, hnot⟩ | ⟨hpaired, -, hfailed⟩
        · rw [if_neg (by rw [hnot rfl]; exact Bool.false_ne_true)] at hloop
          obtain ⟨hlater, hcase⟩ := ih hworking (by
            rw [hsame]
            rw [hqueue, List.length_cons] at hfuel
            exact Nat.le_of_succ_le_succ hfuel) hrest hloop
          exact ⟨hlater.trans hflight, hcase⟩
        · rw [if_pos (hfailed rfl)] at hloop
          simp only [Prod.mk.injEq, Except.ok.injEq] at hloop
          obtain ⟨rfl, rfl⟩ := hloop
          exact ⟨hflight, hpaired⟩

theorem Working.settle {stream later : U3vStream} (h : stream.Working)
    (drain : Nat → Option Completion) (aftermath : Aftermath)
    (hdrain : ∀ wait, (drain wait).isSome = true)
    (hsettle : stream.settle drain aftermath = (.ok (), later)) :
    later.Paired ∧ later.inFlight = stream.inFlight := by
  unfold U3vStream.settle at hsettle
  split at hsettle
  · rename_i hnil
    simp only [Prod.mk.injEq, true_and] at hsettle
    subst hsettle
    have hqueue : stream.queue = [] := by rw [← h.aligned.sizes, hnil, List.map_nil]
    have := h.aligned.cleared stream.cursor rfl
    rw [← hqueue, ← hnil] at this
    exact ⟨this, rfl⟩
  · rename_i hplanned
    split at hsettle
    · unfold replan at hsettle
      split at hsettle
      · cases hsettle
      · rename_i planned hloop
        simp only [Prod.mk.injEq, true_and] at hsettle
        subst hsettle
        obtain ⟨hflight, hpaired⟩ := h.replanLoop _ le_rfl hdrain hloop
        exact ⟨hpaired, hflight⟩
      · rename_i planned hloop
        simp only [Prod.mk.injEq, true_and] at hsettle
        subst hsettle
        obtain ⟨hflight, hworking, hqueue⟩ := h.replanLoop _ le_rfl hdrain hloop
        have := hworking.aligned.cleared planned.cursor rfl
        rw [← hqueue] at this
        exact ⟨this, hflight⟩
    · simp only [Prod.mk.injEq, true_and] at hsettle
      subst hsettle
      exact ⟨h.paired (by rw [hplanned]; exact List.cons_ne_nil _ _), rfl⟩

theorem Paired.turn {stream later : U3vStream} {turn : Turn} {step : Step} (h : stream.Paired)
    (hflight : 0 < stream.inFlight) (hdrain : turn.Drains)
    (hturn : stream.turn turn = (step, later)) (hstep : ∀ error, step ≠ .failed error) :
    later.Paired ∧ later.inFlight = stream.inFlight := by
  have hfilled := h.working.fill
  have hplanned := hfilled.planned_ne_nil hflight
  have hkept := stream.fill_inFlight
  unfold U3vStream.turn at hturn
  dsimp only at hturn
  split at hturn
  · split at hturn
    all_goals
      simp only [Prod.mk.injEq] at hturn
      obtain ⟨-, rfl⟩ := hturn
    · obtain ⟨ready, counters, heq⟩ := stream.fill.abandon_eq
      simp only [note, heq]
      refine ⟨Working.paired ⟨⟨hfilled.aligned.sizes, hfilled.aligned.planned_size, ?_⟩,
        hfilled.next_eq⟩ hplanned, hkept⟩
      intro data submitted requested fate hmem
      rcases List.mem_append.mp hmem with hold | hnew
      · exact hfilled.aligned.absorbed data submitted requested fate hold
      · simp at hnew
    · exact ⟨hfilled.paired hplanned, hkept⟩
  · rename_i submitted completion taken hwait
    obtain ⟨hsize, htaken⟩ := hfilled.taken hwait
    obtain ⟨queue, -, -, rfl⟩ := waitNext_some hwait
    rw [hsize] at hturn
    split at hturn
    · simp only [Prod.mk.injEq] at hturn
      exact absurd hturn.1.symm (hstep _)
    · rename_i completed hcomplete
      obtain ⟨hsame, hcase⟩ :=
        htaken.complete completion submitted false _ turn.aftermath hdrain hcomplete
      have hworking : completed.Working := by
        rcases hcase with ⟨hworking, -⟩ | ⟨hpaired, -⟩
        · exact hworking
        · exact hpaired.working
      split at hturn
      · simp only [Prod.mk.injEq] at hturn
        exact absurd hturn.1.symm (hstep _)
      · rename_i settled hsettle
        simp only [Prod.mk.injEq] at hturn
        obtain ⟨-, rfl⟩ := hturn
        obtain ⟨hpaired, hlater⟩ := hworking.settle _ _ hdrain hsettle
        exact ⟨hpaired, (hlater.trans hsame).trans hkept⟩

theorem Paired.nextFrameWithin {turns : List Turn} :
    ∀ {stream later : U3vStream} {result : Option RawFrame}, stream.Paired →
      0 < stream.inFlight → (∀ turn ∈ turns, turn.Drains) →
      stream.nextFrameWithin turns = (.returned (.ok result), later) →
      later.Paired ∧ later.inFlight = stream.inFlight := by
  induction turns with
  | nil =>
    intro stream later result h _ _ hcall
    unfold U3vStream.nextFrameWithin at hcall
    split at hcall
    · simp only [Prod.mk.injEq] at hcall
      rw [← hcall.2]
      exact ⟨⟨⟨h.aligned.sizes, h.aligned.planned_size, h.aligned.absorbed⟩, h.next_eq⟩, rfl⟩
    · cases hcall
    · cases ‹[] = _›
  | cons first rest ih =>
    intro stream later result h hflight hdrains hcall
    unfold U3vStream.nextFrameWithin at hcall
    split at hcall
    · simp only [Prod.mk.injEq] at hcall
      rw [← hcall.2]
      exact ⟨⟨⟨h.aligned.sizes, h.aligned.planned_size, h.aligned.absorbed⟩, h.next_eq⟩, rfl⟩
    · cases ‹_ :: _ = []›
    · rename_i heq
      obtain ⟨rfl, rfl⟩ := heq
      have hfirst := hdrains first List.mem_cons_self
      split at hcall
      · rename_i hturn
        simp only [Prod.mk.injEq] at hcall
        rw [← hcall.2]
        exact h.turn hflight hfirst hturn nofun
      · cases hcall
      · rename_i hturn
        obtain ⟨hpaired, hsame⟩ := h.turn hflight hfirst hturn nofun
        obtain ⟨hlater, hkept⟩ := ih hpaired (hsame ▸ hflight)
          (fun turn hmem => hdrains turn (List.mem_cons_of_mem _ hmem)) hcall
        exact ⟨hlater, hkept.trans hsame⟩

/-- The stream after calls that all returned `Ok`; an error ends it. -/
def after (stream : U3vStream) : List Call → Option U3vStream
  | [] => some stream
  | first :: rest =>
    match stream.call first with
    | (.returned (.ok _), stream) => after stream rest
    | _ => none

end U3vStream

def Call.Drains : Call → Prop
  | .nextFrameWithin turns => ∀ turn ∈ turns, turn.Drains
  | _ => True

theorem U3vStream.Paired.call {stream later : U3vStream} {call : Call} {result : Option RawFrame}
    (h : stream.Paired) (hflight : 0 < stream.inFlight) (hdrains : call.Drains)
    (hcall : stream.call call = (.returned (.ok result), later)) :
    later.Paired ∧ 0 < later.inFlight := by
  cases call with
  | nextFrameWithin turns =>
    obtain ⟨hpaired, hkept⟩ := h.nextFrameWithin hflight hdrains hcall
    exact ⟨hpaired, hkept ▸ hflight⟩
  | setTimeout timeout =>
    simp only [U3vStream.call, Prod.mk.injEq] at hcall
    rw [← hcall.2]
    exact ⟨⟨⟨h.aligned.sizes, h.aligned.planned_size, h.aligned.absorbed⟩, h.next_eq⟩, hflight⟩
  | setTransfersInFlight transfers =>
    simp only [U3vStream.call, Prod.mk.injEq] at hcall
    rw [← hcall.2]
    exact ⟨⟨⟨h.aligned.sizes, h.aligned.planned_size, h.aligned.absorbed⟩, h.next_eq⟩,
      lt_of_lt_of_le Nat.zero_lt_one (le_max_right _ _)⟩

/-- Whatever the endpoint does, as long as every cancelled queue is drained to its
end, each queued transfer has its plan and is taken in with its own size. -/
theorem transfers_paired (layout : StreamLayout) (calls : List Call)
    (hdrains : ∀ call ∈ calls, call.Drains) {stream : U3vStream}
    (hafter : U3vStream.after { layout } calls = some stream) : stream.Paired := by
  suffices hrun : ∀ start : U3vStream, start.Paired → 0 < start.inFlight →
      start.after calls = some stream → stream.Paired from
    hrun { layout } ⟨⟨rfl, nofun, nofun⟩, rfl⟩ (Nat.succ_pos 7) hafter
  clear hafter
  induction calls with
  | nil =>
    intro start h _ hafter
    exact Option.some.inj hafter ▸ h
  | cons first rest ih =>
    intro start h hflight hafter
    unfold U3vStream.after at hafter
    split at hafter
    · rename_i hcall
      obtain ⟨hpaired, hlater⟩ := h.call hflight (hdrains first List.mem_cons_self) hcall
      exact ih (fun call hmem => hdrains call (List.mem_cons_of_mem _ hmem)) _ hpaired hlater hafter
    · cases hafter

def fourByteLayout : StreamLayout :=
  { leaderSize := 52, trailerSize := 32, payloadTransferSize := 4, payloadTransferCount := 1
    finalTransfer1Size := 0, finalTransfer2Size := 0 }

/-- A stall, with the rest of the queue coming back as `drain` says. -/
def stallTurn (drain : Nat → Option Completion) : Turn where
  completion := some { data := [], status := .error (.stalled 130), now := 0 }
  now := 0
  drain
  aftermath := { listed := some true, looks := [], reset := .ok () }

def quietTurn : Turn where
  completion := none
  now := 0
  drain := fun _ => some { data := [], status := .error .cancelled, now := 0 }
  aftermath := { listed := some true, looks := [], reset := .ok () }

/-- A stalled transfer whose queue is drained leaves the next transfers paired. -/
theorem transfers_paired_after_stall :
    ∃ stream, U3vStream.after { layout := fourByteLayout }
        [.nextFrameWithin [stallTurn quietTurn.drain, quietTurn]] = some stream ∧
      stream.planned.length = 8 ∧ stream.Paired := by
  refine ⟨_, rfl, rfl, transfers_paired fourByteLayout
    [.nextFrameWithin [stallTurn quietTurn.drain, quietTurn]] ?_ rfl⟩
  intro call hcall
  rw [List.mem_singleton.mp hcall]
  intro turn hturn wait
  rcases List.mem_pair.mp hturn with rfl | rfl <;> rfl

/-- The drain after a stall runs out of time: the transfers still queued are
forgotten, and the call that returns next has planned one of the eight. -/
theorem drain_timeout_unpaired :
    ∃ stream, U3vStream.after { layout := fourByteLayout }
        [.nextFrameWithin [stallTurn fun _ => none, quietTurn]] = some stream ∧
      stream.queue.length = 8 ∧ stream.planned.length = 1 ∧ ¬stream.Paired := by
  refine ⟨_, rfl, rfl, rfl, fun hpaired => ?_⟩
  exact absurd (congrArg List.length hpaired.aligned.sizes) (by decide)

end VivaGenicam.U3v
