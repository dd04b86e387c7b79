import VivaGenicam.Camera.PacketSize

/-!
Probing a path. Which test packets arrive is fixed; the device stores every size it
is asked for and may fail any request for a test packet. The probe ends at a boundary
of the path, but a request that fails leaves behind the size that was tested last.
-/

namespace VivaGenicam.Camera

open Gvcp Library.Bisection

/-- What becomes of a request for a test packet. One that fails may have been carried
out, and only its acknowledgement lost. -/
inductive Fate where
  | served
  | failed (error : GigeError) (carriedOut : Bool)
deriving DecidableEq, Repr

/-- What a request comes to: `carried` where it was carried out, `refused` where not. -/
def Fate.outcome {σ : Type} (carried refused : σ) : Fate → Except GigeError Unit × σ
  | .served => (.ok (), carried)
  | .failed error true => (.error error, carried)
  | .failed error false => (.error error, refused)

/-- A device and the path to it. -/
structure TestPath where
  channel : Nat
  /-- What a register holds once a word is written to it. -/
  stored : BitVec 32 → BitVec 32
  /-- What becomes of each request for a test packet, by how many came before it. -/
  answers : Nat → Fate
  /-- Whether a test packet of a size arrives. -/
  arrives : Nat → Bool
  heldSize_stored : ∀ word, heldSize (stored word) = heldSize word

structure TestState where
  words : Nat → BitVec 32
  requests : Nat
  queued : List Nat

variable {size : Nat} {state : TestState}

namespace TestPath

variable (path : TestPath)

def register : Nat := streamReg path.channel Consts.streamPacketSize

def write (addr : Nat) (word : BitVec 32) (state : TestState) : TestState :=
  { state with words := Function.update state.words addr (path.stored word) }

def emit (size : Nat) (state : TestState) : TestState :=
  { state with
    requests := state.requests + 1
    queued := state.queued ++ if path.arrives size then [size] else [] }

/-- Writing the packet size with bit 31 set asks for a test packet. -/
def fires (addr : Nat) (word : BitVec 32) : Bool :=
  addr == path.register && word &&& Consts.scpsFireTestPacket != 0

def link : StreamLink TestState where
  readU32 addr state := (.ok (state.words addr), state)
  writeU32 addr word state :=
    if path.fires addr word then
      (path.answers state.requests).outcome
        (path.emit (heldSize word) (path.write addr word state))
        { state with requests := state.requests + 1 }
    else (.ok (), path.write addr word state)
  drain state := { state with queued := [] }
  recv _ state := (!state.queued.isEmpty, { state with queued := state.queued.tail })

def held (state : TestState) : Nat := heldSize (state.words path.register)

/-- What becomes of a request for a test packet of `size`. One that does not fit the
register is not sent. -/
def fate (index size : Nat) : Fate :=
  if Consts.streamPacketSizeMask.toNat < size then .failed (.packetSize size) false
  else path.answers index

/-- Every request of the run is served, the first of them after `index` others. -/
def Served : Nat → List Nat → Prop
  | _, [] => True
  | index, size :: sizes => path.fate index size = .served ∧ Served (index + 1) sizes

theorem held_write (word : BitVec 32) (state : TestState) :
    path.held (path.write path.register word state) = heldSize word := by
  have hword : (path.write path.register word state).words path.register = path.stored word :=
    Function.update_self ..
  rw [held, hword, path.heldSize_stored]

theorem fires_testPacket (size : Nat) :
    path.fires path.register
      (BitVec.ofNat 32 size ||| Consts.scpsFireTestPacket ||| Consts.scpsDoNotFragment) = true := by
  have hbit : (BitVec.ofNat 32 size ||| Consts.scpsFireTestPacket ||| Consts.scpsDoNotFragment) &&&
      Consts.scpsFireTestPacket = Consts.scpsFireTestPacket := by
    rw [BitVec.and_or_distrib_right, BitVec.and_or_distrib_right]
    ext index hindex
    simp [Consts.scpsFireTestPacket, Consts.scpsDoNotFragment]
  rw [fires, hbit]
  simp [Consts.scpsFireTestPacket]

theorem fate_eq_served {index : Nat} (h : path.fate index size = .served) :
    size ≤ Consts.streamPacketSizeMask.toNat ∧ path.answers index = .served := by
  unfold fate at h
  split at h
  · cases h
  · exact ⟨by omega, h⟩

theorem requestTestPacket_sent (hsize : size ≤ Consts.streamPacketSizeMask.toNat)
    (state : TestState) :
    ∃ written, path.held written = size ∧ written.requests = state.requests + 1 ∧
      written.queued = state.queued ++ (if path.arrives size then [size] else []) ∧
      path.link.requestTestPacket path.channel size state =
        (path.answers state.requests).outcome written
          { state with requests := state.requests + 1 } := by
  set word := BitVec.ofNat 32 size ||| Consts.scpsFireTestPacket ||| Consts.scpsDoNotFragment
    with hword
  have hheld : heldSize word = size := heldSize_testPacket hsize
  refine ⟨path.emit (heldSize word) (path.write path.register word state), ?_, rfl, ?_, ?_⟩
  · rw [← hheld]
    exact path.held_write word state
  · rw [hheld]
    rfl
  · rw [RegisterAccess.requestTestPacket, if_neg (by omega), ← hword]
    exact if_pos (path.fires_testPacket size)

theorem testPacketArrives_served (h : path.fate state.requests size = .served) :
    ∃ after, path.link.testPacketArrives path.channel size state = (.ok (path.arrives size), after) ∧
      path.held after = size ∧ after.requests = state.requests + 1 := by
  obtain ⟨hsize, hserved⟩ := path.fate_eq_served h
  obtain ⟨written, hheld, hrequests, hqueued, hsent⟩ :=
    path.requestTestPacket_sent hsize (path.link.drain state)
  rw [show (path.link.drain state).requests = state.requests from rfl] at hrequests hsent
  rw [hserved] at hsent
  refine ⟨(path.link.recv (size + 64) written).2, ?_, hheld, hrequests⟩
  have harrived : (path.link.recv (size + 64) written).1 = path.arrives size := by
    change (!written.queued.isEmpty) = _
    rw [hqueued]
    cases path.arrives size with
    | true => rfl
    | false => rfl
  simp only [StreamLink.testPacketArrives, hsent, Fate.outcome, harrived]

theorem testPacketArrives_failed {error : GigeError}
    {carriedOut : Bool} (h : path.fate state.requests size = .failed error carriedOut) :
    ∃ after, path.link.testPacketArrives path.channel size state =
        (.error (.gige "request a test packet" error), after) ∧
      path.held after = (if carriedOut then size else path.held state) ∧
      after.requests ≤ state.requests + 1 := by
  rcases Nat.lt_or_ge Consts.streamPacketSizeMask.toNat size with hwide | hsize
  · rw [fate, if_pos hwide] at h
    cases h
    refine ⟨path.link.drain state, ?_, rfl, Nat.le_succ _⟩
    rw [StreamLink.testPacketArrives, RegisterAccess.requestTestPacket, if_pos hwide]
  · rw [fate, if_neg (by omega)] at h
    obtain ⟨written, hheld, hrequests, -, hsent⟩ :=
      path.requestTestPacket_sent hsize (path.link.drain state)
    rw [show (path.link.drain state).requests = state.requests from rfl] at hrequests hsent
    rw [h] at hsent
    cases carriedOut with
    | true =>
      refine ⟨written, ?_, hheld, hrequests.le⟩
      simp only [StreamLink.testPacketArrives, hsent, Fate.outcome]
    | false =>
      refine ⟨{ path.link.drain state with requests := state.requests + 1 }, ?_, rfl, le_rfl⟩
      simp only [StreamLink.testPacketArrives, hsent, Fate.outcome]

/-- Test sizes in turn, up to the first request that fails. -/
def test : List Nat → TestState → Except GenicamError Unit × TestState
  | [], state => (.ok (), state)
  | size :: sizes, state =>
    match path.link.testPacketArrives path.channel size state with
    | (.error error, state) => (.error error, state)
    | (.ok _, state) => test sizes state

theorem test_served {sizes : List Nat} {state : TestState}
    (h : path.Served state.requests sizes) :
    ∃ after, path.test sizes state = (.ok (), after) ∧
      path.held after = sizes.getLastD (path.held state) ∧
      after.requests = state.requests + sizes.length := by
  induction sizes generalizing state with
  | nil => exact ⟨state, rfl, rfl, rfl⟩
  | cons size sizes ih =>
    obtain ⟨next, hnext, hheld, hrequests⟩ := path.testPacketArrives_served h.1
    obtain ⟨after, hafter, hlast, htotal⟩ := @ih next (hrequests ▸ h.2)
    refine ⟨after, ?_, ?_, ?_⟩
    · simp only [test, hnext, hafter]
    · rw [hlast, hheld, List.getLastD_cons]
    · rw [htotal, hrequests, List.length_cons]
      omega

/-- A test that fails leaves its own size behind, where the request was carried out all
the same, or the one before it. -/
theorem test_failed {done rest : List Nat} {size : Nat} {state : TestState} {error : GigeError}
    {carriedOut : Bool} (hdone : path.Served state.requests done)
    (h : path.fate (state.requests + done.length) size = .failed error carriedOut) :
    ∃ after, path.test (done ++ size :: rest) state =
        (.error (.gige "request a test packet" error), after) ∧
      path.held after = (if carriedOut then size else done.getLastD (path.held state)) ∧
      after.requests ≤ state.requests + done.length + 1 := by
  induction done generalizing state with
  | nil =>
    obtain ⟨after, hafter, hheld, hrequests⟩ := path.testPacketArrives_failed h
    exact ⟨after, by simp only [List.nil_append, test, hafter], hheld, hrequests⟩
  | cons first done ih =>
    obtain ⟨next, hnext, hheld, hrequests⟩ := path.testPacketArrives_served hdone.1
    have hindex : next.requests + done.length = state.requests + (first :: done).length := by
      rw [hrequests, List.length_cons]
      omega
    obtain ⟨after, hafter, hlast, htotal⟩ := @ih next (hrequests ▸ hdone.2) (hindex ▸ h)
    refine ⟨after, ?_, ?_, hindex ▸ htotal⟩
    · simp only [List.cons_append, test, hnext, hafter]
    · rw [hlast, hheld, List.getLastD_cons]

theorem served_or_failed (index : Nat) (sizes : List Nat) :
    path.Served index sizes ∨ ∃ done size rest error carriedOut, sizes = done ++ size :: rest ∧
      path.Served index done ∧
      path.fate (index + done.length) size = .failed error carriedOut := by
  induction sizes generalizing index with
  | nil => exact .inl trivial
  | cons size sizes ih =>
    rcases hfate : path.fate index size with _ | ⟨error, carriedOut⟩
    · rcases ih (index + 1) with hserved | ⟨done, failing, rest, error, carriedOut, rfl, hdone, h⟩
      · exact .inl ⟨hfate, hserved⟩
      · refine .inr ⟨size :: done, failing, rest, error, carriedOut, rfl, ⟨hfate, hdone⟩, ?_⟩
        rw [List.length_cons, ← h]
        congr 1
        omega
    · exact .inr ⟨[], size, sizes, error, carriedOut, rfl, trivial, hfate⟩

/-- The outcome of tests, with the size they lead to. -/
def conclude (size : Nat) (tests : Except GenicamError Unit × TestState) :
    Except GenicamError Nat × TestState :=
  (tests.1.map fun _ => size, tests.2)

/-- The sizes the probe tests, where no request fails. -/
def plan (requested : Nat) : List Nat :=
  probeFloor ::
    if path.arrives probeFloor then
      requested :: if path.arrives requested then [] else asked path.arrives probeFloor requested
    else []

/-- What the probe finds, where no request fails. -/
def ceiling (requested : Nat) : Nat :=
  if path.arrives probeFloor = true ∧ path.arrives requested = false then
    boundary path.arrives probeFloor requested
  else requested

theorem conclude_test_cons {goal size : Nat} {sizes : List Nat} {state : TestState}
    {next : TestState → Except GenicamError Nat × TestState}
    (h : ∀ after, next after = conclude goal (path.test sizes after)) :
    (∃ error after, path.link.testPacketArrives path.channel size state = (.error error, after) ∧
      conclude goal (path.test (size :: sizes) state) = (.error error, after)) ∨
    ∃ after, path.link.testPacketArrives path.channel size state =
        (.ok (path.arrives size), after) ∧
      conclude goal (path.test (size :: sizes) state) = next after := by
  rcases hfate : path.fate state.requests size with _ | ⟨error, carriedOut⟩
  · obtain ⟨after, hafter, -, -⟩ := path.testPacketArrives_served hfate
    exact .inr ⟨after, hafter, by simp only [test, hafter, h]⟩
  · obtain ⟨after, hafter, -, -⟩ := path.testPacketArrives_failed hfate
    exact .inl ⟨_, after, hafter, by simp only [test, hafter, conclude, Except.map]⟩

theorem bisect_eq (lo hi : Nat) (state : TestState) :
    path.link.bisect path.channel lo hi state =
      conclude (boundary path.arrives lo hi) (path.test (asked path.arrives lo hi) state) := by
  fun_induction asked path.arrives lo hi generalizing state with
  | case1 lo hi hwide hmid ih =>
    rw [StreamLink.bisect, if_pos hwide, boundary, if_pos hwide, if_pos hmid]
    rcases @conclude_test_cons path _ (middle lo hi) _ state _ (fun after => ih after)
      with ⟨error, after, hafter, heq⟩ | ⟨after, hafter, heq⟩
    · rw [heq]
      simp only [middle] at hafter
      simp only [hafter]
    · rw [heq]
      simp only [middle] at hafter hmid
      simp only [hafter, hmid, if_true, middle]
  | case2 lo hi hwide hmid ih =>
    rw [StreamLink.bisect, if_pos hwide, boundary, if_pos hwide, if_neg hmid]
    rcases @conclude_test_cons path _ (middle lo hi) _ state _ (fun after => ih after)
      with ⟨error, after, hafter, heq⟩ | ⟨after, hafter, heq⟩
    · rw [heq]
      simp only [middle] at hafter
      simp only [hafter]
    · rw [heq]
      simp only [middle] at hafter hmid
      simp only [hafter, hmid, Bool.false_eq_true, if_false, middle]
  | case3 lo hi hwide =>
    rw [StreamLink.bisect, if_neg hwide, boundary, if_neg hwide]
    rfl

theorem probeAnswered_eq (requested : Nat) (state : TestState) :
    path.link.probeAnswered path.channel requested state =
      conclude (if path.arrives requested then requested
          else boundary path.arrives probeFloor requested)
        (path.test (requested :: if path.arrives requested then []
          else asked path.arrives probeFloor requested) state) := by
  unfold StreamLink.probeAnswered
  cases harrives : path.arrives requested with
  | true =>
    rcases @conclude_test_cons path requested requested _ state _
      (fun after => (rfl : _ = conclude requested (path.test [] after)))
      with ⟨error, after, hafter, heq⟩ | ⟨after, hafter, heq⟩
    · simp only [hafter, if_true, heq]
    · simp only [hafter, harrives, if_true, heq]
      rfl
  | false =>
    rcases @conclude_test_cons path _ requested _ state _
      (path.bisect_eq probeFloor requested) with ⟨error, after, hafter, heq⟩ | ⟨after, hafter, heq⟩
    · simp only [hafter, Bool.false_eq_true, if_false, heq]
    · simp only [hafter, harrives, Bool.false_eq_true, if_false, heq]

theorem probePathCeiling_eq (requested : Nat) (state : TestState) :
    path.link.probePathCeiling path.channel requested state =
      conclude (path.ceiling requested) (path.test (path.plan requested) state) := by
  unfold StreamLink.probePathCeiling
  cases hfloor : path.arrives probeFloor with
  | false =>
    have hplan : path.plan requested = [probeFloor] := by simp [plan, hfloor]
    have hceiling : path.ceiling requested = requested := by simp [ceiling, hfloor]
    rw [hplan, hceiling]
    rcases @conclude_test_cons path requested probeFloor _ state _
      (fun after => (rfl : _ = conclude requested (path.test [] after)))
      with ⟨error, after, hafter, heq⟩ | ⟨after, hafter, heq⟩
    · simp only [hafter, heq]
    · simp only [hafter, hfloor, heq]
      rfl
  | true =>
    have hplan : path.plan requested = probeFloor :: requested ::
        if path.arrives requested then [] else asked path.arrives probeFloor requested := by
      simp [plan, hfloor]
    have hceiling : path.ceiling requested = if path.arrives requested then requested
        else boundary path.arrives probeFloor requested := by
      cases harrives : path.arrives requested with
      | true => simp [ceiling, harrives]
      | false => simp [ceiling, hfloor, harrives]
    rw [hplan, hceiling]
    rcases @conclude_test_cons path _ probeFloor _ state _
      (path.probeAnswered_eq requested) with ⟨error, after, hafter, heq⟩ | ⟨after, hafter, heq⟩
    · simp only [hafter, heq]
    · simp only [hafter, hfloor, heq]

/-- What a ceiling is: the size asked for, or where only the control size arrives, the
end of the sizes that do. -/
structure IsCeiling (requested size : Nat) : Prop where
  le_requested : size ≤ requested
  eq_requested : ¬(path.arrives probeFloor = true ∧ path.arrives requested = false) →
    size = requested
  boundary : path.arrives probeFloor = true ∧ path.arrives requested = false →
    probeFloor ≤ size ∧ path.arrives size = true ∧ path.arrives (size + 1) = false
  greatest : path.arrives probeFloor = true ∧ path.arrives requested = false →
    (∀ small large, small ≤ large → path.arrives large = true → path.arrives small = true) →
    ∀ other, path.arrives other = true → other ≤ size

variable {requested : Nat}

theorem isCeiling_ceiling (h : probeFloor < requested) :
    path.IsCeiling requested (path.ceiling requested) := by
  unfold ceiling
  split
  · obtain ⟨hle, hlt, hbound⟩ := boundary_spec h ‹_ ∧ _›.1 ‹_ ∧ _›.2
    exact ⟨hlt.le, fun hnot => absurd ‹_ ∧ _› hnot, fun _ => ⟨hle, hbound⟩,
      fun hends hdown _ => le_boundary h hends.1 hends.2 hdown⟩
  · exact ⟨le_rfl, fun _ => rfl, fun hends => absurd hends ‹¬_›, fun hends => absurd hends ‹¬_›⟩

theorem length_plan (requested : Nat) :
    (path.plan requested).length ≤ 2 + Nat.clog 2 (requested - probeFloor) := by
  have hasked := @length_asked path.arrives probeFloor requested
  unfold plan
  split
  · split
    · simp
    · simp only [List.length_cons]
      omega
  · simp only [List.length_cons, List.length_nil]
    omega

theorem writeU32_plain {word : BitVec 32} (h : word &&& Consts.scpsFireTestPacket = 0#32)
    (state : TestState) :
    path.link.writeU32 path.register word state =
      (.ok (), path.write path.register word state) := by
  have hfires : path.fires path.register word = false := by
    rw [fires, h]
    simp
  exact if_neg (by simp [hfires])

theorem getStreamPacketSize_eq (state : TestState) :
    path.link.getStreamPacketSize path.channel state = (.ok (path.held state), state) := rfl

theorem setStreamPacketSize_spec (hsize : size ≤ Consts.streamPacketSizeMask.toNat)
    (state : TestState) :
    ∃ after, path.link.setStreamPacketSize path.channel size state = (.ok (), after) ∧
      path.held after = size := by
  set word := state.words path.register &&&
    ~~~(Consts.streamPacketSizeMask ||| Consts.scpsFireTestPacket) ||| BitVec.ofNat 32 size
    with hword
  have hplain : word &&& Consts.scpsFireTestPacket = 0#32 := by
    have hlow : BitVec.ofNat 32 size &&& Consts.streamPacketSizeMask = BitVec.ofNat 32 size := by
      apply BitVec.eq_of_toNat_eq
      change heldSize (BitVec.ofNat 32 size) = _
      have : Consts.streamPacketSizeMask.toNat = 65535 := by decide
      rw [heldSize_ofNat hsize, BitVec.toNat_ofNat]
      omega
    rw [hword, BitVec.and_or_distrib_right, ← hlow, BitVec.and_assoc, BitVec.and_assoc,
      show ~~~(Consts.streamPacketSizeMask ||| Consts.scpsFireTestPacket) &&&
        Consts.scpsFireTestPacket = 0#32 by decide,
      show Consts.streamPacketSizeMask &&& Consts.scpsFireTestPacket = 0#32 by decide]
    simp
  refine ⟨path.write path.register word state, ?_, ?_⟩
  · rw [RegisterAccess.setStreamPacketSize, if_neg (by omega)]
    exact path.writeU32_plain hplain state
  · rw [held_write, hword, heldSize_configured hsize]

theorem configurePacketSize_spec
    (hsize : size ≤ Consts.streamPacketSizeMask.toNat) (state : TestState) :
    ∃ after, path.link.configurePacketSize path.channel size state = (.ok size, after) ∧
      path.held after = size := by
  unfold StreamLink.configurePacketSize
  rw [getStreamPacketSize_eq]
  dsimp only
  split
  · rename_i hcurrent
    exact ⟨state, rfl, Option.some.inj hcurrent⟩
  · obtain ⟨after, hset, hheld⟩ := path.setStreamPacketSize_spec hsize state
    refine ⟨after, ?_, hheld⟩
    rw [hset]
    dsimp only
    rw [getStreamPacketSize_eq]
    exact if_pos hheld |>.trans (by rw [hheld])

theorem configurePacketSize_wide (h : Consts.streamPacketSizeMask.toNat < size)
    (state : TestState) :
    path.link.configurePacketSize path.channel size state =
      (.error (.gige "write GevSCPSPacketSize" (.packetSize size)), state) := by
  have hheld : path.held state ≠ size := by
    have := heldSize_le (state.words path.register)
    unfold held
    omega
  have hcurrent : ¬(Except.ok (path.held state) : Except GigeError Nat).toOption = some size :=
    fun heq => hheld (Option.some.inj heq)
  unfold StreamLink.configurePacketSize
  rw [getStreamPacketSize_eq]
  dsimp only
  rw [if_neg hcurrent, RegisterAccess.setStreamPacketSize, if_pos h]

theorem held_setStreamDoNotFragment (on : Bool) (state : TestState) :
    path.held (path.link.setStreamDoNotFragment path.channel on state).2 = path.held state := by
  set word := state.words path.register with hword
  have hflagged := heldSize_flagged word on
  set raw := word &&& ~~~Consts.scpsFireTestPacket with hraw
  set flagged := if on then raw ||| Consts.scpsDoNotFragment
    else raw &&& ~~~Consts.scpsDoNotFragment with hflag
  have hplain : flagged &&& Consts.scpsFireTestPacket = 0#32 := by
    rw [hflag, hraw]
    cases on with
    | true =>
      rw [if_pos rfl, BitVec.and_or_distrib_right, BitVec.and_assoc,
        show ~~~Consts.scpsFireTestPacket &&& Consts.scpsFireTestPacket = 0#32 by decide,
        show Consts.scpsDoNotFragment &&& Consts.scpsFireTestPacket = 0#32 by decide]
      simp
    | false =>
      rw [if_neg (by simp), BitVec.and_assoc, BitVec.and_assoc,
        show ~~~Consts.scpsFireTestPacket &&& (~~~Consts.scpsDoNotFragment &&&
          Consts.scpsFireTestPacket) = 0#32 by decide]
      simp
  have hset : path.link.setStreamDoNotFragment path.channel on state =
      if flagged ≠ raw then path.link.writeU32 path.register flagged state
      else (.ok (), state) := rfl
  rw [hset]
  split
  · rw [writeU32_plain path hplain]
    exact (path.held_write flagged state).trans hflagged
  · rfl

/-- A probe whose requests are all answered ends with the size it returns, unless that
does not fit the register. -/
theorem probePacketSize_served (hfloor : probeFloor < requested)
    (h : path.Served state.requests (path.plan requested)) :
    ∃ after, (path.link.probePacketSize path.channel requested state =
        (.ok (path.ceiling requested), after) ∧ path.held after = path.ceiling requested) ∨
      path.link.probePacketSize path.channel requested state =
        (.error (.gige "write GevSCPSPacketSize" (.packetSize (path.ceiling requested))), after) := by
  obtain ⟨tested, htested, -, -⟩ := path.test_served h
  have hprobe : path.link.probePathCeiling path.channel requested state =
      (.ok (path.ceiling requested), tested) := by
    rw [probePathCeiling_eq, htested]
    rfl
  have hread : path.link.streamDoNotFragment path.channel state =
      (.ok (state.words path.register &&& Consts.scpsDoNotFragment != 0), state) := rfl
  rw [StreamLink.probePacketSize, if_neg (by omega), hread]
  simp only [hprobe]
  rcases Nat.lt_or_ge Consts.streamPacketSizeMask.toNat (path.ceiling requested) with hwide | hsize
  · exact ⟨tested, .inr (by simp only [configurePacketSize_wide path hwide])⟩
  · obtain ⟨after, hafter, hheld⟩ := path.configurePacketSize_spec hsize tested
    refine ⟨_, .inl ⟨by simp only [hafter]; rfl, ?_⟩⟩
    rw [held_setStreamDoNotFragment, hheld]

theorem probePacketSize_failed (hfloor : probeFloor < requested)
    {done rest : List Nat} {error : GigeError} {carriedOut : Bool}
    (hplan : path.plan requested = done ++ size :: rest) (hdone : path.Served state.requests done)
    (h : path.fate (state.requests + done.length) size = .failed error carriedOut) :
    ∃ after, path.link.probePacketSize path.channel requested state =
        (.error (.gige "request a test packet" error), after) ∧
      path.held after = if carriedOut then size else done.getLastD (path.held state) := by
  obtain ⟨after, hafter, hheld, -⟩ := @test_failed path _ rest _ _ _ _ hdone h
  have hprobe : path.link.probePathCeiling path.channel requested state =
      (.error (.gige "request a test packet" error), after) := by
    rw [probePathCeiling_eq, hplan, hafter]
    rfl
  have hread : path.link.streamDoNotFragment path.channel state =
      (.ok (state.words path.register &&& Consts.scpsDoNotFragment != 0), state) := rfl
  refine ⟨after, ?_, hheld⟩
  rw [StreamLink.probePacketSize, if_neg (by omega), hread]
  simp only [hprobe]

/-- A test after the first fails and leaves a size that is neither the one the device held
before the probe nor the one asked for. -/
def Strands (requested : Nat) (state : TestState) : Prop :=
  ∃ done last size rest error carriedOut, path.plan requested = done ++ last :: size :: rest ∧
    path.Served state.requests (done ++ [last]) ∧
    path.fate (state.requests + done.length + 1) size = .failed error carriedOut ∧
    let left := if carriedOut then size else last
    left ≠ path.held state ∧ left ≠ requested

/-- The probe ends, at a ceiling if no request fails. -/
structure Ends (requested : Nat) (state : TestState) : Prop where
  requests_le : (path.link.probePathCeiling path.channel requested state).2.requests ≤
    state.requests + 2 + Nat.clog 2 (requested - probeFloor)
  isCeiling : ∀ size, (path.link.probePathCeiling path.channel requested state).1 = .ok size →
    path.IsCeiling requested size

/-- Once a test packet was asked for, the device is left with the size returned, or after
a request that failed, with the size it held before or the one asked for. -/
structure Restores (requested : Nat) (state : TestState) : Prop where
  returned : ∀ size after, path.link.probePacketSize path.channel requested state =
    (.ok size, after) → path.held after = size
  failed : ∀ error after, path.link.probePacketSize path.channel requested state =
    (.error (.gige "request a test packet" error), after) →
    path.held after = path.held state ∨ path.held after = requested

theorem ends_probePathCeiling (hfloor : probeFloor < requested)
    (state : TestState) : path.Ends requested state := by
  have hplan := path.length_plan requested
  rcases path.served_or_failed state.requests (path.plan requested) with
    hserved | ⟨done, size, rest, error, carriedOut, hsplit, hdone, h⟩
  · obtain ⟨after, hafter, -, hrequests⟩ := path.test_served hserved
    constructor
    · rw [probePathCeiling_eq, hafter]
      change after.requests ≤ _
      omega
    · intro size hsize
      rw [probePathCeiling_eq, hafter] at hsize
      cases hsize
      exact path.isCeiling_ceiling hfloor
  · obtain ⟨after, hafter, -, hrequests⟩ := @test_failed path _ rest _ _ _ _ hdone h
    rw [hsplit, List.length_append, List.length_cons] at hplan
    constructor
    · rw [probePathCeiling_eq, hsplit, hafter]
      change after.requests ≤ _
      omega
    · intro size hsize
      rw [probePathCeiling_eq, hsplit, hafter] at hsize
      cases hsize

theorem answers_of_served {index : Nat} {done rest : List Nat} {last : Nat}
    (hplan : path.plan requested = done ++ last :: rest)
    (h : path.Served index (done ++ [last])) : path.answers index = .served := by
  have hfloor : ∀ sizes, path.Served index (probeFloor :: sizes) → path.answers index = .served :=
    fun sizes hserved => (path.fate_eq_served hserved.1).2
  unfold plan at hplan
  cases done with
  | nil =>
    rw [List.nil_append, List.cons.injEq] at hplan
    exact hfloor [] (hplan.1 ▸ h)
  | cons first done =>
    rw [List.cons_append, List.cons.injEq] at hplan
    exact hfloor (done ++ [last]) (hplan.1 ▸ h)

theorem not_restores_of_strands {requested : Nat} {state : TestState}
    (hfloor : probeFloor < requested) (h : path.Strands requested state) :
    path.answers state.requests = .served ∧ ¬path.Restores requested state := by
  obtain ⟨done, last, size, rest, error, carriedOut, hplan, hserved, hfate, hbefore, hrequested⟩ := h
  refine ⟨path.answers_of_served hplan hserved, fun hrestores => ?_⟩
  have hsplit : path.plan requested = (done ++ [last]) ++ size :: rest := by simpa using hplan
  obtain ⟨after, hafter, hheld⟩ := path.probePacketSize_failed hfloor hsplit hserved
    (by simpa [Nat.add_assoc] using hfate)
  rw [List.getLastD_concat] at hheld
  rcases hrestores.failed error after hafter with h | h
  · exact hbefore (hheld.symm.trans h)
  · exact hrequested (hheld.symm.trans h)

theorem restores_of_not_strands
    (hfloor : probeFloor < requested) (hfirst : path.answers state.requests = .served)
    (h : ¬path.Strands requested state) : path.Restores requested state := by
  rcases path.served_or_failed state.requests (path.plan requested) with
    hserved | ⟨done, size, rest, error, carriedOut, hsplit, hdone, hfate⟩
  · obtain ⟨after, ⟨hafter, hheld⟩ | hafter⟩ := path.probePacketSize_served hfloor hserved
    · constructor
      · intro size found hfound
        cases hafter.symm.trans hfound
        exact hheld
      · intro error found hfound
        cases hafter.symm.trans hfound
    · constructor
      · intro size found hfound
        cases hafter.symm.trans hfound
      · intro error found hfound
        exact absurd (hafter.symm.trans hfound) (by simp)
  · obtain ⟨after, hafter, hheld⟩ := path.probePacketSize_failed hfloor hsplit hdone hfate
    constructor
    · intro size found hfound
      cases hafter.symm.trans hfound
    · intro error found hfound
      cases hafter.symm.trans hfound
      rcases List.eq_nil_or_concat' done with rfl | ⟨init, last, rfl⟩
      · -- The control request is the one that failed, against `hfirst`.
        have hsize : size = probeFloor := by
          rw [List.nil_append, plan, List.cons.injEq] at hsplit
          exact hsplit.1.symm
        rw [hsize, fate, if_neg (by decide)] at hfate
        cases hfirst.symm.trans hfate
      · rw [List.getLastD_concat] at hheld
        rw [hheld]
        by_contra hleft
        refine h ⟨init, last, size, rest, error, carriedOut, by simpa using hsplit, hdone,
          by simpa [Nat.add_assoc] using hfate, ?_⟩
        exact not_or.mp hleft

/-- The probe ends at a ceiling, and once it asked for a test packet it leaves no size
behind that was only tested, exactly where no later request fails and strands one. -/
theorem probe_restores_iff (requested : Nat) (state : TestState) :
    ((requested ≤ probeFloor →
        path.link.probePacketSize path.channel requested state = (.ok requested, state)) ∧
      (probeFloor < requested → path.Ends requested state ∧
        (path.answers state.requests = .served → path.Restores requested state))) ↔
      (probeFloor < requested → ¬path.Strands requested state) := by
  constructor
  · rintro ⟨-, hprobes⟩ hfloor hstrands
    obtain ⟨hfirst, hnot⟩ := path.not_restores_of_strands hfloor hstrands
    exact hnot ((hprobes hfloor).2 hfirst)
  · intro hnone
    refine ⟨fun hle => if_pos hle, fun hfloor => ⟨path.ends_probePathCeiling hfloor state, ?_⟩⟩
    intro hfirst
    exact path.restores_of_not_strands hfloor hfirst (hnone hfloor)

/-- A device of size 8000 that answers the control test and no request after it. -/
def silentAfterFirst : TestPath where
  channel := 0
  stored word := word
  answers index := if index = 0 then .served else .failed .timeout false
  arrives size := decide (size ≤ 9198)
  heldSize_stored _ := rfl

theorem probe_leaves_the_control_size :
    ¬∀ (path : TestPath) (requested : Nat) (state : TestState), probeFloor < requested →
      path.answers state.requests = .served → path.Restores requested state := by
  intro h
  refine (@not_restores_of_strands silentAfterFirst 9000 ⟨fun _ => 8000, 0, []⟩
    (by decide) ?_).2 (h _ _ _ (by decide) rfl)
  refine ⟨[], 1500, 9000, [], .timeout, false, ?_, ⟨rfl, trivial⟩, rfl, by decide, by decide⟩
  rfl

end TestPath

end VivaGenicam.Camera
