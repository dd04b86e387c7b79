import VivaGenicam.Camera.EventSetup

/-!
What undoing an event setup exactly means, and the one failure after which it is not.
-/

namespace VivaGenicam.Camera

open GenapiXml Genapi Library.Attempts

namespace EventCamera

variable {camera : EventCamera} {line : EventLine} {selectors : List Text} {memory : EventMemory}
  {sent : List (EventRegister × List UInt8)} {s : EventSession} {ip : UInt32} {port : UInt16}

theorem restoreEvents_nothingSaved :
    (camera.restoreEvents line camera.nothingSaved s).session = s := by
  unfold restoreEvents
  split
  · rfl
  · split
    · rfl
    · rfl

theorem prepare_unknown (h : ∃ selector ∈ selectors, selector ∉ camera.entries .eventSelector) :
    Ends (fun _ _ => False) (fun st => st.2 = camera.nothingSaved ∧ SameRegisters s st.1)
      (camera.prepare line selectors (s, camera.nothingSaved)) := by
  unfold prepare snapshotNotifications
  refine Ends.bind (Q := fun _ _ => False) ?_ fun _ _ h => h.elim
  refine Ends.bind (Q := fun entries st => camera.nothingSaved = st.2 ∧ SameRegisters s st.1 ∧
    entries = camera.entries .eventSelector) ?_ ?_
  · exact Ends.first ((stateEntries_reads s).mono (fun _ _ hs => ⟨rfl, hs.1.1, hs.2⟩)
      fun _ hs => ⟨rfl, hs.1⟩)
  rintro entries ⟨s₁, _⟩ ⟨rfl, hsame, rfl⟩
  cases hunknown : selectors.find? fun selector => selector ∉ camera.entries .eventSelector with
  | some selector => exact ⟨rfl, hsame⟩
  | none =>
    obtain ⟨selector, hmem, hnot⟩ := h
    exact absurd hnot (by simpa using List.find?_eq_none.mp hunknown selector hmem)

/-- A session after the setup: only selectors were moved, to what they can be set to. -/
def Later (camera : EventCamera) (s later : EventSession) : Prop :=
  camera.AllSettable later.memory ∧
    ∀ register, camera.Inert register → later.memory register = s.memory register

/-- What was sent since `s` is the setup's own. -/
def SentOwn (camera : EventCamera) (selectors : List Text) (s s' : EventSession) : Prop :=
  ∃ new, s'.writes = s.writes ++ new ∧ ∀ write ∈ new, camera.Own selectors write.1

/-- A setup from `s` is undone exactly. -/
structure UndoneExactly (camera : EventCamera) (line : EventLine) (ip : UInt32) (port : UInt16)
    (selectors : List Text) (s : EventSession) : Prop where
  /-- An unknown selector is found out before anything is written. -/
  unknown : (∃ selector ∈ selectors, selector ∉ camera.entries .eventSelector) →
    (camera.configureEventsRestorable line ip port selectors s).2.writes = s.writes
  rolledBack : ∀ error, (camera.configureEventsRestorable line ip port selectors s).1 = .error error →
    error.restoration.isComplete = true →
    (camera.configureEventsRestorable line ip port selectors s).2.memory = s.memory
  /-- Both selectors are back after a setup. -/
  selection : ∀ saved, (camera.configureEventsRestorable line ip port selectors s).1 = .ok saved →
    ∀ selector, selector = .eventSelector ∨ camera.channelSelector = some selector →
      (camera.configureEventsRestorable line ip port selectors s).2.memory (.plain selector) =
        s.memory (.plain selector)
  restored : ∀ saved, (camera.configureEventsRestorable line ip port selectors s).1 = .ok saved →
    ∀ line' later, camera.Later (camera.configureEventsRestorable line ip port selectors s).2 later →
      (camera.restoreEvents line' saved later).report.isComplete = true →
      (camera.restoreEvents line' saved later).session.memory = s.memory
  /-- Neither the setup nor the restoring writes under another selector's entry. -/
  own : camera.SentOwn selectors s (camera.configureEventsRestorable line ip port selectors s).2 ∧
    ∀ saved, (camera.configureEventsRestorable line ip port selectors s).1 = .ok saved →
      ∀ line' later, camera.Later (camera.configureEventsRestorable line ip port selectors s).2 later →
        camera.SentOwn selectors later (camera.restoreEvents line' saved later).session
  /-- Without control, or on another camera, nothing is done. -/
  refused : (line.control s.accesses ≠ .held →
      (camera.configureEventsRestorable line ip port selectors s).2 = s) ∧
    ∀ saved, (camera.configureEventsRestorable line ip port selectors s).1 = .ok saved →
      ∀ (other : EventCamera) line' later, other.identity ≠ camera.identity ∨
        line'.control later.accesses ≠ .held → (other.restoreEvents line' saved later).session = later

theorem configure_of_control (h : line.control s.accesses ≠ .held) :
    ∃ error, error.restoration = .empty ∧
      camera.configureEventsRestorable line ip port selectors s = (.error error, s) := by
  unfold configureEventsRestorable
  cases hcontrol : line.control s.accesses with
  | held => exact absurd hcontrol h
  | monitor => exact ⟨_, rfl, rfl⟩
  | lost => exact ⟨_, rfl, rfl⟩
  | released => exact ⟨_, rfl, rfl⟩

variable {st : EventSession × EventConfiguration}

theorem configure_of_ok (hcontrol : line.control s.accesses = .held)
    (h : camera.setUp line ip port selectors (s, camera.nothingSaved) = (.ok (), st)) :
    camera.configureEventsRestorable line ip port selectors s = (.ok st.2, st.1) := by
  simp only [configureEventsRestorable, hcontrol, h]

theorem configure_of_error {source : EventError} (hcontrol : line.control s.accesses = .held)
    (h : camera.setUp line ip port selectors (s, camera.nothingSaved) = (.error source, st)) :
    camera.configureEventsRestorable line ip port selectors s =
      (.error ⟨source, (camera.restoreEvents line st.2 st.1).report⟩,
        (camera.restoreEvents line st.2 st.1).session) := by
  simp only [configureEventsRestorable, hcontrol, h]

theorem restoreEvents_refused {saved : EventConfiguration} {later : EventSession}
    (h : camera.identity ≠ saved.identity ∨ line.control later.accesses ≠ .held) :
    (camera.restoreEvents line saved later).session = later := by
  unfold restoreEvents
  split
  · rfl
  · rename_i hidentity
    have hcontrol := h.resolve_left fun hne => hidentity (Ne.symm hne)
    cases hskipped : line.skipped later with
    | some reason => rfl
    | none =>
      unfold EventLine.skipped at hskipped
      split at hskipped
      · rename_i hheld
        exact absurd hheld hcontrol
      · cases hskipped

theorem undone_of_setUp (hall : camera.AllSettable s.memory)
    (hcontrol : line.control s.accesses = .held)
    (h : Ends (fun _ => camera.SetUp selectors s.memory s.writes)
      (camera.Ended selectors s.memory s.writes)
      (camera.setUp line ip port selectors (s, camera.nothingSaved))) :
    camera.UndoneExactly line ip port selectors s := by
  have hunknown : (∃ selector ∈ selectors, selector ∉ camera.entries .eventSelector) →
      (camera.configureEventsRestorable line ip port selectors s).2.writes = s.writes := by
    intro hunknown
    have hsetUp : Ends (fun _ _ => False)
        (fun st => st.2 = camera.nothingSaved ∧ SameRegisters s st.1)
        (camera.setUp line ip port selectors (s, camera.nothingSaved)) :=
      (prepare_unknown hunknown).bind fun _ _ h => h.elim
    rcases hrun : camera.setUp line ip port selectors (s, camera.nothingSaved) with ⟨source | _, st⟩
    · obtain ⟨hnothing, hsame⟩ := hsetUp.stops hrun
      rw [configure_of_error hcontrol hrun, hnothing]
      exact (congrArg EventSession.writes restoreEvents_nothingSaved).trans hsame.2
    · exact (hsetUp.returns hrun).elim
  rcases hrun : camera.setUp line ip port selectors (s, camera.nothingSaved) with ⟨source | _, st⟩
  · have hended := h.stops hrun
    have hconfigure := configure_of_error hcontrol hrun
    have hrestored := @restoreEvents_restored camera line selectors s.memory s.writes hall st.2 st.1
      hended.saved hended.within
    refine ⟨hunknown, ?_, ?_, ?_, ⟨?_, ?_⟩, ⟨fun hne => absurd hcontrol hne, ?_⟩⟩
    · intro error herror hcomplete
      rw [hconfigure] at herror ⊢
      cases herror
      exact (hrestored.2 hcomplete).memory_eq
    · intro saved hsaved
      rw [hconfigure] at hsaved
      cases hsaved
    · intro saved hsaved
      rw [hconfigure] at hsaved
      cases hsaved
    · rw [hconfigure]
      exact hrestored.1.own
    · intro saved hsaved
      rw [hconfigure] at hsaved
      cases hsaved
    · intro saved hsaved
      rw [hconfigure] at hsaved
      cases hsaved
  · have hsetUp := h.returns hrun
    have hconfigure := configure_of_ok hcontrol hrun
    have hlater : ∀ line' later, camera.Later st.1 later →
        Restored (camera.Within selectors s.memory later.writes (camera.savedRegisters st.2))
          (camera.Within selectors s.memory later.writes ∅)
          (camera.restoreEvents line' st.2 later) := by
      rintro line' later ⟨hsettable, hsame⟩
      refine restoreEvents_restored hall hsetUp.ended.saved ⟨hsettable, fun register hnot => ?_, [],
        (List.append_nil _).symm, by simp⟩
      have hinert : camera.Inert register :=
        ⟨fun heq => hnot (heq ▸ hsetUp.covered.event), fun selector hselector heq =>
          hnot (heq ▸ hsetUp.covered.selector selector hselector)⟩
      rw [hsame register hinert, hsetUp.ended.within.off register hnot]
    refine ⟨hunknown, ?_, ?_, ?_, ⟨?_, ?_⟩, ⟨fun hne => absurd hcontrol hne, ?_⟩⟩
    · intro error herror
      rw [hconfigure] at herror
      cases herror
    · rintro saved - selector (rfl | hselector)
      · rw [hconfigure]
        exact hsetUp.event
      · rw [hconfigure]
        exact hsetUp.channel selector hselector
    · intro saved hsaved line' later hlate hcomplete
      rw [hconfigure] at hsaved hlate
      cases hsaved
      exact ((hlater line' later hlate).2 hcomplete).memory_eq
    · rw [hconfigure]
      exact hsetUp.ended.within.own
    · intro saved hsaved line' later hlate
      rw [hconfigure] at hsaved hlate
      cases hsaved
      exact (hlater line' later hlate).1.own
    · intro saved hsaved other line' later hrefused
      rw [hconfigure] at hsaved
      cases hsaved
      refine restoreEvents_refused (hrefused.imp_left fun hne => ?_)
      rwa [hsetUp.ended.saved.identity]

/-- A setup is undone exactly, wherever it fails, unless it goes on to set the channel's
features after it could not select the channel. -/
theorem event_setup_undone (hall : camera.AllSettable s.memory)
    (hcoherent : camera.Coherent s .eventSelector) :
    camera.UndoneExactly line ip port selectors s ↔
      ¬ (line.control s.accesses = .held ∧ ∃ st,
        camera.prepare line selectors (s, camera.nothingSaved) = (.ok (), st) ∧
          camera.ChannelMissed line ip port st.1) := by
  constructor
  · rintro hundone ⟨hcontrol, ⟨s₁, saved⟩, hprepare, hmissed⟩
    have hsent : Longer s.writes s₁ := by
      obtain ⟨new, hwrites, -⟩ :=
        ((prepare_ends hall hcoherent).returns hprepare).taken.snapshot.within.own
      exact ⟨new, hwrites.symm⟩
    have hstrays := setUp_strays hprepare hmissed hsent
    have hnot : camera.Strayed selectors s.writes
        (camera.configureEventsRestorable line ip port selectors s).2 := by
      rcases hrun : camera.setUp line ip port selectors (s, camera.nothingSaved) with
        ⟨source | _, st⟩
      · rw [configure_of_error hcontrol hrun]
        exact (hstrays.stops hrun).longer (restoreEvents_longer List.prefix_rfl _)
      · rw [configure_of_ok hcontrol hrun]
        exact hstrays.returns hrun
    exact hnot.not_own hundone.own.1
  · intro hmissed
    by_cases hcontrol : line.control s.accesses = .held
    · exact undone_of_setUp hall hcontrol (setUp_ends hall hcoherent fun st hprepare hst =>
        hmissed ⟨hcontrol, st, hprepare, hst⟩)
    · obtain ⟨error, hempty, hconfigure⟩ := @configure_of_control camera line selectors s ip port
        hcontrol
      refine ⟨fun _ => by rw [hconfigure], fun _ _ _ => by rw [hconfigure], fun saved hsaved => ?_,
        fun saved hsaved => ?_, ⟨⟨[], by rw [hconfigure, List.append_nil], by simp⟩,
        fun saved hsaved => ?_⟩, ⟨fun _ => by rw [hconfigure], fun saved hsaved => ?_⟩⟩
      all_goals
        rw [hconfigure] at hsaved
        cases hsaved

def wordNode (kind : EventKind) : EventNode :=
  ⟨kind, 4, .unsigned, .big, fun _ => true, .writeThrough, []⟩

def twoChannels : EventCamera where
  node
    | .eventSelector =>
      some (wordNode (.enumeration ⟨[(['A'], 1), (['B'], 2)], by decide, by decide⟩))
    | .eventNotification =>
      some (wordNode (.enumeration ⟨[(['O', 'f', 'f'], 0), (eventNotifOn, 1)], by decide, by decide⟩))
    | .gevMessageChannelSelector =>
      some (wordNode (.enumeration ⟨[(['Z'], 0), (['W'], 1)], by decide, by decide⟩))
    | .gevMessageChannelIPAddress | .gevMessageChannelPort => some (wordNode .integer)
    | .gevMessageChannelEnable => some (wordNode (.boolean 1 0))
    | _ => none
  identity := 0

/-- Every register holds one: event A is selected, and the second channel. -/
def allOnes : EventSession := ⟨fun _ => [0, 0, 0, 1], fun _ => none, 0, []⟩

/-- One access fails, and leaves the register as it is. -/
def failing (access : Nat) : EventLine :=
  ⟨fun k => if k = access then some false else none, fun _ => .held, fun _ _ => true⟩

def loopback : UInt32 := 0x7F000001

theorem restorable_of_shown {node : EventNode} {name : Text} {bytes : List UInt8} (text : Text)
    (hshown : (node.shown name bytes).toOption = some text)
    (hencode : (node.encode name text).toOption = some bytes) : node.Restorable name bytes := by
  intro other hother
  cases (toOption_eq_some_iff.mp hshown).symm.trans hother
  exact toOption_eq_some_iff.mp hencode

theorem event_setup_undone_second_event :
    ((twoChannels.configureEventsRestorable (failing 24) loopback 5000 [['A'], ['B']] allOnes).1.isOk =
      false) ∧
    twoChannels.UndoneExactly (failing 24) loopback 5000 [['A'], ['B']] allOnes := by
  refine ⟨by decide +kernel, (event_setup_undone ?_ ?_).mpr ?_⟩
  · intro register feature node _ hnode
    change node.Restorable feature.name [0, 0, 0, 1]
    cases feature with
    | eventSelector =>
      cases hnode
      exact restorable_of_shown ['A'] (by decide +kernel) (by decide +kernel)
    | eventNotification =>
      cases hnode
      exact restorable_of_shown eventNotifOn (by decide +kernel) (by decide +kernel)
    | gevMessageChannelSelector =>
      cases hnode
      exact restorable_of_shown ['W'] (by decide +kernel) (by decide +kernel)
    | gevMessageChannelIPAddress =>
      cases hnode
      exact restorable_of_shown ['1'] (by decide +kernel) (by decide +kernel)
    | gevMessageChannelPort =>
      cases hnode
      exact restorable_of_shown ['1'] (by decide +kernel) (by decide +kernel)
    | gevMessageChannelEnable =>
      cases hnode
      exact restorable_of_shown (lit "true") (by decide +kernel) (by decide +kernel)
    | messageChannelSelector => cases hnode
    | messageChannelIPAddress => cases hnode
    | messageChannelPort => cases hnode
    | messageChannelEnable => cases hnode
  · intro bytes hbytes
    cases hbytes
  · rintro ⟨-, st, hprepare, hfailure, -⟩
    have hcount : (twoChannels.prepare (failing 24) [['A'], ['B']]
        (allOnes, twoChannels.nothingSaved)).2.1.accesses = 18 := by decide +kernel
    rw [hprepare] at hcount
    replace hcount : st.1.accesses = 18 := hcount
    simp [failing, hcount] at hfailure

/-- The second channel gets the address that is for the first, and keeps it through a
restoration that reports complete. -/
theorem missed_channel_is_not_undone :
    ((twoChannels.configureEventsRestorable (failing 18) loopback 5000 [['A'], ['B']] allOnes
      ).1.toOption.any fun saved =>
        let restored := twoChannels.restoreEvents (failing 1000) saved
          (twoChannels.configureEventsRestorable (failing 18) loopback 5000 [['A'], ['B']] allOnes).2
        restored.report.isComplete && restored.session.memory
          (.selected .gevMessageChannelIPAddress (some 1)) = [0x7F, 0, 0, 1]) = true ∧
    ¬ twoChannels.UndoneExactly (failing 18) loopback 5000 [['A'], ['B']] allOnes := by
  refine ⟨by decide +kernel, fun h => ?_⟩
  obtain ⟨⟨new, hwrites, hown⟩, -⟩ := h.own
  have hstrayed : ((.selected .gevMessageChannelIPAddress (some 1), [0x7F, 0, 0, 1]) :
      EventRegister × List UInt8) ∈ (twoChannels.configureEventsRestorable (failing 18) loopback 5000
        [['A'], ['B']] allOnes).2.writes := by decide +kernel
  rw [hwrites] at hstrayed
  obtain ⟨selector, target, value, hselector, htarget, hvalue, hentry⟩ :=
    hown _ ((List.mem_append.mp hstrayed).resolve_left List.not_mem_nil)
  cases hselector
  cases htarget
  cases hentry
  exact absurd hvalue (by decide +kernel)

end EventCamera

end VivaGenicam.Camera
