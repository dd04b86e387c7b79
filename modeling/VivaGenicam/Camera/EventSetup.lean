import VivaGenicam.Camera.EventRestore

/-!
A setup from the first snapshot to the last selector put back: wherever it fails, what it
has changed is what it has saved. One failure it passes over, that of selecting the channel.
-/

namespace VivaGenicam.Camera

open GenapiXml Genapi Library.Attempts

namespace EventCamera

variable {camera : EventCamera} {line : EventLine} {selectors : List Text} {memory : EventMemory}
variable {sent : List (EventRegister × List UInt8)} {S : Set EventRegister} {s : EventSession}
  {feature : EventFeature}

/-- Reading a feature changes no register, and keeps caches right. -/
def OnlyRead (camera : EventCamera) (s s' : EventSession) : Prop :=
  SameRegisters s s' ∧ ∀ feature, camera.Coherent s feature → camera.Coherent s' feature

theorem OnlyRead.refl (s : EventSession) : camera.OnlyRead s s := ⟨⟨rfl, rfl⟩, fun _ h => h⟩

variable {s' : EventSession}

theorem OnlyRead.trans {s'' : EventSession} (h : camera.OnlyRead s s')
    (h' : camera.OnlyRead s' s'') : camera.OnlyRead s s'' :=
  ⟨⟨h'.1.1.trans h.1.1, h'.1.2.trans h.1.2⟩, fun feature hs => h'.2 feature (h.2 feature hs)⟩

theorem onlyRead_of_cache (hsame : SameRegisters s s')
    (hcache : s'.cache = s.cache) : camera.OnlyRead s s' := by
  refine ⟨hsame, fun feature hs bytes hbytes => ?_⟩
  rw [hcache] at hbytes
  rw [hsame.1]
  exact hs bytes hbytes

theorem get_reads (s : EventSession) :
    Ends (fun text s' => camera.OnlyRead s s' ∧ (camera.Coherent s feature →
        camera.Shows feature (s.memory (camera.locate s.memory feature)) text))
      (camera.OnlyRead s) (camera.get line feature s) := by
  refine (get_ends s).mono ?_ fun s' h => onlyRead_of_cache h.1 h.2
  rintro text s' ⟨hsame, hcache, hshows⟩
  refine ⟨⟨hsame, fun g hs bytes hbytes => ?_⟩, hshows⟩
  rw [hsame.1]
  rcases hcache g with h | h | ⟨rfl, h⟩
  · rw [h] at hbytes
    exact hs bytes hbytes
  · simp [h] at hbytes
  · exact Option.some.inj (h.symm.trans hbytes)

/-- The entries a feature has, none for one that is not an enumeration. -/
def entries (camera : EventCamera) (feature : EventFeature) : List Text :=
  ((camera.node feature).bind fun node => (node.enumEntries feature.name).toOption).getD []

theorem entryValue_of_mem {entry : Text} (h : entry ∈ camera.entries feature) :
    (camera.entryValue feature entry).isSome := by
  unfold entries at h
  unfold entryValue
  cases hnode : camera.node feature with
  | none => simp [hnode] at h
  | some node =>
    cases hkind : node.kind with
    | enumeration table =>
      simp only [hnode, Option.bind_some, EventNode.enumEntries, hkind, Except.toOption,
        Option.getD_some] at h ⊢
      exact Option.isSome_iff_exists.mpr (EntryTable.mem_names_iff.mp h)
    | integer => simp [hnode, EventNode.enumEntries, hkind, Except.toOption] at h
    | boolean onValue offValue => simp [hnode, EventNode.enumEntries, hkind, Except.toOption] at h
    | other kind shown parsed => simp [hnode, EventNode.enumEntries, hkind, Except.toOption] at h

theorem firstEntry_of_enumEntries {node : EventNode} {target : Text} {rest : List Text}
    (hnode : camera.node feature = some node)
    (h : node.enumEntries feature.name = .ok (target :: rest)) :
    camera.firstEntry feature = some target ∧ (camera.entryValue feature target).isSome := by
  refine ⟨by simp [firstEntry, hnode, h, Except.toOption], entryValue_of_mem ?_⟩
  simp [entries, hnode, h, Except.toOption]

theorem stateEntries_reads (s : EventSession) :
    Ends (fun entries s' => camera.OnlyRead s s' ∧ entries = camera.entries feature)
      (camera.OnlyRead s) (camera.stateEntries line feature s) := by
  unfold stateEntries
  refine (findNode_ends s (.refl s)).bind ?_
  rintro node _ ⟨rfl, hnode⟩
  refine (get_reads _).bind ?_
  rintro text s' ⟨hread, -⟩
  refine ⟨hread, ?_⟩
  simp only [entries, hnode, Option.bind_some]

theorem enumEntries_reads (s : EventSession) :
    Ends (fun entries s' => s' = s ∧ ∃ node, camera.node feature = some node ∧
        node.enumEntries feature.name = .ok entries)
      (fun s' => s' = s) (camera.enumEntries feature s) := by
  unfold enumEntries
  refine (findNode_ends (E := fun s' => s' = s) s rfl).bind ?_
  rintro node _ ⟨rfl, hnode⟩
  exact genApi_ends (fun entries h => ⟨rfl, node, hnode, h⟩) rfl

theorem Within.read (h : camera.Within selectors memory sent S s)
    (hread : camera.OnlyRead s s') : camera.Within selectors memory sent S s' :=
  h.same hread.1

theorem selects_ends {entry : Text} {value : Int64} (h : camera.Within selectors memory sent S s)
    (hplain : camera.locate s.memory feature = .plain feature) (hmem : .plain feature ∈ S)
    (hvalue : camera.entryValue feature entry = some value) :
    Ends (fun _ s' => camera.Within selectors memory sent S s' ∧
        camera.selection s'.memory feature = some value ∧ ∀ g, camera.Coherent s' g)
      (camera.Within selectors memory sent S) (camera.setIfChanged line feature entry s) := by
  have hkeeps := @selecting_keeps camera line selectors memory sent S feature entry s h hplain hmem
    (Option.isSome_iff_exists.mpr ⟨value, hvalue⟩)
  rcases hrun : camera.setIfChanged line feature entry s with ⟨e | _, s'⟩
  · exact hkeeps.stops hrun
  · exact ⟨hkeeps.returns hrun, setIfChanged_selects hvalue hplain hrun,
      ((setIfChanged_ends s).returns hrun).1⟩

/-- The selectors, which the snapshots move. -/
def selectorRegisters (saved : EventConfiguration) : Set EventRegister :=
  {register | (saved.eventSelector.isSome ∧ register = .plain .eventSelector) ∨
    ∃ channel selector, saved.channel = some channel ∧ channel.selector = some selector ∧
      register = .plain selector.1}

theorem selectorRegisters_subset (saved : EventConfiguration) :
    selectorRegisters saved ⊆ camera.savedRegisters saved := by
  rintro register (h | ⟨channel, selector, hchannel, hselector, hplain⟩)
  · exact .inl h
  · exact .inr (.inr ⟨channel, hchannel, .inr (.inl ⟨selector, hselector, hplain⟩)⟩)

variable {saved : EventConfiguration} {register : EventRegister}

theorem plain_of_mem_selectorRegisters
    (h : register ∈ selectorRegisters saved) : ∃ feature, register = .plain feature := by
  rcases h with ⟨-, rfl⟩ | ⟨_, _, -, -, rfl⟩
  · exact ⟨_, rfl⟩
  · exact ⟨_, rfl⟩

/-- So far, only selectors were moved. -/
structure Snapshot (camera : EventCamera) (selectors : List Text) (memory : EventMemory)
    (sent : List (EventRegister × List UInt8)) (st : EventSession × EventConfiguration) : Prop where
  saved : camera.Saved selectors memory st.2
  within : camera.Within selectors memory sent (selectorRegisters st.2) st.1

variable {st : EventSession × EventConfiguration}

theorem Snapshot.session (h : camera.Snapshot selectors memory sent st)
    (hs' : camera.Within selectors memory sent (selectorRegisters st.2) s') :
    camera.Snapshot selectors memory sent (s', st.2) :=
  ⟨h.saved, hs'⟩

/-- The snapshot of the notifications of `done` is taken. -/
structure Notified (camera : EventCamera) (selectors : List Text) (memory : EventMemory)
    (sent : List (EventRegister × List UInt8)) (done : List Text)
    (st : EventSession × EventConfiguration) : Prop where
  snapshot : camera.Snapshot selectors memory sent st
  event : st.2.eventSelector.isSome
  notes : ∀ selector ∈ done, ∃ note ∈ st.2.notifications, note.1 = selector
  channel : st.2.channel = none

theorem Saved.push {selector previous : Text}
    (h : camera.Saved selectors memory saved) (hevent : saved.eventSelector.isSome)
    (hmem : selector ∈ selectors) (hvalue : (camera.entryValue .eventSelector selector).isSome)
    (hshows : camera.Shows .eventNotification (memory (camera.notificationRegister selector))
      previous) :
    camera.Saved selectors memory
      { saved with notifications := saved.notifications ++ [(selector, previous)] } := by
  refine ⟨h.eventSelector, fun note hnote => ?_, fun _ => hevent, h.channel, h.identity⟩
  rcases List.mem_append.mp hnote with hold | hlast
  · exact h.notifications note hold
  · obtain rfl := List.mem_singleton.mp hlast
    exact ⟨hmem, hvalue, hshows⟩

theorem snapshotEach_ends {todo : List Text} (hsub : ∀ selector ∈ todo, selector ∈ selectors)
    (hvalue : ∀ selector ∈ todo, (camera.entryValue .eventSelector selector).isSome)
    {done : List Text} :
    Ensures (camera.Notified selectors memory sent done) (camera.snapshotEach line todo)
      (fun _ => camera.Notified selectors memory sent (done ++ todo))
      (camera.Snapshot selectors memory sent) := by
  induction todo generalizing done with
  | nil =>
    rw [List.append_nil]
    exact fun st h => h
  | cons selector rest ih =>
    have ih' := fun done => @ih (fun selector h => hsub selector (List.mem_cons_of_mem _ h))
      (fun selector h => hvalue selector (List.mem_cons_of_mem _ h)) done
    rintro ⟨s, saved⟩ h
    simp only [snapshotEach]
    rw [Attempt.bind_of_ok (show Attempt.get _ = (.ok _, _) from rfl),
      ← List.singleton_append, ← List.append_assoc]
    by_cases hdone : (saved.notifications.any fun note => decide (note.1 = selector)) = true
    · rw [if_pos hdone]
      refine ih' (done ++ [selector]) _ ⟨h.snapshot, h.event, ?_, h.channel⟩
      intro other hother
      rcases List.mem_append.mp hother with hold | hlast
      · exact h.notes other hold
      · obtain rfl := List.mem_singleton.mp hlast
        simpa using List.any_eq_true.mp hdone
    · rw [if_neg hdone]
      have hmem := hsub selector (List.mem_cons_self ..)
      have hsome := hvalue selector (List.mem_cons_self ..)
      obtain ⟨value, hentry⟩ := Option.isSome_iff_exists.mp hsome
      have hselect := @selects_ends camera line selectors memory sent _ s .eventSelector selector
        value h.snapshot.within rfl (.inl ⟨h.event, rfl⟩) hentry
      refine Ends.bind (Q := fun _ st => saved = st.2 ∧
        camera.Within selectors memory sent (selectorRegisters saved) st.1 ∧
        camera.selection st.1.memory .eventSelector = some value ∧ ∀ g, camera.Coherent st.1 g)
        ?_ ?_
      · exact Ends.first (hselect.mono (fun _ _ hs => ⟨rfl, hs⟩)
          fun _ hs => h.snapshot.session hs)
      rintro - ⟨s₁, _⟩ ⟨rfl, hwithin, hselection, hcoherent⟩
      have hlocate := locate_notification (hselection.trans hentry.symm)
      refine Ends.bind (Q := fun _ st => saved = st.2 ∧ camera.OnlyRead s₁ st.1) ?_ ?_
      · exact Ends.first ((stateEntries_reads s₁).mono (fun _ _ hs => ⟨rfl, hs.1⟩)
          fun _ hs => h.snapshot.session (hwithin.read hs))
      rintro entries ⟨s₂, _⟩ ⟨rfl, hread⟩
      split
      · refine Ends.bind (Q := fun previous st => saved = st.2 ∧ camera.OnlyRead s₁ st.1 ∧
          camera.Shows .eventNotification (s₁.memory (camera.notificationRegister selector))
            previous) ?_ ?_
        · refine Ends.first ((get_reads s₂).mono (fun previous s₃ hs => ⟨rfl, hread.trans hs.1, ?_⟩)
            fun _ hs => h.snapshot.session (hwithin.read (hread.trans hs)))
          have hshows := hs.2 (hread.2 _ (hcoherent _))
          rwa [hread.1.1, hlocate] at hshows
        rintro previous ⟨s₃, _⟩ ⟨rfl, hread₃, hshows⟩
        rw [Attempt.bind_of_ok (show saving _ _ = (.ok _, _) from rfl)]
        have hheld : s₁.memory (camera.notificationRegister selector) =
            memory (camera.notificationRegister selector) := by
          apply hwithin.off
          intro hin
          obtain ⟨_, heq⟩ := plain_of_mem_selectorRegisters hin
          cases heq
        refine ih' (done ++ [selector]) _ ⟨⟨?_, hwithin.read hread₃⟩, h.event, ?_, h.channel⟩
        · exact h.snapshot.saved.push h.event hmem hsome (hheld ▸ hshows)
        · intro other hother
          rcases List.mem_append.mp hother with hold | hlast
          · obtain ⟨note, hnote, hname⟩ := h.notes other hold
            exact ⟨note, List.mem_append_left _ hnote, hname⟩
          · obtain rfl := List.mem_singleton.mp hlast
            exact ⟨_, List.mem_append_right _ (List.mem_singleton_self _), rfl⟩
      · exact h.snapshot.session (hwithin.read hread)

theorem within_start (hall : camera.AllSettable s.memory) (S : Set EventRegister) :
    camera.Within selectors s.memory s.writes S s :=
  ⟨hall, fun _ _ => rfl, [], (List.append_nil _).symm, by simp⟩

theorem snapshotNotifications_ends (hall : camera.AllSettable s.memory)
    (hcoherent : camera.Coherent s .eventSelector) :
    Ends (fun _ st => camera.Notified selectors s.memory s.writes selectors st ∧
        ∀ g, camera.Coherent st.1 g)
      (camera.Snapshot selectors s.memory s.writes)
      (camera.snapshotNotifications line selectors (s, camera.nothingSaved)) := by
  have hsaved : camera.Saved selectors s.memory camera.nothingSaved :=
    ⟨fun _ h => (by cases h), by simp [nothingSaved], by simp [nothingSaved],
      fun _ h => (by cases h), rfl⟩
  have hstart : ∀ {s'}, camera.OnlyRead s s' →
      camera.Snapshot selectors s.memory s.writes (s', camera.nothingSaved) := fun hread =>
    ⟨hsaved, (within_start hall _).read hread⟩
  unfold snapshotNotifications
  refine Ends.bind (Q := fun entries st => camera.nothingSaved = st.2 ∧ camera.OnlyRead s st.1 ∧
    entries = camera.entries .eventSelector) ?_ ?_
  · exact Ends.first ((stateEntries_reads s).mono (fun _ _ h => ⟨rfl, h.1, h.2⟩)
      fun _ h => hstart h)
  rintro entries ⟨s₁, _⟩ ⟨rfl, hread, rfl⟩
  cases hknown : selectors.find? fun selector => selector ∉ camera.entries .eventSelector with
  | some selector => exact hstart hread
  | none =>
    have hvalue : ∀ selector ∈ selectors, (camera.entryValue .eventSelector selector).isSome := by
      intro selector hmem
      apply entryValue_of_mem
      simpa using List.find?_eq_none.mp hknown selector hmem
    refine Ends.bind (Q := fun previous st => camera.nothingSaved = st.2 ∧
      camera.OnlyRead s st.1 ∧ camera.Shows .eventSelector (s.memory (.plain .eventSelector))
        previous) ?_ ?_
    · refine Ends.first ((get_reads s₁).mono (fun previous s₂ h => ⟨rfl, hread.trans h.1, ?_⟩)
        fun _ h => hstart (hread.trans h))
      have hshows := h.2 (hread.2 _ hcoherent)
      rwa [hread.1.1] at hshows
    rintro previous ⟨s₂, _⟩ ⟨rfl, hread₂, hshows⟩
    rw [Attempt.bind_of_ok (show saving _ _ = (.ok _, _) from rfl)]
    refine (@snapshotEach_ends camera line selectors s.memory s.writes selectors (fun _ h => h) hvalue [] _ ?_).bind ?_
    · refine ⟨⟨⟨fun text htext => ?_, by simp [nothingSaved], by simp [nothingSaved],
        fun _ h => (by cases h), rfl⟩, (within_start hall _).read hread₂⟩, rfl, by simp, rfl⟩
      cases htext
      exact hshows
    rintro - ⟨s₃, saved⟩ h
    have hrestores := @setIfChanged_restores camera line .eventSelector selectors s.memory s.writes
      _ s₃ previous h.snapshot.within hall trivial hshows
    refine Ends.first ((hrestores.and (setIfChanged_ends s₃)).mono (fun _ s₄ hs => ?_) fun s₄ hs => ?_)
    · exact ⟨⟨h.snapshot.session (hs.1.1.mono Set.sdiff_subset), h.event, h.notes, h.channel⟩,
        hs.2.1⟩
    · exact h.snapshot.session hs.1.1

/-- The snapshot of the notifications is taken, and as much of the channel's. -/
structure ChannelTaken (camera : EventCamera) (selectors : List Text) (memory : EventMemory)
    (sent : List (EventRegister × List UInt8)) (raw : List Nat) (selector : Option EventFeature)
    (features : List EventFeature) (st : EventSession × EventConfiguration) : Prop where
  snapshot : camera.Snapshot selectors memory sent st
  event : st.2.eventSelector.isSome
  notes : ∀ selector ∈ selectors, ∃ note ∈ st.2.notifications, note.1 = selector
  coherent : ∀ g, camera.Coherent st.1 g
  channel : ∃ channel, st.2.channel = some channel ∧ channel.raw.map Prod.fst = raw ∧
    channel.selector.map Prod.fst = selector ∧ channel.features.map Prod.fst = features

theorem Saved.withChannel {channel : EventChannel}
    (h : camera.Saved selectors memory saved) (hchannel : camera.ChannelSaved memory channel) :
    camera.Saved selectors memory { saved with channel := some channel } :=
  ⟨h.eventSelector, h.notifications, h.selected, fun _ heq => Option.some.inj heq ▸ hchannel,
    h.identity⟩

theorem selectorRegisters_withChannel {saved : EventConfiguration} {channel changed : EventChannel}
    (hchannel : saved.channel = some channel) (hselector : changed.selector = channel.selector) :
    selectorRegisters { saved with channel := some changed } = selectorRegisters saved := by
  ext register
  simp [selectorRegisters, hchannel, hselector]

theorem savingChannel_run {channel : EventChannel}
    (change : EventChannel → EventChannel) (h : saved.channel = some channel) :
    savingChannel change (s, saved) =
      (.ok (), s, { saved with channel := some (change channel) }) := by
  simp only [savingChannel, saving, Attempt.modify, h, Option.map_some]

theorem snapshotRaw_ends {todo raw : List Nat} :
    Ensures (camera.ChannelTaken selectors memory sent raw none []) (snapshotRaw line todo)
      (fun _ => camera.ChannelTaken selectors memory sent (raw ++ todo) none [])
      (camera.Snapshot selectors memory sent) := by
  induction todo generalizing raw with
  | nil =>
    rw [List.append_nil]
    exact fun st h => h
  | cons address rest ih =>
    rintro ⟨s, saved⟩ h
    simp only [snapshotRaw]
    rw [← List.singleton_append, ← List.append_assoc]
    refine Ends.bind (Q := fun bytes st => saved = st.2 ∧ camera.OnlyRead s st.1 ∧
      bytes = memory (.bootstrap address)) ?_ ?_
    · refine Ends.first ((EventSession.read_ends line _ s).mono (fun bytes s' hs => ?_)
        fun s' hs => h.snapshot.session (h.snapshot.within.same hs.1))
      refine ⟨rfl, onlyRead_of_cache hs.1 hs.2.1, hs.2.2.trans (h.snapshot.within.off _ ?_)⟩
      intro hin
      obtain ⟨_, heq⟩ := plain_of_mem_selectorRegisters hin
      cases heq
    rintro bytes ⟨s', _⟩ ⟨rfl, hread, rfl⟩
    obtain ⟨channel, hchannel, hraw, hselector, hfeatures⟩ := h.channel
    replace hchannel : saved.channel = some channel := hchannel
    rw [Attempt.bind_of_ok (savingChannel_run _ hchannel)]
    have hsaved := h.snapshot.saved.channel channel hchannel
    refine ih _ ⟨⟨h.snapshot.saved.withChannel ⟨fun entry hentry => ?_, hsaved.selector,
      hsaved.features, hsaved.selected⟩, ?_⟩, h.event, h.notes, fun g => hread.2 g (h.coherent g),
      _, rfl, by simp [hraw], hselector, hfeatures⟩
    · rcases List.mem_append.mp hentry with hold | hlast
      · exact hsaved.raw entry hold
      · obtain rfl := List.mem_singleton.mp hlast
        rfl
    · exact (h.snapshot.within.read hread).mono (@selectorRegisters_withChannel saved channel
        { channel with raw := channel.raw ++ [(address, memory (.bootstrap address))] }
        hchannel rfl).ge

/-- The first channel is selected, or can be. -/
def Selectable (camera : EventCamera) (memory : EventMemory) : Prop :=
  ∀ selector target, camera.channelSelector = some selector →
    camera.firstEntry selector = some target →
    camera.selection memory selector = camera.entryValue selector target ∨
      ∃ node bytes, camera.node selector = some node ∧
        node.encodeEnum selector.name target = .ok bytes

/-- Where the channel's features are read: under its first entry, which has a value. -/
structure OnFirst (camera : EventCamera) (memory : EventMemory)
    (st : EventSession × EventConfiguration) : Prop where
  aligned : camera.Aligned st.1.memory
  firsts : ∀ selector, camera.channelSelector = some selector →
    ∃ target, camera.firstEntry selector = some target ∧ (camera.entryValue selector target).isSome
  selectable : camera.Selectable memory

/-- The selector, with the entry to put back. -/
def Returns (camera : EventCamera) (memory : EventMemory) : Option (EventFeature × Text) → Prop
  | some (name, previous) => camera.channelSelector = some name ∧
      camera.Shows name (memory (.plain name)) previous
  | none => camera.channelSelector = none

theorem snapshotSelector_ends {raw : List Nat} :
    Ensures (camera.ChannelTaken selectors memory sent raw none []) (camera.snapshotSelector line)
      (fun selected st => camera.ChannelTaken selectors memory sent raw camera.channelSelector [] st ∧
        camera.OnFirst memory st ∧ camera.Returns memory selected)
      (camera.Snapshot selectors memory sent) := by
  rintro ⟨s, saved⟩ h
  unfold snapshotSelector
  cases hselector : camera.channelSelector with
  | none =>
    exact ⟨h, ⟨aligned_of_none hselector _, fun _ heq => (by cases hselector.symm.trans heq),
      fun _ _ heq => (by cases hselector.symm.trans heq)⟩, hselector⟩
  | some name =>
    have hplain := fun memory => locate_channelSelector memory hselector
    obtain ⟨channel, hchannel, hraw, hnone, hfeatures⟩ := h.channel
    replace hchannel : saved.channel = some channel := hchannel
    have hnoSelector : channel.selector = none := Option.map_eq_none_iff.mp hnone
    have hheld : s.memory (.plain name) = memory (.plain name) := by
      apply h.snapshot.within.off
      rintro (⟨-, heq⟩ | ⟨other, selector, hother, hsome, -⟩)
      · rcases channelSelector_cases hselector with rfl | rfl
        · cases heq
        · cases heq
      · cases hchannel.symm.trans hother
        cases hnoSelector.symm.trans hsome
    dsimp only
    refine Ends.bind (Q := fun original st => saved = st.2 ∧ camera.OnlyRead s st.1 ∧
      camera.Shows name (memory (.plain name)) original) ?_ ?_
    · refine Ends.first ((get_reads s).mono (fun original s' hs => ⟨rfl, hs.1, ?_⟩)
        fun s' hs => h.snapshot.session (h.snapshot.within.read hs))
      have hshows := hs.2 (h.coherent name)
      rwa [hplain, hheld] at hshows
    rintro original ⟨s₁, _⟩ ⟨rfl, hread, hshows⟩
    have hwithin := h.snapshot.within.read hread
    refine Ends.bind (Q := fun entries st => (s₁, saved) = st ∧ ∃ node,
      camera.node name = some node ∧ node.enumEntries name.name = .ok entries) ?_ ?_
    · refine Ends.first ((enumEntries_reads s₁).mono (fun entries s' hs => ?_) fun s' hs => ?_)
      · obtain ⟨rfl, hs⟩ := hs
        exact ⟨rfl, hs⟩
      · subst hs
        exact h.snapshot.session hwithin
    rintro entries _ ⟨rfl, node, hnode, hentries⟩
    cases entries with
    | nil => exact h.snapshot.session hwithin
    | cons target rest =>
      obtain ⟨htarget, hsome⟩ := firstEntry_of_enumEntries hnode hentries
      obtain ⟨value, hvalue⟩ := Option.isSome_iff_exists.mp hsome
      dsimp only
      rw [Attempt.bind_of_ok (savingChannel_run _ hchannel)]
      have hsaved := h.snapshot.saved.channel channel hchannel
      have hnoFeatures : channel.features = [] := List.map_eq_nil_iff.mp hfeatures
      have hsnapshot : camera.Snapshot selectors memory sent (s₁, { saved with
          channel := some { channel with selector := some (name, original, target) } }) := by
        refine ⟨h.snapshot.saved.withChannel ⟨hsaved.raw, fun _ _ _ heq => ?_, hsaved.features,
          fun hne => absurd hnoFeatures hne⟩, hwithin.mono ?_⟩
        · cases heq
          exact ⟨hselector, htarget, hsome, hshows⟩
        · rintro register (hevent | ⟨other, selector, hother, hsome, -⟩)
          · exact .inl hevent
          · cases hchannel.symm.trans hother
            cases hnoSelector.symm.trans hsome
      have hselect := @selects_ends camera line selectors memory sent _ s₁ name target value
        hsnapshot.within (hplain _) (.inr ⟨_, _, rfl, rfl, rfl⟩) hvalue
      refine Ends.bind (Q := fun _ st => camera.ChannelTaken selectors memory sent raw
        camera.channelSelector [] st ∧ camera.OnFirst memory st) ?_ ?_
      · refine Ends.first ((hselect.and (setIfChanged_ends s₁)).mono (fun _ s₂ hs => ?_)
          fun s₂ hs => hsnapshot.session hs.1)
        obtain ⟨⟨hwithin₂, hselection, hcoherent⟩, -, hcases⟩ := hs
        refine ⟨⟨hsnapshot.session hwithin₂, h.event, h.notes, hcoherent, _, rfl, hraw,
          hselector.symm, hfeatures⟩, ⟨aligned_of_selection hselector htarget
            (hselection.trans hvalue.symm), fun other hother => ?_, fun other _ hother htarget' => ?_⟩⟩
        · cases hselector.symm.trans hother
          exact ⟨target, htarget, hsome⟩
        · cases hselector.symm.trans hother
          cases htarget.symm.trans htarget'
          have hmemory : s₁.memory (.plain name) = memory (.plain name) := by
            rw [hread.1.1, hheld]
          rcases hcases with ⟨-, hnow⟩ | ⟨node', bytes, hnode', hbytes, -⟩
          · left
            rw [hplain, hmemory] at hnow
            have := @selection_of_shows camera name ⟨memory, s₁.cache, 0, []⟩ target value hvalue hnow
            exact this.trans hvalue.symm
          · right
            rw [encode_of_entryValue hvalue hnode'] at hbytes
            exact ⟨node', bytes, hnode', hbytes⟩
      · rintro - st ⟨htaken, hfirst⟩
        exact ⟨hselector ▸ htaken, hfirst, hselector, hshows⟩

theorem notMem_selectorRegisters (hsaved : camera.Saved selectors memory saved)
    (h : camera.Inert register) : register ∉ selectorRegisters saved := by
  rintro (⟨-, rfl⟩ | ⟨channel, ⟨name, previous, target⟩, hchannel, hselector, rfl⟩)
  · exact h.1 rfl
  · exact h.2 name ((hsaved.channel channel hchannel).selector _ _ _ hselector).1 rfl

theorem aligned_of_same (h : camera.Aligned s.memory)
    (hsame : SameRegisters s s') : camera.Aligned s'.memory := by
  rw [hsame.1]
  exact h

theorem snapshotFeatures_ends {raw : List Nat} {todo : List (List EventFeature)}
    (htodo : ∀ aliases ∈ todo, ∀ feature ∈ aliases, feature ∈ channelFeatures)
    {features : List EventFeature} :
    Ensures (fun st => camera.ChannelTaken selectors memory sent raw camera.channelSelector features
        st ∧ camera.Aligned st.1.memory) (camera.snapshotFeatures line todo)
      (fun _ st => camera.ChannelTaken selectors memory sent raw camera.channelSelector
        (features ++ todo.filterMap camera.findAlias) st ∧ camera.Aligned st.1.memory)
      (camera.Snapshot selectors memory sent) := by
  induction todo generalizing features with
  | nil =>
    rw [List.filterMap_nil, List.append_nil]
    exact fun st h => h
  | cons aliases rest ih =>
    have ih' := fun features => @ih (fun aliases h => htodo aliases (List.mem_cons_of_mem _ h)) features
    rintro ⟨s, saved⟩ ⟨h, haligned⟩
    simp only [snapshotFeatures]
    cases halias : camera.findAlias aliases with
    | none =>
      rw [List.filterMap_cons_none halias]
      exact ih' features _ ⟨h, haligned⟩
    | some name =>
      have hname : name ∈ channelFeatures := htodo aliases (List.mem_cons_self ..) name
        (List.mem_of_find?_eq_some halias)
      rw [List.filterMap_cons_some halias, ← List.singleton_append, ← List.append_assoc]
      dsimp only
      refine Ends.bind (Q := fun value st => saved = st.2 ∧ camera.OnlyRead s st.1 ∧
        camera.Shows name (memory (camera.channelRegister name)) value) ?_ ?_
      · refine Ends.first ((get_reads s).mono (fun value s' hs => ⟨rfl, hs.1, ?_⟩)
          fun s' hs => h.snapshot.session (h.snapshot.within.read hs))
        have hshows := hs.2 (h.coherent name)
        rwa [haligned name hname, h.snapshot.within.off _ (notMem_selectorRegisters h.snapshot.saved
          (inert_channelRegister hname))] at hshows
      rintro value ⟨s', _⟩ ⟨rfl, hread, hshows⟩
      obtain ⟨channel, hchannel, hraw, hselector, hfeatures⟩ := h.channel
      replace hchannel : saved.channel = some channel := hchannel
      rw [Attempt.bind_of_ok (savingChannel_run _ hchannel)]
      have hsaved := h.snapshot.saved.channel channel hchannel
      refine ih' _ _ ⟨⟨⟨h.snapshot.saved.withChannel ⟨hsaved.raw, hsaved.selector,
        fun entry hentry => ?_, fun _ hnone => ?_⟩, ?_⟩, h.event, h.notes,
        fun g => hread.2 g (h.coherent g), _, rfl, hraw, hselector, by simp [hfeatures]⟩,
        aligned_of_same haligned hread.1⟩
      · rcases List.mem_append.mp hentry with hold | hlast
        · exact hsaved.features entry hold
        · obtain rfl := List.mem_singleton.mp hlast
          exact ⟨hname, hshows⟩
      · rw [← hselector, hnone]
        rfl
      · exact (h.snapshot.within.read hread).mono (@selectorRegisters_withChannel saved channel
          { channel with features := channel.features ++ [(name, value)] } hchannel rfl).ge

/-- Everything the setup changes is saved, and the selectors are back. -/
structure Prepared (camera : EventCamera) (selectors : List Text) (memory : EventMemory)
    (sent : List (EventRegister × List UInt8)) (st : EventSession × EventConfiguration) : Prop where
  taken : camera.ChannelTaken selectors memory sent
    [messageDestinationAddress, messageDestinationPort] camera.channelSelector
    ([msgIp, msgPort, msgEn].filterMap camera.findAlias) st
  held : ∀ selector, camera.channelSelector = some selector →
    st.1.memory (.plain selector) = memory (.plain selector)
  firsts : ∀ selector, camera.channelSelector = some selector →
    ∃ target, camera.firstEntry selector = some target ∧ (camera.entryValue selector target).isSome
  selectable : camera.Selectable memory

theorem snapshotChannel_ends (hall : camera.AllSettable memory) :
    Ensures (fun st => camera.Notified selectors memory sent selectors st ∧
        ∀ g, camera.Coherent st.1 g) (camera.snapshotChannel line)
      (fun _ => camera.Prepared selectors memory sent) (camera.Snapshot selectors memory sent) := by
  rintro ⟨s, saved⟩ ⟨h, hcoherent⟩
  unfold snapshotChannel
  rw [Attempt.bind_of_ok (show saving _ _ = (.ok _, _) from rfl)]
  have hchannel : saved.channel = none := h.channel
  refine (@snapshotRaw_ends camera line selectors memory sent _ [] _ ?_).bind ?_
  · refine ⟨⟨h.snapshot.saved.withChannel ⟨by simp, fun _ _ _ heq => (by cases heq), by simp,
      by simp⟩, h.snapshot.within.mono ?_⟩, h.event, h.notes, hcoherent, _, rfl, rfl, rfl, rfl⟩
    rintro register (hevent | ⟨other, _, hother, -, -⟩)
    · exact .inl hevent
    · cases hchannel.symm.trans hother
  rintro - st₁ htaken
  refine (snapshotSelector_ends st₁ htaken).bind ?_
  rintro selected st₂ ⟨htaken₂, hfirst, hreturns⟩
  refine (@snapshotFeatures_ends camera line selectors memory sent _ [msgIp, msgPort, msgEn] ?_ _ st₂
    ⟨htaken₂, hfirst.aligned⟩).bind ?_
  · decide
  rintro - ⟨s₃, saved₃⟩ ⟨htaken₃, -⟩
  rw [List.nil_append] at htaken₃
  cases selected with
  | none =>
    refine ⟨htaken₃, fun selector hselector => ?_, hfirst.firsts, hfirst.selectable⟩
    cases hselector.symm.trans hreturns
  | some returned =>
    obtain ⟨name, previous⟩ := returned
    obtain ⟨hname, hshows⟩ := hreturns
    have hplain := fun memory => locate_channelSelector memory hname
    have hrestores := @setIfChanged_restores camera line name selectors memory sent _ s₃ previous
      htaken₃.snapshot.within hall (by rw [hplain]; trivial) (by rwa [hplain])
    refine Ends.first ((hrestores.and (setIfChanged_ends s₃)).mono (fun _ s₄ hs => ?_) fun s₄ hs => ?_)
    · obtain ⟨⟨hwithin, hmemory⟩, hcoherent', -⟩ := hs
      refine ⟨⟨htaken₃.snapshot.session (hwithin.mono Set.sdiff_subset), htaken₃.event,
        htaken₃.notes, hcoherent', htaken₃.channel⟩, fun selector hselector => ?_, hfirst.firsts,
        hfirst.selectable⟩
      cases hname.symm.trans hselector
      rw [hmemory, hplain, Function.update_self]
    · exact htaken₃.snapshot.session hs.1.1

theorem prepare_ends (hall : camera.AllSettable s.memory)
    (hcoherent : camera.Coherent s .eventSelector) :
    Ends (fun _ => camera.Prepared selectors s.memory s.writes)
      (camera.Snapshot selectors s.memory s.writes)
      (camera.prepare line selectors (s, camera.nothingSaved)) :=
  (snapshotNotifications_ends hall hcoherent).bind fun _ st h => snapshotChannel_ends hall st h

/-- Every register that is configured may differ. -/
structure Covered (camera : EventCamera) (selectors : List Text) (S : Set EventRegister) : Prop where
  event : .plain .eventSelector ∈ S
  notes : ∀ selector ∈ selectors, camera.notificationRegister selector ∈ S ∧
    (camera.entryValue .eventSelector selector).isSome
  selector : ∀ selector, camera.channelSelector = some selector → .plain selector ∈ S
  features : ∀ aliases ∈ [msgIp, msgPort, msgEn], ∀ feature, camera.findAlias aliases = some feature →
    camera.channelRegister feature ∈ S
  raw : ∀ address ∈ [messageDestinationAddress, messageDestinationPort], .bootstrap address ∈ S

theorem Prepared.covered (h : camera.Prepared selectors memory sent st) :
    camera.Covered selectors (camera.savedRegisters st.2) := by
  obtain ⟨channel, hchannel, hraw, hselector, hfeatures⟩ := h.taken.channel
  refine ⟨.inl ⟨h.taken.event, rfl⟩, fun selector hmem => ?_, fun selector hsome => ?_,
    fun aliases haliases feature hfeature => ?_, fun address haddress => ?_⟩
  · obtain ⟨note, hnote, rfl⟩ := h.taken.notes selector hmem
    exact ⟨.inr (.inl ⟨note, hnote, rfl⟩), (h.taken.snapshot.saved.notifications note hnote).2.1⟩
  · rw [hsome] at hselector
    obtain ⟨saved, hsaved, rfl⟩ := Option.map_eq_some_iff.mp hselector
    exact .inr (.inr ⟨channel, hchannel, .inr (.inl ⟨saved, hsaved, rfl⟩)⟩)
  · have hmem : feature ∈ channel.features.map Prod.fst := by
      rw [hfeatures]
      exact List.mem_filterMap.mpr ⟨aliases, haliases, hfeature⟩
    obtain ⟨saved, hsaved, rfl⟩ := List.mem_map.mp hmem
    exact .inr (.inr ⟨channel, hchannel, .inr (.inr ⟨saved, hsaved, rfl⟩)⟩)
  · rw [← hraw] at haddress
    obtain ⟨saved, hsaved, rfl⟩ := List.mem_map.mp haddress
    exact .inr (.inr ⟨channel, hchannel, .inl ⟨saved, hsaved, rfl⟩⟩)

theorem put_of_encode {encode : EventNode → Except GenApiError (List UInt8)} {node : EventNode}
    {bytes : List UInt8} (hnode : camera.node feature = some node)
    (hencode : encode node = .ok bytes) (s : EventSession) :
    (camera.put line feature encode s).2.memory = (if line.failure s.accesses = some false then
        s.memory else Function.update s.memory (camera.locate s.memory feature) bytes) ∧
      (camera.put line feature encode s).2.writes =
        s.writes ++ [(camera.locate s.memory feature, bytes)] := by
  unfold put
  rw [Attempt.bind_of_ok (show camera.findNode feature s = (.ok node, s) by
      simp only [findNode, hnode, Option.elim_some]; rfl),
    Attempt.bind_of_ok (show genApi (encode node) s = (.ok bytes, s) by rw [hencode]; rfl),
    Attempt.bind_of_ok (show Attempt.get s = (.ok s, s) from rfl), Attempt.bind_apply,
    EventSession.write]
  cases hfailure : line.failure s.accesses with
  | none => exact ⟨rfl, rfl⟩
  | some landed =>
    cases landed
    · exact ⟨rfl, rfl⟩
    · exact ⟨rfl, rfl⟩

theorem put_of_refused {encode : EventNode → Except GenApiError (List UInt8)}
    (h : ∀ node bytes, camera.node feature = some node → encode node ≠ .ok bytes)
    (s : EventSession) : SameRegisters s (camera.put line feature encode s).2 := by
  unfold put
  cases hnode : camera.node feature with
  | none =>
    rw [Attempt.bind_of_error (show camera.findNode feature s = (.error _, s) by
      simp only [findNode, hnode, Option.elim_none]; rfl)]
    exact ⟨rfl, rfl⟩
  | some node =>
    rw [Attempt.bind_of_ok (show camera.findNode feature s = (.ok node, s) by
      simp only [findNode, hnode, Option.elim_some]; rfl)]
    cases hencode : encode node with
    | ok bytes => exact absurd hencode (h node bytes hnode)
    | error e => exact ⟨rfl, rfl⟩

/-- The feature exists and takes the value it is given. -/
def Takes (camera : EventCamera) (aliases : List EventFeature)
    (encode : EventFeature → EventNode → Except GenApiError (List UInt8)) : Prop :=
  ∃ feature node bytes, camera.findAlias aliases = some feature ∧
    camera.node feature = some node ∧ encode feature node = .ok bytes

/-- Some feature of the channel takes the value the setup gives it. -/
def ChannelTakes (camera : EventCamera) (ip : UInt32) (port : UInt16) : Prop :=
  camera.Takes msgIp (fun feature node => node.encodeInteger feature.name (.ofNat ip.toNat)) ∨
    camera.Takes msgPort (fun feature node => node.encodeInteger feature.name (.ofNat port.toNat)) ∨
      camera.Takes msgEn fun feature node => node.encodeBool feature.name true

/-- The channel's selector rests on another entry than the first. -/
def Elsewhere (camera : EventCamera) (memory : EventMemory) : Prop :=
  ∃ selector target, camera.channelSelector = some selector ∧
    camera.firstEntry selector = some target ∧
    camera.selection memory selector ≠ camera.entryValue selector target

/-- The next access, which is to select the first channel, fails and does not reach the
selector; but the channel's features are set all the same. -/
def ChannelMissed (camera : EventCamera) (line : EventLine) (ip : UInt32) (port : UInt16)
    (s : EventSession) : Prop :=
  line.failure s.accesses = some false ∧ camera.ChannelTakes ip port ∧ camera.Elsewhere s.memory

variable {ip : UInt32} {port : UInt16}

theorem setEnum_keeps {entry : Text} (h : camera.Within selectors memory sent S s)
    (hmem : camera.locate s.memory feature ∈ S)
    (hown : camera.Own selectors (camera.locate s.memory feature)) :
    Ends (fun _ => camera.Within selectors memory sent S) (camera.Within selectors memory sent S)
      (camera.setEnum line feature entry s) :=
  put_keeps h hmem hown fun _ _ _ hbytes => EventNode.restorable_of_encodeEnum hbytes

theorem selectChannel_ends (h : camera.Within selectors memory sent S s)
    (hcovered : camera.Covered selectors S) (hheld : ∀ selector,
      camera.channelSelector = some selector → s.memory (.plain selector) = memory (.plain selector))
    (hfirsts : ∀ selector, camera.channelSelector = some selector →
      ∃ target, camera.firstEntry selector = some target ∧ (camera.entryValue selector target).isSome)
    (hselectable : camera.Selectable memory) (hmissed : ¬ camera.ChannelMissed line ip port s) :
    Ends (fun _ s' => camera.Within selectors memory sent S s' ∧
      (camera.Aligned s'.memory ∨ ¬ camera.ChannelTakes ip port)) (fun _ => False)
      (camera.selectChannel line s) := by
  unfold selectChannel
  cases hselector : camera.channelSelector with
  | none => exact ⟨h, .inl (aligned_of_none hselector _)⟩
  | some selector =>
    obtain ⟨target, htarget, hsome⟩ := hfirsts selector hselector
    have hplain := locate_channelSelector s.memory hselector
    have hkeeps : Ends (fun _ => camera.Within selectors memory sent S)
        (camera.Within selectors memory sent S) (camera.setEnum line selector target s) :=
      setEnum_keeps h (by rw [hplain]; exact hcovered.selector selector hselector)
        (by rw [hplain]; trivial)
    have haligned : camera.Aligned (camera.setEnum line selector target s).2.memory ∨
        ¬ camera.ChannelTakes ip port := by
      by_cases hencodes : ∃ node bytes, camera.node selector = some node ∧
          node.encodeEnum selector.name target = .ok bytes
      · obtain ⟨node, bytes, hnode, hencode⟩ := hencodes
        obtain ⟨value, hvalue⟩ := Option.isSome_iff_exists.mp hsome
        obtain ⟨hmemory, hwrites⟩ := @put_of_encode camera line selector
          (fun node => node.encodeEnum selector.name target) node bytes hnode hencode s
        by_cases hfailure : line.failure s.accesses = some false
        · rw [if_pos hfailure] at hmemory
          by_cases hselected : camera.selection s.memory selector = camera.entryValue selector target
          · exact .inl (hmemory ▸ aligned_of_selection hselector htarget hselected)
          · exact .inr fun htakes =>
              hmissed ⟨hfailure, htakes, selector, target, hselector, htarget, hselected⟩
        · rw [if_neg hfailure, hplain] at hmemory
          rw [hplain] at hwrites
          have hselection := selection_of_wrote hvalue hnode hencode ⟨hmemory, hwrites⟩
          exact .inl (aligned_of_selection hselector htarget (hselection.trans hvalue.symm))
      · have hsame := @put_of_refused camera line selector
          (fun node => node.encodeEnum selector.name target)
          (fun node bytes hnode hencode => hencodes ⟨node, bytes, hnode, hencode⟩) s
        have hselected := (hselectable selector target hselector htarget).resolve_right hencodes
        rw [← selection_congr (hheld selector hselector)] at hselected
        exact .inl (aligned_of_same (aligned_of_selection hselector htarget hselected) hsame)
    simp only [htarget]
    rcases hrun : camera.setEnum line selector target s with ⟨e | _, s'⟩
    · rw [hrun] at haligned
      simp only [Attempt.succeeds, hrun]
      exact ⟨hkeeps.stops hrun, haligned⟩
    · rw [hrun] at haligned
      simp only [Attempt.succeeds, hrun]
      exact ⟨hkeeps.returns hrun, haligned⟩

variable {aliases : List EventFeature}

theorem mem_channelFeatures_of_findAlias
    (haliases : aliases ∈ [msgIp, msgPort, msgEn]) {feature : EventFeature}
    (halias : camera.findAlias aliases = some feature) : feature ∈ channelFeatures := by
  have hmem := List.mem_of_find?_eq_some halias
  simp only [List.mem_cons, List.not_mem_nil, or_false] at haliases
  rcases haliases with rfl | rfl | rfl
  · exact List.mem_append_left _ (List.mem_append_left _ hmem)
  · exact List.mem_append_left _ (List.mem_append_right _ hmem)
  · exact List.mem_append_right _ hmem

variable {encode : EventFeature → EventNode → Except GenApiError (List UInt8)}

theorem setChannelFeature_ends (haliases : aliases ∈ [msgIp, msgPort, msgEn])
    (hencode : ∀ feature node bytes, encode feature node = .ok bytes →
      node.Restorable feature.name bytes)
    {Others : Prop} (hothers : ¬ Others → ¬ camera.Takes aliases encode)
    (hcovered : camera.Covered selectors S)
    (hfirsts : ∀ selector, camera.channelSelector = some selector →
      ∃ target, camera.firstEntry selector = some target ∧ (camera.entryValue selector target).isSome)
    (h : camera.Within selectors memory sent S s ∧ (camera.Aligned s.memory ∨ ¬ Others)) :
    Ends (fun _ s' => camera.Within selectors memory sent S s' ∧
        (camera.Aligned s'.memory ∨ ¬ Others)) (fun _ => False)
      (camera.setChannelFeature aliases (fun feature => camera.put line feature (encode feature)) s) := by
  obtain ⟨hwithin, hcase⟩ := h
  unfold setChannelFeature
  cases halias : camera.findAlias aliases with
  | none => exact ⟨hwithin, hcase⟩
  | some feature =>
    dsimp only
    have hfeature := mem_channelFeatures_of_findAlias haliases halias
    rcases hcase with haligned | hnone
    · have hlocate := haligned feature hfeature
      have hkeeps := @put_keeps camera line feature selectors memory sent S s (encode feature)
        hwithin (hlocate ▸ hcovered.features aliases haliases feature halias)
        (hlocate ▸ own_channelRegister hfeature hfirsts)
        (fun node bytes _ hbytes => hencode feature node bytes hbytes)
      refine Ends.succeeds ((hkeeps.and (put_ends s)).mono (fun _ s' hs => ?_) fun s' hs => ?_)
      · obtain ⟨hs, node, bytes, -, -, hwrote, -⟩ := hs
        rw [hlocate] at hwrote
        exact ⟨hs, .inl (hwrote.1 ▸ haligned.update hfeature bytes)⟩
      · obtain ⟨hs, hsame | ⟨node, bytes, -, -, hattempted⟩⟩ := hs
        · exact ⟨hs, .inl (aligned_of_same haligned hsame)⟩
        · rw [hlocate] at hattempted
          rcases hattempted.1 with hsame | hupdate
          · exact ⟨hs, .inl (hsame ▸ haligned)⟩
          · exact ⟨hs, .inl (hupdate ▸ haligned.update hfeature bytes)⟩
    · have hsame := @put_of_refused camera line feature (encode feature)
        (fun node bytes hnode hbytes => hothers hnone ⟨feature, node, bytes, halias, hnode, hbytes⟩) s
      exact ⟨hwithin.same hsame, .inr hnone⟩

theorem write_keeps {address : Nat} {bytes : List UInt8}
    (h : camera.Within selectors memory sent S s) (hmem : .bootstrap address ∈ S) :
    Ends (fun _ => camera.Within selectors memory sent S) (camera.Within selectors memory sent S)
      (EventSession.write line (.bootstrap address) bytes s) := by
  have hsettable : camera.Settable (.bootstrap address) bytes := fun _ _ hfeature => by cases hfeature
  exact (EventSession.write_ends line _ _ s).mono
    (fun _ _ hs => h.wrote hs.1 hmem trivial hsettable)
    fun _ hs => h.attempted hs hmem trivial hsettable

theorem enableEach_ends (hcovered : camera.Covered selectors S) {todo : List Text}
    (hsub : ∀ selector ∈ todo, selector ∈ selectors) :
    Ensures (camera.Within selectors memory sent S) (camera.enableEach line todo)
      (fun _ => camera.Within selectors memory sent S) (camera.Within selectors memory sent S) := by
  induction todo with
  | nil => exact fun s h => h
  | cons name rest ih =>
    intro s h
    obtain ⟨hmem, hsome⟩ := hcovered.notes name (hsub name (List.mem_cons_self ..))
    obtain ⟨value, hvalue⟩ := Option.isSome_iff_exists.mp hsome
    simp only [enableEach]
    have hselect : Ends (fun _ s' => camera.Within selectors memory sent S s' ∧
        camera.selection s'.memory .eventSelector = some value)
        (camera.Within selectors memory sent S) (camera.setEnum line .eventSelector name s) := by
      refine ((@setEnum_keeps camera line selectors memory sent S s .eventSelector name h
        hcovered.event trivial).and (put_ends s)).mono (fun _ s' hs => ?_) fun _ hs => hs.1
      obtain ⟨hs, node, bytes, hnode, hbytes, hwrote, -⟩ := hs
      exact ⟨hs, selection_of_wrote hvalue hnode hbytes hwrote⟩
    refine hselect.bind ?_
    rintro - s₁ ⟨hwithin, hselection⟩
    have hlocate := locate_notification (hselection.trans hvalue.symm)
    refine (setEnum_keeps hwithin (hlocate ▸ hmem) (hlocate ▸ own_notificationRegister
      (hsub name (List.mem_cons_self ..)) hsome)).bind fun _ s₂ hs => ?_
    exact ih (fun selector hselector => hsub selector (List.mem_cons_of_mem _ hselector)) s₂ hs

theorem configureEvents_ends (h : camera.Within selectors memory sent S s)
    (hcovered : camera.Covered selectors S) (hheld : ∀ selector,
      camera.channelSelector = some selector → s.memory (.plain selector) = memory (.plain selector))
    (hfirsts : ∀ selector, camera.channelSelector = some selector →
      ∃ target, camera.firstEntry selector = some target ∧ (camera.entryValue selector target).isSome)
    (hselectable : camera.Selectable memory) (hmissed : ¬ camera.ChannelMissed line ip port s) :
    Ends (fun _ => camera.Within selectors memory sent S) (camera.Within selectors memory sent S)
      (camera.configureEvents line ip port selectors s) := by
  have hstop : ∀ s : EventSession, False → camera.Within selectors memory sent S s :=
    fun _ h => h.elim
  have hinteger : ∀ (value : Int64) (feature : EventFeature) (node : EventNode) bytes,
      node.encodeInteger feature.name value = .ok bytes → node.Restorable feature.name bytes :=
    fun _ _ _ _ hbytes => EventNode.restorable_of_encodeInteger hbytes
  have hchannel : Ends (fun _ => camera.Within selectors memory sent S)
      (camera.Within selectors memory sent S) (camera.configureChannel line ip port s) := by
    unfold configureChannel
    refine ((selectChannel_ends h hcovered hheld hfirsts hselectable hmissed).mono
      (fun _ _ hs => hs) hstop).bind fun selected s₁ h₁ => ?_
    refine ((setChannelFeature_ends (by simp) (hinteger _) (fun hnone htakes => hnone (.inl htakes))
      hcovered hfirsts h₁).mono (fun _ _ hs => hs) hstop).bind fun addressed s₂ h₂ => ?_
    refine ((setChannelFeature_ends (by simp) (hinteger _)
      (fun hnone htakes => hnone (.inr (.inl htakes))) hcovered hfirsts h₂).mono
      (fun _ _ hs => hs) hstop).bind fun ported s₃ h₃ => ?_
    refine ((setChannelFeature_ends (by simp)
      (fun _ _ _ hbytes => EventNode.restorable_of_encodeBool hbytes)
      (fun hnone htakes => hnone (.inr (.inr htakes))) hcovered hfirsts h₃).mono
      (fun _ _ hs => hs) hstop).bind fun enabled s₄ h₄ => ?_
    exact h₄.1
  have henable : Ensures (camera.Within selectors memory sent S) (camera.enableEvents line selectors)
      (fun _ => camera.Within selectors memory sent S) (camera.Within selectors memory sent S) := by
    intro s₂ h₂
    unfold enableEvents
    split
    · exact h₂
    · exact enableEach_ends hcovered (fun _ hselector => hselector) s₂ h₂
  unfold configureEvents
  refine hchannel.bind fun configured s₁ h₁ => ?_
  cases configured with
  | true => exact henable s₁ h₁
  | false =>
    have hraw : Ends (fun _ => camera.Within selectors memory sent S)
        (camera.Within selectors memory sent S) (configureMessageChannelRaw line ip port s₁) := by
      refine (write_keeps h₁ (hcovered.raw _ (by simp))).bind fun _ s₂ h₂ => ?_
      exact write_keeps h₂ (hcovered.raw _ (by simp))
    exact hraw.bind fun _ s₂ h₂ => henable s₂ h₂

theorem restoreSelectors_ends (hall : camera.AllSettable memory)
    (hsaved : camera.Saved selectors memory saved) (hevent : saved.eventSelector.isSome)
    (hchannel : ∃ channel, saved.channel = some channel ∧
      channel.selector.map Prod.fst = camera.channelSelector)
    (h : camera.Within selectors memory sent S s) :
    Ends (fun _ s' => camera.Within selectors memory sent S s' ∧
        s'.memory (.plain .eventSelector) = memory (.plain .eventSelector) ∧
        ∀ selector, camera.channelSelector = some selector →
          s'.memory (.plain selector) = memory (.plain selector))
      (camera.Within selectors memory sent S) (camera.restoreSelectors line saved s) := by
  obtain ⟨text, htext⟩ := Option.isSome_iff_exists.mp hevent
  obtain ⟨channel, hchannel, hname⟩ := hchannel
  unfold restoreSelectors
  simp only [htext, hchannel, Option.bind_some]
  refine ((@setIfChanged_restores camera line .eventSelector selectors memory sent S s text h hall
    trivial (hsaved.eventSelector _ htext)).mono (fun _ _ hs => hs) fun _ hs => hs.1).bind ?_
  rintro - s₁ ⟨h₁, hmemory₁⟩
  have hheld₁ : s₁.memory (.plain .eventSelector) = memory (.plain .eventSelector) := by
    rw [hmemory₁]
    exact Function.update_self ..
  have hwithin₁ := h₁.mono (T := S) Set.sdiff_subset
  cases hselector : channel.selector with
  | none =>
    refine ⟨hwithin₁, hheld₁, fun selector hsome => ?_⟩
    rw [hselector] at hname
    cases hname.trans hsome
  | some saved =>
    obtain ⟨name, previous, target⟩ := saved
    obtain ⟨hfound, -, -, hshows⟩ := (hsaved.channel channel hchannel).selector _ _ _ hselector
    have hplain := locate_channelSelector s₁.memory hfound
    refine (setIfChanged_restores hwithin₁ hall (by rw [hplain]; trivial) (by rwa [hplain])).mono
      (fun _ s₂ hs => ?_) fun _ hs => hs.1
    obtain ⟨h₂, hmemory₂⟩ := hs
    rw [hplain] at hmemory₂
    refine ⟨h₂.mono Set.sdiff_subset, ?_, fun selector hsome => ?_⟩
    · rw [hmemory₂, Function.update_of_ne, hheld₁]
      rcases channelSelector_cases hfound with rfl | rfl
      · exact fun heq => (by cases heq)
      · exact fun heq => (by cases heq)
    · cases hfound.symm.trans hsome
      rw [hmemory₂, Function.update_self]

/-- What a setup leaves wherever it stops. -/
structure Ended (camera : EventCamera) (selectors : List Text) (memory : EventMemory)
    (sent : List (EventRegister × List UInt8)) (st : EventSession × EventConfiguration) : Prop where
  saved : camera.Saved selectors memory st.2
  within : camera.Within selectors memory sent (camera.savedRegisters st.2) st.1

/-- What a setup leaves that succeeds. -/
structure SetUp (camera : EventCamera) (selectors : List Text) (memory : EventMemory)
    (sent : List (EventRegister × List UInt8)) (st : EventSession × EventConfiguration) : Prop where
  ended : camera.Ended selectors memory sent st
  covered : camera.Covered selectors (camera.savedRegisters st.2)
  event : st.1.memory (.plain .eventSelector) = memory (.plain .eventSelector)
  channel : ∀ selector, camera.channelSelector = some selector →
    st.1.memory (.plain selector) = memory (.plain selector)

theorem setUp_ends (hall : camera.AllSettable s.memory)
    (hcoherent : camera.Coherent s .eventSelector)
    (hmissed : ∀ st, camera.prepare line selectors (s, camera.nothingSaved) = (.ok (), st) →
      ¬ camera.ChannelMissed line ip port st.1) :
    Ends (fun _ => camera.SetUp selectors s.memory s.writes)
      (camera.Ended selectors s.memory s.writes)
      (camera.setUp line ip port selectors (s, camera.nothingSaved)) := by
  have hprepare := @prepare_ends camera line selectors s hall hcoherent
  unfold setUp
  rcases hrun : camera.prepare line selectors (s, camera.nothingSaved) with ⟨e | _, s₁, saved⟩
  · rw [Attempt.bind_of_error hrun]
    have hsnapshot := hprepare.stops hrun
    exact ⟨hsnapshot.saved, hsnapshot.within.mono (selectorRegisters_subset _)⟩
  · rw [Attempt.bind_of_ok hrun]
    have hprepared := hprepare.returns hrun
    have hsaved := hprepared.taken.snapshot.saved
    have hcovered := hprepared.covered
    have hwithin := hprepared.taken.snapshot.within.mono (@selectorRegisters_subset camera _)
    refine Ends.bind (Q := fun _ st => saved = st.2 ∧
      camera.Within selectors s.memory s.writes (camera.savedRegisters saved) st.1) ?_ ?_
    · exact Ends.first ((configureEvents_ends hwithin hcovered hprepared.held hprepared.firsts
        hprepared.selectable (hmissed _ hrun)).mono (fun _ _ hs => ⟨rfl, hs⟩)
        fun _ hs => ⟨hsaved, hs⟩)
    rintro - ⟨s₂, _⟩ ⟨rfl, hwithin₂⟩
    rw [Attempt.bind_of_ok (show Attempt.get _ = (.ok _, _) from rfl)]
    obtain ⟨channel, hchannel, -, hselector, -⟩ := hprepared.taken.channel
    refine Ends.first ((restoreSelectors_ends hall hsaved hprepared.taken.event
      ⟨channel, hchannel, hselector⟩ hwithin₂).mono (fun _ s₃ hs => ?_) fun _ hs => ⟨hsaved, hs⟩)
    exact ⟨⟨hsaved, hs.1⟩, hcovered, hs.2.1, hs.2.2⟩

/-- The writes sent begin with `log`. -/
def Longer (log : List (EventRegister × List UInt8)) (s : EventSession) : Prop := log <+: s.writes

theorem Longer.step {log : List (EventRegister × List UInt8)} {s' : EventSession}
    (h : Longer log s) {more : List (EventRegister × List UInt8)}
    (hwrites : s'.writes = s.writes ++ more) : Longer log s' :=
  h.trans ⟨more, hwrites.symm⟩

variable {log : List (EventRegister × List UInt8)}

theorem Longer.same (h : Longer log s) (hsame : SameRegisters s s') : Longer log s' :=
  h.step (hsame.2.trans (List.append_nil _).symm)

theorem put_longer {encode : EventNode → Except GenApiError (List UInt8)} :
    Ensures (Longer log) (camera.put line feature encode) (fun _ => Longer log) (Longer log) := by
  intro s h
  refine (put_ends s).mono ?_ ?_
  · rintro - s' ⟨_, _, -, -, hwrote, -⟩
    exact h.step hwrote.2
  · rintro s' (hsame | ⟨_, _, -, -, hattempted⟩)
    · exact h.same hsame
    · exact h.step hattempted.2

theorem setIfChanged_longer {value : Text} :
    Ensures (Longer log) (camera.setIfChanged line feature value) (fun _ => Longer log)
      (Longer log) := by
  intro s h
  refine (setIfChanged_ends s).mono ?_ ?_
  · rintro - s' ⟨-, ⟨hsame, -⟩ | ⟨_, _, -, -, hwrote, -⟩⟩
    · exact h.same hsame
    · exact h.step hwrote.2
  · rintro s' (hsame | ⟨_, _, -, -, hattempted⟩)
    · exact h.same hsame
    · exact h.step hattempted.2

theorem write_longer {bytes : List UInt8} :
    Ensures (Longer log) (EventSession.write line register bytes) (fun _ => Longer log)
      (Longer log) := by
  intro s h
  exact (EventSession.write_ends line _ _ s).mono (fun _ _ hs => h.step hs.1.2)
    fun _ hs => h.step hs.2

theorem enableEvents_longer {ids : List Text} :
    Ensures (Longer log) (camera.enableEvents line ids) (fun _ => Longer log) (Longer log) := by
  have heach : Ensures (Longer log) (camera.enableEach line ids) (fun _ => Longer log)
      (Longer log) := by
    induction ids with
    | nil => exact fun s h => h
    | cons name rest ih => exact put_longer.bind fun _ => put_longer.bind fun _ => ih
  intro s h
  unfold enableEvents
  split
  · exact h
  · exact heach s h

theorem restoreSelectors_longer :
    Ensures (Longer log) (camera.restoreSelectors line saved) (fun _ => Longer log) (Longer log) := by
  unfold restoreSelectors
  cases saved.channel.bind EventChannel.selector with
  | none =>
    cases saved.eventSelector with
    | none => exact fun s h => h
    | some text => exact setIfChanged_longer.bind fun _ s h => h
  | some selector =>
    cases saved.eventSelector with
    | none => exact setIfChanged_longer
    | some text => exact setIfChanged_longer.bind fun _ => setIfChanged_longer

theorem restoreStep_longer {log : List (EventRegister × List UInt8)} {setting : Text}
    {restore : EventStep Unit} {r : Restoration}
    (hrestore : Ensures (Longer log) restore (fun _ => Longer log) (Longer log))
    (h : Longer log r.session) : Longer log (restoreStep line setting restore r).2.session :=
  (@restoreStep_restored line setting restore r (Longer log) (fun _ => True) (fun _ => True)
    ⟨h, fun _ => trivial⟩ (fun hs => hrestore _ hs)
    fun hs _ => (hrestore _ hs).mono (fun _ _ _ => trivial) fun _ _ => trivial).1

theorem restoreEvents_longer (h : Longer log s)
    (saved : EventConfiguration) : Longer log (camera.restoreEvents line saved s).session := by
  have hnotifications : ∀ (notes : List (Text × Text)) {r : Restoration}, Longer log r.session →
      Longer log (camera.restoreNotifications line notes r).session := by
    intro notes
    induction notes with
    | nil => exact fun h => h
    | cons note rest ih =>
      intro r hr
      have hselected := @restoreStep_longer line log EventFeature.eventSelector.name
        (camera.setIfChanged line .eventSelector note.1) r setIfChanged_longer hr
      simp only [restoreNotifications]
      split
      · exact ih (restoreStep_longer setIfChanged_longer hselected)
      · split
        · exact hselected
        · exact ih hselected
  have hselector : ∀ (previous : Option (EventFeature × Text)) {r : Restoration},
      Longer log r.session → Longer log (camera.restoreSelector line previous r).2.session := by
    intro previous r hr
    cases previous with
    | none => exact hr
    | some saved => exact restoreStep_longer setIfChanged_longer hr
  have hfeatures : ∀ (features : List (EventFeature × Text)) {r : Restoration},
      Longer log r.session → Longer log (camera.restoreFeatures line features r).session := by
    intro features r hr
    induction features with
    | nil => exact hr
    | cons saved rest ih => exact restoreStep_longer setIfChanged_longer ih
  have hraw : ∀ (raw : List (Nat × List UInt8)) {r : Restoration},
      Longer log r.session → Longer log (restoreRaw line raw r).session := by
    intro raw r hr
    induction raw with
    | nil => exact hr
    | cons saved rest ih =>
      refine restoreStep_longer ?_ ih
      intro s hs
      unfold restoreRegister
      refine ((EventSession.read_ends line _ s).mono (fun _ s' hr => hs.same hr.1)
        fun s' hr => hs.same hr.1).bind fun bytes s' hs' => ?_
      split
      · exact hs'
      · exact write_longer s' hs'
  unfold restoreEvents
  split
  · exact h
  · split
    · exact h
    · unfold restoreSaved
      have hselected := hselector (saved.eventSelector.map fun previous => (.eventSelector, previous))
        (@hnotifications saved.notifications ⟨.empty, s⟩ h)
      split
      · unfold restoreChannel
        apply hselector
        apply hraw
        split
        · exact hfeatures _ (hselector _ hselected)
        · exact hselector _ hselected
      · exact hselected

/-- A write that the setup should not make was sent, after those of `log`. -/
def Strayed (camera : EventCamera) (selectors : List Text) (log : List (EventRegister × List UInt8))
    (s : EventSession) : Prop :=
  ∃ before write, log <+: before ∧ before ++ [write] <+: s.writes ∧ ¬ camera.Own selectors write.1

theorem Strayed.not_own (h : camera.Strayed selectors sent s) :
    ¬ ∃ new, s.writes = sent ++ new ∧ ∀ write ∈ new, camera.Own selectors write.1 := by
  rintro ⟨new, hwrites, hown⟩
  obtain ⟨before, write, ⟨earlier, rfl⟩, ⟨later, hlater⟩, hnot⟩ := h
  rw [hwrites, List.append_assoc, List.append_assoc, List.append_cancel_left_eq] at hlater
  exact hnot (hown write (by simp [← hlater]))

theorem Strayed.longer (h : camera.Strayed selectors sent s)
    (hlonger : Longer s.writes s') : camera.Strayed selectors sent s' := by
  obtain ⟨before, write, hbefore, hwrite, hnot⟩ := h
  exact ⟨before, write, hbefore, hwrite.trans hlonger, hnot⟩

theorem Elsewhere.not_own (h : camera.Elsewhere memory) (hfeature : feature ∈ channelFeatures) :
    ¬ camera.Own selectors (camera.locate memory feature) := by
  obtain ⟨selector, target, hselector, htarget, hother⟩ := h
  have hnot : ¬ ∃ selector target value, camera.channelSelector = some selector ∧
      camera.firstEntry selector = some target ∧ camera.entryValue selector target = some value ∧
      camera.selection memory selector = some value := by
    rintro ⟨selector', target', value, hselector', htarget', hvalue, hselection⟩
    cases hselector.symm.trans hselector'
    cases htarget.symm.trans htarget'
    exact hother (hselection.trans hvalue.symm)
  rw [locate_channelFeature memory hfeature]
  simp only [channelFeatures, msgIp, msgPort, msgEn, List.cons_append, List.nil_append,
    List.mem_cons, List.not_mem_nil, or_false] at hfeature
  simp only [hselector]
  rintro hown
  apply hnot
  rcases hfeature with rfl | rfl | rfl | rfl | rfl | rfl
  all_goals
    obtain ⟨selector', target', value, hselector', htarget', hvalue, heq⟩ := hown
    cases hselector.symm.trans hselector'
    exact ⟨selector, target', value, hselector', htarget', hvalue, heq⟩

theorem Elsewhere.same (h : camera.Elsewhere s.memory)
    (hsame : SameRegisters s s') : camera.Elsewhere s'.memory := by
  rw [hsame.1]
  exact h

theorem Elsewhere.update (h : camera.Elsewhere memory) (hfeature : feature ∈ channelFeatures)
    (bytes : List UInt8) :
    camera.Elsewhere (Function.update memory (camera.locate memory feature) bytes) := by
  obtain ⟨selector, target, hselector, htarget, hother⟩ := h
  refine ⟨selector, target, hselector, htarget, ?_⟩
  rw [selection_congr]
  · exact hother
  · apply Function.update_of_ne
    rw [locate_channelFeature memory hfeature]
    simp only [hselector]
    exact fun heq => by cases heq

theorem selectChannel_elsewhere (h : camera.Elsewhere s.memory)
    (hfailure : line.failure s.accesses = some false) :
    Ends (fun _ s' => camera.Elsewhere s'.memory ∧ Longer s.writes s') (fun _ => False)
      (camera.selectChannel line s) := by
  obtain ⟨selector, target, hselector, htarget, hother⟩ := id h
  unfold selectChannel
  simp only [hselector, htarget]
  by_cases hencodes : ∃ node bytes, camera.node selector = some node ∧
      node.encodeEnum selector.name target = .ok bytes
  · obtain ⟨node, bytes, hnode, hencode⟩ := hencodes
    obtain ⟨hmemory, hwrites⟩ := @put_of_encode camera line selector
      (fun node => node.encodeEnum selector.name target) node bytes hnode hencode s
    rw [if_pos hfailure] at hmemory
    exact ⟨show camera.Elsewhere (camera.put line selector _ s).2.memory from hmemory ▸ h,
      _, hwrites.symm⟩
  · have hsame := @put_of_refused camera line selector
      (fun node => node.encodeEnum selector.name target)
      (fun node bytes hnode hencode => hencodes ⟨node, bytes, hnode, hencode⟩) s
    exact ⟨h.same hsame, [], (List.append_nil _).trans hsame.2.symm⟩

theorem setChannelFeature_elsewhere (selectors : List Text)
    (haliases : aliases ∈ [msgIp, msgPort, msgEn]) (h : camera.Elsewhere s.memory) :
    Ends (fun _ s' => camera.Elsewhere s'.memory ∧ Longer s.writes s' ∧
        (camera.Takes aliases encode → camera.Strayed selectors s.writes s')) (fun _ => False)
      (camera.setChannelFeature aliases (fun feature => camera.put line feature (encode feature)) s) := by
  unfold setChannelFeature
  cases halias : camera.findAlias aliases with
  | none =>
    refine ⟨h, List.prefix_rfl, ?_⟩
    rintro ⟨feature, _, _, hfound, -⟩
    cases halias.symm.trans hfound
  | some feature =>
    have hfeature := mem_channelFeatures_of_findAlias haliases halias
    by_cases hencodes : ∃ node bytes, camera.node feature = some node ∧
        encode feature node = .ok bytes
    · obtain ⟨node, bytes, hnode, hencode⟩ := hencodes
      obtain ⟨hmemory, hwrites⟩ := @put_of_encode camera line feature (encode feature) node bytes
        hnode hencode s
      refine ⟨?_, ⟨_, hwrites.symm⟩, fun _ => ⟨s.writes,
        (camera.locate s.memory feature, bytes), List.prefix_rfl, ⟨[], ?_⟩, h.not_own hfeature⟩⟩
      · split at hmemory
        · exact show camera.Elsewhere (camera.put line feature _ s).2.memory from hmemory ▸ h
        · exact show camera.Elsewhere (camera.put line feature _ s).2.memory from
            hmemory ▸ h.update hfeature bytes
      · rw [List.append_nil]
        exact hwrites.symm
    · have hsame := @put_of_refused camera line feature (encode feature)
        (fun node bytes hnode hencode => hencodes ⟨node, bytes, hnode, hencode⟩) s
      refine ⟨h.same hsame, ⟨[], (List.append_nil _).trans hsame.2.symm⟩, ?_⟩
      rintro ⟨other, node, bytes, hfound, hnode, hencode⟩
      cases halias.symm.trans hfound
      exact absurd ⟨node, bytes, hnode, hencode⟩ hencodes

theorem Strayed.of_longer (h : camera.Strayed selectors log s) (hlonger : sent <+: log) :
    camera.Strayed selectors sent s := by
  obtain ⟨before, write, hbefore, hwrite, hnot⟩ := h
  exact ⟨before, write, hlonger.trans hbefore, hwrite, hnot⟩

theorem configureChannel_strays (selectors : List Text)
    (hmissed : camera.ChannelMissed line ip port s)
    (hsent : Longer sent s) :
    Ends (fun _ => camera.Strayed selectors sent) (fun _ => False)
      (camera.configureChannel line ip port s) := by
  obtain ⟨hfailure, htakes, helsewhere⟩ := hmissed
  unfold configureChannel
  refine (selectChannel_elsewhere helsewhere hfailure).bind ?_
  rintro selected s₁ ⟨h₁, hlonger₁⟩
  refine (setChannelFeature_elsewhere selectors (by simp) h₁).bind ?_
  rintro addressed s₂ ⟨h₂, hlonger₂, hip⟩
  refine (setChannelFeature_elsewhere selectors (by simp) h₂).bind ?_
  rintro ported s₃ ⟨h₃, hlonger₃, hport⟩
  refine (setChannelFeature_elsewhere selectors (by simp) h₃).bind ?_
  rintro enabled s₄ ⟨-, hlonger₄, hen⟩
  have hsent₁ : sent <+: s₁.writes := hsent.trans hlonger₁
  have hsent₂ : sent <+: s₂.writes := hsent₁.trans hlonger₂
  rcases htakes with htakes | htakes | htakes
  · exact (((hip htakes).of_longer hsent₁).longer hlonger₃).longer hlonger₄
  · exact ((hport htakes).of_longer hsent₂).longer hlonger₄
  · exact (hen htakes).of_longer (hsent₂.trans hlonger₃)

theorem setUp_strays {start : EventSession × EventConfiguration}
    (hprepare : camera.prepare line selectors start = (.ok (), s, saved))
    (hmissed : camera.ChannelMissed line ip port s) (hsent : Longer sent s) :
    Ends (fun _ st => camera.Strayed selectors sent st.1)
      (fun st => camera.Strayed selectors sent st.1)
      (camera.setUp line ip port selectors start) := by
  unfold setUp
  rw [Attempt.bind_of_ok hprepare]
  have hconfigure : Ends (fun _ => camera.Strayed selectors sent) (camera.Strayed selectors sent)
      (camera.configureEvents line ip port selectors s) := by
    unfold configureEvents
    refine ((configureChannel_strays selectors hmissed hsent).mono (fun _ _ h => h) fun _ h => h.elim).bind ?_
    intro configured s₁ h₁
    have henable : ∀ s₂, Longer s₁.writes s₂ → Ends (fun _ => camera.Strayed selectors sent)
        (camera.Strayed selectors sent) (camera.enableEvents line selectors s₂) := fun s₂ h₂ =>
      (enableEvents_longer s₂ h₂).mono (fun _ _ h => h₁.longer h) fun _ h => h₁.longer h
    cases configured with
    | true => exact henable s₁ List.prefix_rfl
    | false =>
      have hraw : Ends (fun _ => Longer s₁.writes) (Longer s₁.writes)
          (configureMessageChannelRaw line ip port s₁) :=
        (write_longer s₁ List.prefix_rfl).bind fun _ s₂ h₂ => write_longer s₂ h₂
      exact (hraw.mono (fun _ _ h => h) fun _ h => h₁.longer h).bind fun _ s₂ h₂ => henable s₂ h₂
  refine Ends.bind (Q := fun _ st => camera.Strayed selectors sent st.1) (Ends.first hconfigure) ?_
  rintro - ⟨s₁, saved₁⟩ h₁
  rw [Attempt.bind_of_ok (show Attempt.get _ = (.ok _, _) from rfl)]
  exact Ends.first ((restoreSelectors_longer s₁ List.prefix_rfl).mono
    (fun _ _ h => Strayed.longer h₁ h) fun _ h => Strayed.longer h₁ h)

end EventCamera

end VivaGenicam.Camera
