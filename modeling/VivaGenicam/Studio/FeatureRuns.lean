import VivaGenicam.Studio.FeatureReads

/-!
What every run of the store keeps. A bulk load is the one read that lands
whatever happened since it was sent, and forgetting a feature that is off screen
leaves its read in flight; where neither meets a newer state, and a read that
was to replace a superseded state does not fail, no superseded state is kept.
-/

namespace VivaGenicam.Studio

open Library.Transition

variable {id : Nat}

namespace World

variable {Name V : Type} [DecidableEq Name]

/-- The feature can do without the read: what is held of it is not superseded,
or it is read again anyway. -/
def Covered (w : World Name V) (name : Name) (read : Read Name) : Prop :=
  (∀ id, (w.store.view name).heldFrom = some id → w.superseded name ≤ id) ∨
    (w.store.view name).queued = true ∨
      ∃ other, w.shared.Lands name (w.store.view name).version other ∧ other.id ≠ read.id ∧
        w.superseded name ≤ other.id

/-- A load is not out of date for a feature it answers. -/
def UpToDate (w : World Name V) (name : Name) (read : Read Name) : Prop :=
  (w.superseded name ≤ read.id ∨ (w.store.view name).queued = true) ∧
    ∀ id, (w.store.view name).heldFrom = some id → id ≤ read.id

/-- The events that keep no superseded state. -/
def Meets (w : World Name V) : Event Name V → Prop
  | .invalidate names => ∀ name ∈ names, (w.store.view name).watched = false →
      ∀ read, ¬w.shared.Newest name (w.store.view name).version read
  | .answer id states => ∀ read ∈ w.inFlight, read.id = id →
      read.generation = w.store.generation →
        (read.tickets = none → ∀ name ∈ states.map (·.1), w.UpToDate name read) ∧
          ∀ name ∈ read.names, name ∉ states.map (·.1) → w.Covered name read
  | .fail id => ∀ read ∈ w.inFlight, read.id = id → read.generation = w.store.generation →
      ∀ name ∈ read.names, w.Covered name read
  | _ => True

structure Inv (w : World Name V) : Prop where
  shared : w.shared.Inv
  feature : ∀ name, w.shared.FeatureInv name (w.feature name)

theorem inv_init : Inv ({} : World Name V) where
  shared :=
    { id_lt := nofun
      distinct := nofun
      generation_le := nofun
      recent := nofun
      restarted_le := le_refl _
      disabled := fun _ => ⟨rfl, nofun⟩
      named := nofun }
  feature _ :=
    { ticket_le := nofun
      superseded_le := le_refl _
      quiet := fun _ => rfl
      held := nofun
      fresh := .inl nofun
      newest := fun _ hread => nomatch hread.mem
      later := fun _ hread => nomatch hread.mem
      unique := fun _ _ hread => nomatch hread.mem
      polled := fun henabled => nomatch henabled }

variable {store : FeatureStore Name (V × Origin)}

theorem inv_of_store {w : World Name V} (hw : w.Inv)
    {superseded : Name → Nat} (hgeneration : store.generation = w.store.generation)
    (henabled : store.enabled = w.store.enabled)
    (hfeature : ∀ name, w.shared.FeatureInv name
      { w.feature name with view := store.view name, superseded := superseded name }) :
    Inv { w with store, superseded } := by
  have hshared : World.shared { w with store, superseded } = w.shared := by
    simp only [World.shared, hgeneration, henabled]
  exact ⟨hshared ▸ hw.shared, fun name => hshared ▸ hfeature name⟩

theorem inv_subscribe {w : World Name V} (hw : w.Inv) (name : Name) (listener : Listener) :
    Inv { w with store := w.store.subscribe name listener } := by
  apply inv_of_store hw (by simp) (by simp)
  intro other
  obtain ⟨asks, hview, henabled, hasks⟩ := w.store.view_subscribe name other listener
  rw [hview]
  split
  · rename_i heq
    subst heq
    refine (hw.feature other).queueing rfl rfl rfl rfl rfl (fun hq => ?_) (fun hdisabled => ?_)
      fun hon _ hpolled => ?_
    · have hq : (w.store.view other).queued = true := hq
      simp [hq]
    · have hquiet : (w.store.view other).queued = false := (hw.feature other).quiet hdisabled
      have hnot : asks = false := by
        cases hcase : asks with
        | false => rfl
        | true =>
          have hdisabled : w.store.enabled = false := hdisabled
          simp [henabled hcase] at hdisabled
      simp [hquiet, hnot]
    · cases hwatched : (w.store.view other).watched with
      | true => exact .inr ⟨hwatched, .inl⟩
      | false =>
        obtain ⟨state, hheld, hinterval⟩ := hpolled
        have hasked := hasks hwatched hon state hheld hinterval
        simp [hasked]
  · exact hw.feature other

variable {name : Name}

theorem inv_unsubscribe {w : World Name V} (hw : w.Inv) {listener : Listener}
    (h : listener ∈ w.store.listenersOf name) :
    Inv { w with store := w.store.unsubscribe w.now name listener } := by
  apply inv_of_store hw (by simp) (by simp)
  intro other
  rcases @FeatureStore.view_unsubscribe _ _ _ w.now _ _ _ h other with hview | ⟨-, hview⟩
  · rw [hview]
    exact hw.feature other
  · rw [hview]
    exact (hw.feature other).queueing rfl rfl rfl rfl rfl id (hw.feature other).quiet
      fun _ hwatched _ => nomatch hwatched

theorem inv_set {w : World Name V} (hw : w.Inv) (name : Name) (state : FeatureState V) :
    Inv (w.step (.set name state)) := by
  apply inv_of_store hw (by simp) (by simp)
  intro other
  rw [FeatureStore.view_set]
  rcases eq_or_ne other name with rfl | hne
  · simp only [if_true, Function.update_self]
    exact (hw.feature other).set state
  · rw [if_neg hne, Function.update_of_ne hne]
    exact hw.feature other

theorem inv_setMany {w : World Name V} (hw : w.Inv) {states : List (Name × FeatureState V)}
    (hnodup : (states.map (·.1)).Nodup) :
    Inv { w with
      store := w.store.setMany w.now (states.map fun entry => (entry.1, entry.2.tag .given))
      superseded := fun name =>
        if name ∈ states.map (·.1) then w.sent else w.superseded name } := by
  apply inv_of_store hw (by simp) (by simp)
  intro other
  have hnames : (states.map fun entry => (entry.1, entry.2.tag Origin.given)).map (·.1) =
      states.map (·.1) := by simp
  by_cases hmem : other ∈ states.map (·.1)
  · obtain ⟨entry, hentry, rfl⟩ := List.mem_map.mp hmem
    have htagged : (entry.1, entry.2.tag Origin.given) ∈
        states.map fun entry => (entry.1, entry.2.tag Origin.given) :=
      List.mem_map.mpr ⟨entry, hentry, rfl⟩
    rw [if_pos hmem, FeatureStore.view_setMany_of_mem (hnames ▸ hnodup) htagged]
    exact (hw.feature entry.1).set entry.2
  · rw [if_neg hmem, FeatureStore.view_setMany_of_not_mem (hnames ▸ hmem)]
    exact hw.feature other

theorem inv_invalidate {w : World Name V} (hw : w.Inv) {names : List Name}
    (h : w.Meets (.invalidate names)) : Inv (w.step (.invalidate names)) := by
  apply inv_of_store hw (by simp) (by simp)
  intro name
  rw [FeatureStore.view_invalidate]
  by_cases hmem : name ∈ names
  · simp only [hmem, if_true]
    split
    · exact (hw.feature name).invalidateShown hw.shared
    · rename_i hwatched
      have hwatched : (w.store.view name).watched = false := Bool.eq_false_iff.mpr hwatched
      exact (hw.feature name).invalidateHidden hwatched (h name hmem hwatched)
  · simp only [hmem, if_false]
    exact hw.feature name

theorem inv_refresh {w : World Name V} (hw : w.Inv) : Inv (w.step .refresh) := by
  have hgeneration : w.store.refresh.generation = w.store.generation := by
    simp [FeatureStore.refresh]
  have henabled : w.store.refresh.enabled = w.store.enabled := by simp [FeatureStore.refresh]
  apply inv_of_store hw hgeneration henabled
  intro name
  rw [FeatureStore.view_refresh]
  split
  · refine (hw.feature name).queueing rfl rfl rfl rfl rfl (fun hq => ?_) (fun hdisabled => ?_)
      fun hon _ _ => ?_
    · have hq : (w.store.view name).queued = true := hq
      simp [FeatureView.request, hq]
    · have hquiet : (w.store.view name).queued = false := (hw.feature name).quiet hdisabled
      have hdisabled : w.store.enabled = false := hdisabled
      simp [FeatureView.request, hquiet, hdisabled]
    · have hon : w.store.enabled = true := hon
      simp [FeatureView.request, hon]
  · exact hw.feature name

theorem inv_timer {w : World Name V} (hw : w.Inv) :
    Inv { w with store := w.store.pollDue w.now } := by
  apply inv_of_store hw (by simp) (by simp)
  intro name
  rcases w.store.view_pollDue w.now name with hview | hview
  · rw [hview]
    exact hw.feature name
  · rw [hview]
    refine (hw.feature name).queueing rfl rfl rfl rfl rfl (fun hq => ?_) (fun hdisabled => ?_)
      fun hon hwatched _ => ?_
    · have hq : (w.store.view name).queued = true := hq
      simp [hq]
    · have hquiet : (w.store.view name).queued = false := (hw.feature name).quiet hdisabled
      have hdisabled : w.store.enabled = false := hdisabled
      simp [hquiet, hdisabled]
    · have hon : w.store.enabled = true := hon
      have hwatched : (w.store.view name).watched = true := hwatched
      simp [hon, hwatched]

theorem inv_startOver {w : World Name V} (hw : w.Inv)
    (hgeneration : store.generation = w.store.generation + 1)
    (hview : ∀ name, ∃ queued, (store.enabled = false → queued = false) ∧
      store.view name = { w.store.view name with held := none, queued, isDue := false }) :
    Inv { w with store, restarted := w.sent } where
  shared :=
    { id_lt := hw.shared.id_lt
      distinct := hw.shared.distinct
      generation_le := fun read hread => by
        have hle := hw.shared.generation_le read hread
        change read.generation ≤ store.generation
        rw [hgeneration]
        exact hle.trans (Nat.le_succ _)
      recent := fun read hread heq => by
        have hle : read.generation ≤ w.store.generation := hw.shared.generation_le read hread
        have heq : read.generation = store.generation := heq
        omega
      restarted_le := le_refl _
      disabled := fun _ => ⟨rfl, fun read hread heq => by
        have hle : read.generation ≤ w.store.generation := hw.shared.generation_le read hread
        have heq : read.generation = store.generation := heq
        omega⟩
      named := hw.shared.named }
  feature name := by
    obtain ⟨queued, hqueued, hsame⟩ := hview name
    have hover := (hw.feature name).startOver hw.shared hqueued
    have hshared : World.shared { w with store, restarted := w.sent } =
        { w.shared with
          generation := w.shared.generation + 1, enabled := store.enabled
          restarted := w.shared.sent } := by
      simp only [World.shared, hgeneration]
    rw [hshared]
    have hfeature : World.feature { w with store, restarted := w.sent } name =
        { w.feature name with
          view := { (w.feature name).view with held := none, queued, isDue := false } } := by
      simp only [World.feature, hsame]
    rw [hfeature]
    exact hover

theorem inv_clear {w : World Name V} (hw : w.Inv) : Inv (w.step .clear) := by
  apply inv_startOver hw (by simp)
  intro name
  exact ⟨false, fun _ => rfl, FeatureStore.view_clear w.now w.store name⟩

theorem inv_setEnabled {w : World Name V} (hw : w.Inv) {enabled : Bool}
    (h : enabled ≠ w.store.enabled) :
    Inv { w with store := w.store.setEnabled w.now enabled, restarted := w.sent } := by
  apply inv_startOver hw (FeatureStore.setEnabled_generation h)
  intro name
  refine ⟨_, fun hdisabled => ?_, FeatureStore.view_setEnabled h name⟩
  rw [FeatureStore.setEnabled_enabled] at hdisabled
  rw [hdisabled]
  rfl

variable {sent : Sent Name}

theorem shared_send {w : World Name V} (hw : w.shared.Inv)
    (henabled : w.store.enabled = true) (hgeneration : sent.generation = w.store.generation)
    (hnamed : ∀ tickets, sent.tickets = some tickets → ∀ name version,
      tickets name = some version → name ∈ sent.names) : (w.send sent).shared.Inv where
  id_lt read hread := by
    rcases List.mem_append.mp hread with hmem | hmem
    · exact (hw.id_lt read hmem).trans (Nat.lt_succ_self _)
    · rw [List.mem_singleton.mp hmem]
      exact Nat.lt_succ_self _
  distinct read hread other hother heq := by
    rcases List.mem_append.mp hread with hmem | hmem
    · rcases List.mem_append.mp hother with hmem' | hmem'
      · exact hw.distinct read hmem other hmem' heq
      · rw [List.mem_singleton.mp hmem'] at heq
        exact absurd heq (hw.id_lt read hmem).ne
    · rcases List.mem_append.mp hother with hmem' | hmem'
      · rw [List.mem_singleton.mp hmem] at heq
        exact absurd heq.symm (hw.id_lt other hmem').ne
      · rw [List.mem_singleton.mp hmem, List.mem_singleton.mp hmem']
  generation_le read hread := by
    rcases List.mem_append.mp hread with hmem | hmem
    · exact hw.generation_le read hmem
    · rw [List.mem_singleton.mp hmem]
      exact hgeneration.le
  recent read hread heq := by
    rcases List.mem_append.mp hread with hmem | hmem
    · exact hw.recent read hmem heq
    · rw [List.mem_singleton.mp hmem]
      exact hw.restarted_le
  restarted_le := hw.restarted_le.trans (Nat.le_succ _)
  disabled hdisabled := by
    have hdisabled : w.store.enabled = false := hdisabled
    rw [henabled] at hdisabled
    cases hdisabled
  named read hread name version hticket := by
    rcases List.mem_append.mp hread with hmem | hmem
    · exact hw.named read hmem name version hticket
    · rw [List.mem_singleton.mp hmem] at hticket ⊢
      obtain ⟨tickets, htickets, hname⟩ := Option.bind_eq_some_iff.mp hticket
      exact hnamed tickets htickets name version hname

theorem inv_load {w : World Name V} (hw : w.Inv) {names : List Name}
    (h : w.store.load names = some sent) : Inv (w.send sent) := by
  unfold FeatureStore.load at h
  split at h
  · cases h
  · rename_i hsends
    cases h
    have henabled : w.store.enabled = true := by simpa using (not_or.mp hsends).1
    refine ⟨shared_send hw.shared henabled rfl nofun, fun name => ?_⟩
    exact (hw.feature name).sent rfl rfl rfl fun _ => rfl

theorem inv_flush {w : World Name V} (hw : w.Inv) (h : w.store.flush = (store, some sent)) :
    Inv ({ w with store }.send sent) := by
  obtain ⟨hgeneration, henabled, hsent, hnames, tickets, htickets, hview⟩ :=
    FeatureStore.flush_some h
  have hon : w.store.enabled = true := by
    cases hcase : w.store.enabled with
    | true => rfl
    | false =>
      have hempty : w.store.queued = [] := by
        refine List.eq_nil_iff_forall_not_mem.mpr fun name hmem => ?_
        have hquiet := (hw.feature name).quiet hcase
        have hqueued : (w.store.view name).queued = true := by
          simpa [FeatureStore.view] using hmem
        exact Bool.false_ne_true (hquiet.symm.trans hqueued)
      unfold FeatureStore.flush at h
      simp [hempty] at h
  have hsame : World.shared { w with store } = w.shared := by
    simp only [World.shared, hgeneration, henabled]
  refine ⟨?_, fun name => ?_⟩
  · apply shared_send (hsame ▸ hw.shared) (henabled.trans hon) (hsent.trans hgeneration.symm)
    intro tickets' htickets' name version hversion
    cases htickets.symm.trans htickets'
    rw [hnames]
    by_contra hmem
    obtain ⟨_, -, -, hnot⟩ := hview name
    rw [(hnot hmem).2] at hversion
    cases hversion
  · have hread : ∀ name, Read.ticket { sent with id := w.sent } name = tickets name := by
      intro name
      simp [Read.ticket, htickets]
    obtain ⟨version, hversion, hmem, hnot⟩ := hview name
    by_cases hqueued : name ∈ w.store.queued
    · obtain ⟨hlt, hticket⟩ := hmem hqueued
      have hinv := @Shared.FeatureInv.flushed _ _ _ _ _ (hw.feature name) { sent with id := w.sent } _ rfl
        (hsent.trans rfl) (hnames ▸ hqueued) hlt ((hread name).trans hticket)
      have hnamed : name ∈ sent.names := hnames ▸ hqueued
      simp only [World.send, World.shared, World.feature, hversion, hnamed, if_true, hgeneration,
        henabled]
      exact hinv
    · obtain ⟨rfl, hticket⟩ := hnot hqueued
      have hview' : store.view name = w.store.view name := by
        rw [hversion]
        simp [FeatureStore.view, hqueued]
      have hnamed : name ∉ sent.names := hnames ▸ hqueued
      have hinv := @Shared.FeatureInv.sent _ _ _ _ _ _ (hw.feature name) { sent with id := w.sent } rfl hsent
        ((hread name).trans hticket) fun hin => absurd hin hnamed
      simp only [World.send, World.shared, World.feature, hview', hnamed, if_false, hgeneration,
        henabled] at hinv ⊢
      exact hinv

theorem inv_microtask {w : World Name V} (hw : w.Inv) : Inv (w.step .microtask) := by
  simp only [step]
  split
  · split
    · rename_i store hflush
      obtain ⟨hgeneration, henabled, hview⟩ := FeatureStore.flush_none hflush
      apply inv_of_store hw hgeneration henabled
      intro name
      rw [hview name]
      exact hw.feature name
    · rename_i store sent hflush
      exact inv_flush hw hflush
  · exact hw

omit [DecidableEq Name] in
theorem shared_without {c : Shared Name} (h : c.Inv) (read : Read Name) :
    (Shared.FeatureInv.without c read).Inv where
  id_lt other hother := h.id_lt other (Shared.FeatureInv.mem_without.mp hother).1
  distinct other hother third hthird := h.distinct other (Shared.FeatureInv.mem_without.mp hother).1
    third (Shared.FeatureInv.mem_without.mp hthird).1
  generation_le other hother := h.generation_le other (Shared.FeatureInv.mem_without.mp hother).1
  recent other hother := h.recent other (Shared.FeatureInv.mem_without.mp hother).1
  restarted_le := h.restarted_le
  disabled hdisabled := ⟨(h.disabled hdisabled).1, fun other hother =>
    (h.disabled hdisabled).2 other (Shared.FeatureInv.mem_without.mp hother).1⟩
  named other hother := h.named other (Shared.FeatureInv.mem_without.mp hother).1

theorem inv_finished {w : World Name V} (hw : w.Inv) {store : FeatureStore Name (V × Origin)}
    {read : Read Name} {answered : List Name} (hgeneration : store.generation = w.store.generation)
    (henabled : store.enabled = w.store.enabled)
    (hfeature : ∀ name, (Shared.FeatureInv.without w.shared read).FeatureInv name
      { w.feature name with
        view := store.view name
        missed := if name ∈ read.names ∧ name ∉ answered ∧ w.lastRead name = some read.id then true
          else w.missed name }) : Inv (finished { w with store } read answered) := by
  have hshared : (finished { w with store } read answered).shared =
      Shared.FeatureInv.without w.shared read := by
    simp only [finished, World.shared, Shared.FeatureInv.without, hgeneration, henabled]
  exact ⟨hshared ▸ shared_without hw.shared read, fun name => hshared ▸ hfeature name⟩

theorem feature_dropped {w : World Name V} (hw : w.Inv) {read : Read Name}
    (hmem : read ∈ w.inFlight) {answered : List Name}
    (h : w.shared.Lands name (w.store.view name).version read →
      name ∉ answered ∧ w.Covered name read) :
    (Shared.FeatureInv.without w.shared read).FeatureInv name
      { w.feature name with
        missed := if name ∈ read.names ∧ name ∉ answered ∧ w.lastRead name = some read.id then true
          else w.missed name } := by
  apply (hw.feature name).dropped hw.shared hmem
  · intro hmissed
    have hmissed : w.missed name = true := hmissed
    simp [hmissed]
  · exact fun hlands => (h hlands).2
  · intro hlands hlast
    have hlast : w.lastRead name = some read.id := hlast
    simp [hlands.named, (h hlands).1, hlast]

theorem inv_fail {w : World Name V} (hw : w.Inv) (h : w.Meets (.fail id)) :
    Inv (w.step (.fail id)) := by
  simp only [step]
  split
  · exact hw
  · rename_i read hfind
    have hmem := List.mem_of_find?_eq_some hfind
    have hid : read.id = id := by simpa using List.find?_some hfind
    refine @inv_finished _ _ _ _ hw w.store _ _ rfl rfl fun name => ?_
    exact feature_dropped hw hmem fun hlands =>
      ⟨by simp, h read hmem hid hlands.generation name hlands.named⟩

theorem inv_answer {w : World Name V} (hw : w.Inv)
    {states : List (Name × FeatureState V)} (h : w.Meets (.answer id states)) :
    Inv (w.step (.answer id states)) := by
  simp only [step]
  split
  · exact hw
  · rename_i read hfind
    have hmem : read ∈ w.shared.reads := List.mem_of_find?_eq_some hfind
    have hid : read.id = id := by simpa using List.find?_some hfind
    split
    · rename_i hvalid
      obtain ⟨hnodup, hnames⟩ := hvalid
      let tagged := states.map fun entry => (entry.1, entry.2.tag (Origin.fetch read.id))
      have htagged : tagged.map (·.1) = states.map (·.1) := by simp [tagged]
      by_cases hstale : read.generation = w.store.generation
      · obtain ⟨hcurrent, hcovered⟩ := h read hmem hid hstale
        cases htickets : read.tickets with
        | none =>
          have hland : w.land read states = w.store.setMany w.now tagged := by
            simp only [land, htickets, FeatureStore.loadAnswered]
            rw [if_neg (not_not_intro hstale)]
          rw [hland]
          refine inv_finished hw (by simp) (by simp) fun name => ?_
          by_cases hanswered : name ∈ states.map (·.1)
          · obtain ⟨entry, hentry, rfl⟩ := List.mem_map.mp hanswered
            rw [FeatureStore.view_setMany_of_mem (htagged ▸ hnodup)
              (List.mem_map.mpr ⟨entry, hentry, rfl⟩)]
            simp only [hanswered, not_true_eq_false, false_and, and_false, if_false]
            exact (hw.feature entry.1).loaded hw.shared hmem hstale
              (hcurrent htickets entry.1 hanswered).1 entry.2
          · rw [FeatureStore.view_setMany_of_not_mem (htagged ▸ hanswered)]
            exact feature_dropped hw hmem fun hlands =>
              ⟨hanswered, hcovered name hlands.named hanswered⟩
        | some tickets =>
          have hland : w.land read states =
              tagged.foldl (FeatureStore.land w.now tickets) w.store := by
            simp only [land, htickets, FeatureStore.flushAnswered]
            rw [if_neg (not_not_intro hstale)]
            rfl
          have hticket : ∀ name, read.ticket name = tickets name := by
            intro name
            simp [Read.ticket, htickets]
          rw [hland]
          obtain ⟨hgeneration, henabled⟩ :=
            FeatureStore.landAll_generation w.now tickets tagged w.store
          refine inv_finished hw hgeneration henabled fun name => ?_
          by_cases hanswered : name ∈ states.map (·.1)
          · obtain ⟨entry, hentry, rfl⟩ := List.mem_map.mp hanswered
            rw [FeatureStore.view_landAll_of_mem (htagged ▸ hnodup)
              (List.mem_map.mpr ⟨entry, hentry, rfl⟩)]
            split
            · rename_i hlands
              simp only [hanswered, not_true_eq_false, false_and, and_false, if_false]
              exact (hw.feature entry.1).answered hw.shared
                ⟨hmem, hstale, (hticket _).trans hlands⟩ entry.2
            · rename_i hnot
              refine feature_dropped hw hmem fun hlands => absurd ?_ hnot
              rw [← hticket]
              exact hlands.ticket (by simp [htickets])
          · rw [FeatureStore.view_landAll_of_not_mem (htagged ▸ hanswered)]
            exact feature_dropped hw hmem fun hlands =>
              ⟨hanswered, hcovered name hlands.named hanswered⟩
      · have hland : w.land read states = w.store := by
          unfold land
          dsimp only
          split
          · exact if_pos hstale
          · exact if_pos hstale
        rw [hland]
        refine inv_finished hw rfl rfl fun name => ?_
        exact feature_dropped hw hmem fun hlands => absurd hlands.generation hstale
    · exact hw

theorem inv_step {w : World Name V} (hw : w.Inv) {e : Event Name V} (h : w.Meets e) :
    Inv (w.step e) := by
  cases e with
  | subscribe name listener =>
    simp only [step]
    split
    · exact hw
    · exact inv_subscribe hw name listener
  | unsubscribe name listener =>
    simp only [step]
    split
    · rename_i hfollows
      exact inv_unsubscribe hw hfollows
    · exact hw
  | setEnabled enabled =>
    simp only [step]
    split
    · exact hw
    · rename_i hchanges
      exact inv_setEnabled hw hchanges
  | set name state => exact inv_set hw name state
  | setMany states =>
    simp only [step]
    split
    · rename_i hnodup
      exact inv_setMany hw hnodup
    · exact hw
  | invalidate names => exact inv_invalidate hw h
  | refresh => exact inv_refresh hw
  | load names =>
    simp only [step]
    split
    · exact hw
    · rename_i sent hsent
      exact inv_load hw hsent
  | clear => exact inv_clear hw
  | microtask => exact inv_microtask hw
  | timer =>
    simp only [step]
    split
    · exact inv_timer hw
    · exact hw
  | answer id states => exact inv_answer hw h
  | fail id => exact inv_fail hw h
  | elapse ms => exact ⟨hw.shared, hw.feature⟩

theorem inv_run {events : List (Event Name V)} (h : Guarded step Meets {} events) :
    Inv (run step ({} : World Name V) events) :=
  run_invariant step Meets Inv (fun _ _ hw h => inv_step hw h) {} events inv_init h

theorem sends_enabled {w : World Name V} (hw : w.Inv) {e : Event Name V}
    (h : (w.step e).sent ≠ w.sent) : w.store.enabled = true := by
  cases hcase : w.store.enabled with
  | true => rfl
  | false =>
    exfalso
    apply h
    cases e with
    | load names =>
      have hnone : w.store.load names = none := by simp [FeatureStore.load, hcase]
      simp only [step, hnone]
    | microtask =>
      simp only [step]
      split
      · split
        · rfl
        · rename_i store sent hflush
          obtain ⟨name, hname⟩ : ∃ name, name ∈ w.store.queued := by
            apply List.exists_mem_of_ne_nil
            rintro hempty
            unfold FeatureStore.flush at hflush
            simp [hempty] at hflush
          have hquiet := (hw.feature name).quiet hcase
          have hqueued : (w.store.view name).queued = true := by
            simpa [FeatureStore.view] using hname
          exact absurd (hquiet.symm.trans hqueued) Bool.false_ne_true
      · rfl
    | subscribe name listener =>
      simp only [step]
      split <;> rfl
    | unsubscribe name listener =>
      simp only [step]
      split <;> rfl
    | setEnabled enabled =>
      simp only [step]
      split <;> rfl
    | setMany states =>
      simp only [step]
      split <;> rfl
    | timer =>
      simp only [step]
      split <;> rfl
    | answer id states =>
      simp only [step]
      split
      · rfl
      · split <;> rfl
    | fail id =>
      simp only [step]
      split <;> rfl
    | set name state => rfl
    | invalidate names => rfl
    | refresh => rfl
    | clear => rfl
    | elapse ms => rfl

/-- What a feature's state came from after an answer: what it did before, or the
read answered, which is no older. -/
theorem answer_newer {w : World Name V} (hw : w.Inv)
    {states : List (Name × FeatureState V)} (h : w.Meets (.answer id states))
    {before after : Nat} (hbefore : (w.store.view name).heldFrom = some before)
    (hafter : ((w.step (.answer id states)).store.view name).heldFrom = some after) :
    before ≤ after := by
  have hsame : (w.store.view name).heldFrom = some after → before ≤ after := by
    intro hheld
    exact (Option.some.inj (hbefore.symm.trans hheld)).le
  simp only [step] at hafter
  split at hafter
  · exact hsame hafter
  · rename_i read hfind
    have hmem : read ∈ w.shared.reads := List.mem_of_find?_eq_some hfind
    have hid : read.id = id := by simpa using List.find?_some hfind
    split at hafter
    · rename_i hvalid
      let tagged := states.map fun entry => (entry.1, entry.2.tag (Origin.fetch read.id))
      have htagged : tagged.map (·.1) = states.map (·.1) := by simp [tagged]
      change ((w.land read states).view name).heldFrom = some after at hafter
      by_cases hstale : read.generation = w.store.generation
      · obtain ⟨hcurrent, -⟩ := h read hmem hid hstale
        cases htickets : read.tickets with
        | none =>
          have hland : w.land read states = w.store.setMany w.now tagged := by
            simp only [land, htickets, FeatureStore.loadAnswered]
            rw [if_neg (not_not_intro hstale)]
          rw [hland] at hafter
          by_cases hanswered : name ∈ states.map (·.1)
          · have huptodate := (hcurrent htickets name hanswered).2 before hbefore
            obtain ⟨entry, hentry, rfl⟩ := List.mem_map.mp hanswered
            rw [FeatureStore.view_setMany_of_mem (htagged ▸ hvalid.1)
              (List.mem_map.mpr ⟨entry, hentry, rfl⟩)] at hafter
            cases hafter
            exact huptodate
          · rw [FeatureStore.view_setMany_of_not_mem (htagged ▸ hanswered)] at hafter
            exact hsame hafter
        | some tickets =>
          have hland : w.land read states =
              tagged.foldl (FeatureStore.land w.now tickets) w.store := by
            simp only [land, htickets, FeatureStore.flushAnswered]
            rw [if_neg (not_not_intro hstale)]
            rfl
          rw [hland] at hafter
          by_cases hanswered : name ∈ states.map (·.1)
          · obtain ⟨entry, hentry, rfl⟩ := List.mem_map.mp hanswered
            rw [FeatureStore.view_landAll_of_mem (htagged ▸ hvalid.1)
              (List.mem_map.mpr ⟨entry, hentry, rfl⟩)] at hafter
            split at hafter
            · rename_i hlands
              have hticket : read.ticket entry.1 = tickets entry.1 := by
                simp [Read.ticket, htickets]
              have hlater := (hw.feature entry.1).later read
                ⟨hmem, hstale, hticket.trans hlands⟩ before hbefore
              cases hafter
              exact hlater.le
            · exact hsame hafter
          · rw [FeatureStore.view_landAll_of_not_mem (htagged ▸ hanswered)] at hafter
            exact hsame hafter
      · have hland : w.land read states = w.store := by
          unfold land
          dsimp only
          split
          · exact if_pos hstale
          · exact if_pos hstale
        rw [hland] at hafter
        exact hsame hafter
    · exact hsame hafter

end World

variable {Name V : Type} [DecidableEq Name]

/-- After every run whose events meet the condition: a feature with no read
queued or on its way holds a state that was given to the store or that a read
fetched which was sent after everything that superseded it; no answer replaces
a state fetched later; nothing is sent while the store is disabled; and while
it is enabled, each feature on screen that is read again by itself is due,
queued, being read, or was missed by its last read. -/
theorem feature_store_laws {events : List (Event Name V)}
    (h : Guarded World.step World.Meets {} events) :
    (∀ name, name ∉ (run World.step {} events).store.queued →
      (∀ read ∈ (run World.step {} events).inFlight, name ∉ read.names) →
        ∀ id, ((run World.step {} events).store.view name).heldFrom = some id →
          (run World.step {} events).superseded name ≤ id ∧
            (run World.step {} events).restarted ≤ id) ∧
    (∀ id states, (run World.step {} events).Meets (.answer id states) → ∀ name before after,
      ((run World.step {} events).store.view name).heldFrom = some before →
        (((run World.step {} events).step (.answer id states)).store.view name).heldFrom =
          some after → before ≤ after) ∧
    (∀ e, ((run World.step {} events).step e).sent ≠ (run World.step {} events).sent →
      (run World.step {} events).store.enabled = true) ∧
    ((run World.step {} events).store.enabled = true →
      ∀ name, (run World.step {} events).store.isWatched name = true → ∀ state,
        (run World.step {} events).store.states name = some state →
          (refreshInterval state).isSome →
            ((run World.step {} events).store.due.lookup name).isSome ∨
              name ∈ (run World.step {} events).store.queued ∨
              (∃ read ∈ (run World.step {} events).inFlight, name ∈ read.names) ∨
              (run World.step {} events).missed name = true) := by
  have hw := World.inv_run h
  generalize run World.step ({} : World Name V) events = w at hw
  refine ⟨?_, ?_, ?_, ?_⟩
  · intro name hqueued hreads id hid
    have hfeature := hw.feature name
    refine ⟨?_, (hfeature.held id hid).2⟩
    rcases hfeature.fresh with hfresh | hq | ⟨read, hread, -⟩
    · exact hfresh id hid
    · have hq : (w.store.view name).queued = true := hq
      simp [FeatureStore.view, hqueued] at hq
    · exact absurd hread.named (hreads read hread.mem)
  · intro id states hmeets name before after hbefore hafter
    exact World.answer_newer hw hmeets hbefore hafter
  · exact fun e he => World.sends_enabled hw he
  · intro henabled name hwatched state hstate hinterval
    rcases (hw.feature name).polled henabled hwatched ⟨state, hstate, hinterval⟩ with
      hdue | hq | ⟨read, hread, -⟩ | hmissed
    · exact .inl hdue
    · have hq : (w.store.view name).queued = true := hq
      exact .inr (.inl (by simpa [FeatureStore.view] using hq))
    · exact .inr (.inr (.inl ⟨read, hread.mem, hread.named⟩))
    · exact .inr (.inr (.inr hmissed))

theorem World.meets_complete {w : World Name V} {states : List (Name × FeatureState V)}
    (h : (w.inFlight.all fun read => read.id != id ||
      (read.tickets.isSome && read.names.all (· ∈ states.map (·.1)))) = true) :
    w.Meets (.answer id states) := by
  intro read hread hid _
  have hread := List.all_eq_true.mp h read hread
  simp only [hid, bne_self_eq_false, Bool.false_or, Bool.and_eq_true, List.all_eq_true,
    decide_eq_true_eq] at hread
  refine ⟨fun hnone => ?_, fun name hname hout => absurd (hread.2 name hname) hout⟩
  simp [hnone] at hread

/-- A polled feature is followed, invalidated while its read is out, and read
again: the second read's answer is what the store holds. -/
theorem feature_store_laws_reread :
    let w := run World.step ({} : World Nat Nat)
      [.setEnabled true, .subscribe 7 1, .microtask, .invalidate [7], .microtask,
        .answer 1 [(7, ⟨320, some 500, none⟩)], .answer 0 [(7, ⟨640, some 500, none⟩)]]
    (w.store.view 7).heldFrom = some 1 ∧ w.superseded 7 ≤ 1 := by
  have hmeets : Guarded World.step World.Meets ({} : World Nat Nat)
      [.setEnabled true, .subscribe 7 1, .microtask, .invalidate [7], .microtask,
        .answer 1 [(7, ⟨320, some 500, none⟩)], .answer 0 [(7, ⟨640, some 500, none⟩)]] := by
    refine ⟨trivial, trivial, trivial, ?_, trivial, ?_, ?_, trivial⟩
    · intro name hname hwatched
      rw [List.mem_singleton.mp hname] at hwatched
      exact absurd hwatched (by decide)
    · exact World.meets_complete (by decide)
    · exact World.meets_complete (by decide)
  have hlaws := (feature_store_laws hmeets).1 7 (by decide) (by decide) 1 (by decide)
  exact ⟨by decide, hlaws.1⟩

/-- A load's answer replaces a state set since it was sent, and one fetched by
a read sent after it. -/
theorem load_keeps_superseded :
    (let w := run World.step ({} : World Nat Nat)
      [.setEnabled true, .load [7], .set 7 ⟨320, none, none⟩, .answer 0 [(7, ⟨640, none, none⟩)]]
    w.store.queued = [] ∧ w.inFlight.length = 0 ∧ (w.store.view 7).heldFrom = some 0 ∧
      0 < w.superseded 7) ∧
    (let w := run World.step ({} : World Nat Nat)
      [.setEnabled true, .load [7], .subscribe 7 1, .microtask, .answer 1 [(7, ⟨320, none, none⟩)]]
    (w.store.view 7).heldFrom = some 1 ∧
      ((w.step (.answer 0 [(7, ⟨640, none, none⟩)])).store.view 7).heldFrom = some 0) := by
  decide

end VivaGenicam.Studio
