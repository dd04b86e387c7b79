import VivaGenicam.Studio.FeatureStore

/-!
One feature in the store. What an operation does to a feature depends on that
feature alone, and on whether the operation names it.
-/

namespace VivaGenicam.Studio

/-- What the store holds of one feature. -/
structure FeatureView (V : Type) where
  held : Option (FeatureState V)
  watched : Bool
  queued : Bool
  version : Nat
  isDue : Bool

namespace FeatureView

variable {V : Type}

def install (view : FeatureView V) (state : FeatureState V) : FeatureView V :=
  { view with held := some state, isDue := (refreshInterval state).isSome && view.watched }

def set (view : FeatureView V) (state : FeatureState V) : FeatureView V :=
  { view.install state with version := view.version + 1 }

def request (view : FeatureView V) (enabled : Bool) : FeatureView V :=
  { view with queued := view.queued || enabled }

end FeatureView

namespace FeatureStore

variable {Name V : Type} [DecidableEq Name]

def view (s : FeatureStore Name V) (name : Name) : FeatureView V where
  held := s.states name
  watched := s.isWatched name
  queued := name ∈ s.queued
  version := s.versions name
  isDue := (s.due.lookup name).isSome

variable {name : Name}

theorem mem_enqueue {queued names : List Name} :
    name ∈ enqueue queued names ↔ name ∈ queued ∨ name ∈ names := by
  unfold enqueue
  induction names generalizing queued with
  | nil => simp
  | cons first rest ih =>
    rw [List.foldl_cons, ih]
    split
    · rename_i hmem
      constructor
      · rintro (h | h)
        · exact .inl h
        · exact .inr (by simp [h])
      · rintro (h | h)
        · exact .inl h
        · rcases List.mem_cons.mp h with rfl | h
          · exact .inl hmem
          · exact .inr h
    · simp only [List.mem_append, List.mem_cons, List.not_mem_nil, or_false]
      tauto

@[simp] theorem view_armPollTimer (now : Nat) (s : FeatureStore Name V) (name : Name) :
    (armPollTimer now s).view name = s.view name := rfl

omit [DecidableEq Name] in
@[simp] theorem armPollTimer_generation (now : Nat) (s : FeatureStore Name V) :
    (armPollTimer now s).generation = s.generation := rfl

omit [DecidableEq Name] in
@[simp] theorem armPollTimer_enabled (now : Nat) (s : FeatureStore Name V) :
    (armPollTimer now s).enabled = s.enabled := rfl

variable (names : List Name)

theorem view_request (s : FeatureStore Name V) (name : Name) :
    (s.request names).view name =
      if name ∈ names then (s.view name).request s.enabled else s.view name := by
  unfold request
  split
  · rename_i h
    rcases h with h | rfl
    · simp [FeatureView.request, h]
    · simp
  · rename_i h
    obtain ⟨henabled, -⟩ := not_or.mp h
    have henabled : s.enabled = true := by simpa using henabled
    unfold view
    simp only [mem_enqueue, FeatureView.request, henabled, Bool.or_true]
    split
    · rename_i hmem
      simp [hmem, isWatched]
    · rename_i hmem
      simp [hmem, isWatched]

@[simp] theorem request_generation (s : FeatureStore Name V) :
    (s.request names).generation = s.generation := by
  unfold request
  split <;> rfl

@[simp] theorem request_enabled (s : FeatureStore Name V) :
    (s.request names).enabled = s.enabled := by
  unfold request
  split <;> rfl

theorem view_undue (now : Nat) (first name : Name) (s : FeatureStore Name V) :
    (undue now first s).view name =
      if name = first then { s.view name with isDue := false } else s.view name := by
  unfold undue
  split
  · rename_i hdue
    rw [view_armPollTimer]
    split
    · rename_i heq
      subst heq
      simp [view, isWatched]
    · rename_i hne
      simp [view, isWatched, AList.lookup_erase_ne hne]
  · rename_i hdue
    split
    · rename_i heq
      subst heq
      simp only [Bool.not_eq_true, Option.isSome_eq_false_iff, Option.isNone_iff_eq_none] at hdue
      simp [view, hdue]
    · rfl

@[simp] theorem undue_generation (now : Nat) (name : Name) (s : FeatureStore Name V) :
    (undue now name s).generation = s.generation := by
  unfold undue
  split <;> rfl

@[simp] theorem undue_enabled (now : Nat) (name : Name) (s : FeatureStore Name V) :
    (undue now name s).enabled = s.enabled := by
  unfold undue
  split <;> rfl

theorem view_install (now : Nat) (first name : Name) (state : FeatureState V)
    (s : FeatureStore Name V) :
    (install now first state s).view name =
      if name = first then (s.view name).install state else s.view name := by
  have hstates : ∀ t : FeatureStore Name V,
      { t with states := Function.update s.states first (some state) }.view name =
        if name = first then { t.view name with held := some state }
        else { t.view name with held := s.states name } := by
    intro t
    split
    · rename_i heq
      subst heq
      simp [view, isWatched]
    · rename_i hne
      simp [view, isWatched, Function.update_of_ne hne]
  unfold install schedule
  split
  · rename_i hinterval
    rw [view_undue, hstates]
    split
    · simp [FeatureView.install, hinterval]
    · rfl
  · rename_i interval hinterval
    split
    · rename_i hwatched
      rw [view_armPollTimer]
      split
      · rename_i heq
        subst heq
        have hwatched : s.isWatched name = true := hwatched
        simp [view, FeatureView.install, hinterval, isWatched] at hwatched ⊢
        exact hwatched
      · rename_i hne
        simp [view, isWatched, Function.update_of_ne hne, AList.lookup_insert_ne hne]
    · rename_i hwatched
      have hwatched : s.isWatched first = false := Bool.eq_false_iff.mpr hwatched
      rw [view_undue, hstates]
      split
      · rename_i heq
        subst heq
        simp [FeatureView.install, view, hwatched]
      · rfl

@[simp] theorem install_generation (now : Nat) (name : Name) (state : FeatureState V)
    (s : FeatureStore Name V) : (install now name state s).generation = s.generation := by
  unfold install schedule
  split
  · simp
  · split <;> simp

@[simp] theorem install_enabled (now : Nat) (name : Name) (state : FeatureState V)
    (s : FeatureStore Name V) : (install now name state s).enabled = s.enabled := by
  unfold install schedule
  split
  · simp
  · split <;> simp

theorem view_bump (first name : Name) (s : FeatureStore Name V) :
    (s.bump first).view name =
      if name = first then { s.view name with version := (s.view name).version + 1 }
      else s.view name := by
  split
  · rename_i heq
    subst heq
    simp [view, bump, isWatched]
    rfl
  · rename_i hne
    simp [view, bump, isWatched, Function.update_of_ne hne]
    rfl

theorem view_set (now : Nat) (first name : Name) (state : FeatureState V)
    (s : FeatureStore Name V) :
    (set now first state s).view name =
      if name = first then (s.view name).set state else s.view name := by
  unfold set
  rw [view_install, view_bump]
  split
  · rfl
  · rfl

@[simp] theorem set_generation (now : Nat) (name : Name) (state : FeatureState V)
    (s : FeatureStore Name V) : (set now name state s).generation = s.generation := by
  simp [set, bump]

@[simp] theorem set_enabled (now : Nat) (name : Name) (state : FeatureState V)
    (s : FeatureStore Name V) : (set now name state s).enabled = s.enabled := by
  simp [set, bump]

theorem view_setMany_of_not_mem {now : Nat} {states : List (Name × FeatureState V)} {name : Name}
    (h : name ∉ states.map (·.1)) (s : FeatureStore Name V) :
    (setMany now states s).view name = s.view name := by
  unfold setMany
  induction states generalizing s with
  | nil => rfl
  | cons entry rest ih =>
    simp only [List.map_cons, List.mem_cons, not_or] at h
    rw [List.foldl_cons, ih h.2, view_set, if_neg h.1]

variable {now : Nat} {states : List (Name × FeatureState V)}

theorem view_setMany_of_mem
    {state : FeatureState V} (hnodup : (states.map (·.1)).Nodup) (h : (name, state) ∈ states)
    (s : FeatureStore Name V) :
    (setMany now states s).view name = (s.view name).set state := by
  unfold setMany
  induction states generalizing s with
  | nil => cases h
  | cons entry rest ih =>
    simp only [List.map_cons, List.nodup_cons] at hnodup
    rw [List.foldl_cons]
    rcases List.mem_cons.mp h with rfl | hmem
    · have hrest := @view_setMany_of_not_mem _ _ _ now _ _ hnodup.1 (set now name state s)
      unfold setMany at hrest
      rw [hrest, view_set, if_pos rfl]
    · have hne : name ≠ entry.1 := by
        rintro rfl
        exact hnodup.1 (List.mem_map.mpr ⟨_, hmem, rfl⟩)
      rw [ih hnodup.2 hmem, view_set, if_neg hne]

@[simp] theorem setMany_generation (now : Nat) (states : List (Name × FeatureState V))
    (s : FeatureStore Name V) : (setMany now states s).generation = s.generation := by
  unfold setMany
  induction states generalizing s with
  | nil => rfl
  | cons entry rest ih => rw [List.foldl_cons, ih, set_generation]

@[simp] theorem setMany_enabled (now : Nat) (states : List (Name × FeatureState V))
    (s : FeatureStore Name V) : (setMany now states s).enabled = s.enabled := by
  unfold setMany
  induction states generalizing s with
  | nil => rfl
  | cons entry rest ih => rw [List.foldl_cons, ih, set_enabled]

theorem view_subscribe (first name : Name) (listener : Listener) (s : FeatureStore Name V) :
    ∃ asks : Bool,
      (s.subscribe first listener).view name = (if name = first then
        { s.view name with watched := true, queued := (s.view name).queued || asks }
        else s.view name) ∧ (asks = true → s.enabled = true) ∧
      ((s.view first).watched = false → s.enabled = true → ∀ state, (s.view first).held = some state →
        (refreshInterval state).isSome → asks = true) := by
  let followed : FeatureStore Name V := { s with
    listeners := s.listeners.insert first (s.listenersOf first ++ [listener]) }
  have hfollowed : followed.view name =
      if name = first then { s.view name with watched := true } else s.view name := by
    split
    · rename_i heq
      subst heq
      simp [followed, view, isWatched]
    · rename_i hne
      simp [followed, view, isWatched, AList.lookup_insert_ne hne]
  have hasked : (followed.request [first]).view name = if name = first then
      { s.view name with watched := true, queued := (s.view name).queued || s.enabled }
      else s.view name := by
    rw [view_request, hfollowed]
    split
    · rename_i hmem
      have heq : name = first := by simpa using hmem
      rw [if_pos heq, if_pos heq]
      rfl
    · rename_i hmem
      have hne : name ≠ first := by simpa using hmem
      rw [if_neg hne, if_neg hne]
  cases hheld : s.states first with
  | none =>
    have hsubscribe : s.subscribe first listener = followed.request [first] := by
      unfold subscribe
      rw [hheld]
    rw [hsubscribe]
    exact ⟨s.enabled, hasked, id, fun _ henabled _ _ _ => henabled⟩
  | some cached =>
    have hsubscribe : s.subscribe first listener =
        if s.listenersOf first = [] ∧ (refreshInterval cached).isSome then
          followed.request [first] else followed := by
      unfold subscribe
      rw [hheld]
    rw [hsubscribe]
    split
    · exact ⟨s.enabled, hasked, id, fun _ henabled _ _ _ => henabled⟩
    · rename_i hasks
      refine ⟨false, by simpa using hfollowed, fun hfalse => absurd hfalse (by simp),
        fun hwatched _ state hstate hinterval => ?_⟩
      have hstate : s.states first = some state := hstate
      cases hheld.symm.trans hstate
      have hnone : s.listeners.lookup first = none := by
        simpa [view, isWatched] using hwatched
      exact absurd ⟨by simp [listenersOf, hnone], hinterval⟩ hasks

@[simp] theorem subscribe_generation (name : Name) (listener : Listener)
    (s : FeatureStore Name V) : (s.subscribe name listener).generation = s.generation := by
  unfold subscribe
  cases s.states name with
  | none => simp
  | some cached =>
    dsimp only
    split <;> simp

@[simp] theorem subscribe_enabled (name : Name) (listener : Listener)
    (s : FeatureStore Name V) : (s.subscribe name listener).enabled = s.enabled := by
  unfold subscribe
  cases s.states name with
  | none => simp
  | some cached =>
    dsimp only
    split <;> simp

theorem view_unsubscribe {now : Nat} {first : Name} {listener : Listener}
    {s : FeatureStore Name V} (h : listener ∈ s.listenersOf first) (name : Name) :
    (unsubscribe now first listener s).view name = s.view name ∨
      name = first ∧ (unsubscribe now first listener s).view name =
        { s.view name with watched := false, isDue := false } := by
  unfold unsubscribe
  dsimp only
  split
  · rw [view_undue]
    split
    · rename_i heq
      subst heq
      exact .inr ⟨rfl, by simp [view, isWatched]⟩
    · rename_i hne
      exact .inl (by simp [view, isWatched, AList.lookup_erase_ne hne])
  · left
    rcases eq_or_ne name first with rfl | hne
    · have hwatched : (s.listeners.lookup name).isSome := by
        unfold listenersOf at h
        cases hlookup : s.listeners.lookup name with
        | none => simp [hlookup] at h
        | some set => rfl
      simp [view, isWatched, hwatched]
    · simp [view, isWatched, AList.lookup_insert_ne hne]

@[simp] theorem unsubscribe_generation (now : Nat) (name : Name) (listener : Listener)
    (s : FeatureStore Name V) : (unsubscribe now name listener s).generation = s.generation := by
  unfold unsubscribe
  dsimp only
  split <;> simp

@[simp] theorem unsubscribe_enabled (now : Nat) (name : Name) (listener : Listener)
    (s : FeatureStore Name V) : (unsubscribe now name listener s).enabled = s.enabled := by
  unfold unsubscribe
  dsimp only
  split <;> simp

theorem view_clear (now : Nat) (s : FeatureStore Name V) (name : Name) :
    (clear now s).view name =
      { s.view name with held := none, queued := false, isDue := false } := by
  simp [clear, view, isWatched, armPollTimer]

omit [DecidableEq Name] in
@[simp] theorem clear_generation (now : Nat) (s : FeatureStore Name V) :
    (clear now s).generation = s.generation + 1 := rfl

omit [DecidableEq Name] in
@[simp] theorem clear_enabled (now : Nat) (s : FeatureStore Name V) :
    (clear now s).enabled = s.enabled := rfl

theorem view_refresh (s : FeatureStore Name V) (name : Name) :
    s.refresh.view name = if (s.view name).watched then (s.view name).request s.enabled
      else s.view name := by
  unfold refresh
  rw [view_request]
  have hkeys : name ∈ s.listeners.keys ↔ (s.view name).watched = true := by
    rw [← AList.mem_keys, ← AList.lookup_isSome]
    rfl
  simp only [hkeys]

variable {s : FeatureStore Name V}

theorem view_setEnabled {enabled : Bool} (h : enabled ≠ s.enabled) (name : Name) :
    (setEnabled now enabled s).view name = { s.view name with
      held := none, queued := enabled && (s.view name).watched, isDue := false } := by
  have hcleared : (clear now { s with enabled }).view name =
      { s.view name with held := none, queued := false, isDue := false } := by
    rw [view_clear]
    rfl
  unfold setEnabled
  rw [if_neg h]
  dsimp only
  cases enabled with
  | false => simpa using hcleared
  | true =>
    simp only [if_true]
    rw [view_refresh, hcleared]
    cases hwatched : (s.view name).watched <;> simp [FeatureView.request, hwatched]

theorem setEnabled_generation {enabled : Bool}
    (h : enabled ≠ s.enabled) : (setEnabled now enabled s).generation = s.generation + 1 := by
  unfold setEnabled refresh
  rw [if_neg h]
  cases enabled <;> simp

theorem setEnabled_enabled (now : Nat) (enabled : Bool) (s : FeatureStore Name V) :
    (setEnabled now enabled s).enabled = enabled := by
  unfold setEnabled refresh
  split
  · rename_i h
    exact h.symm
  · cases enabled <;> simp

theorem view_invalidate (s : FeatureStore Name V) (name : Name) :
    (s.invalidate names).view name =
      if name ∈ names then
        if (s.view name).watched then (s.view name).request s.enabled
        else { s.view name with held := none }
      else s.view name := by
  unfold invalidate
  rw [view_request]
  by_cases hmem : name ∈ names
  · cases hwatched : s.isWatched name with
    | true =>
      obtain ⟨set, hset⟩ := Option.isSome_iff_exists.mp hwatched
      rw [if_pos (List.mem_filter.mpr ⟨hmem, hwatched⟩)]
      simp [hmem, view, isWatched, hset, FeatureView.request]
    | false =>
      have hset : s.listeners.lookup name = none := by simpa [isWatched] using hwatched
      rw [if_neg fun h => by simp [hwatched] at h]
      simp [hmem, view, isWatched, hset]
  · rw [if_neg fun h => hmem (List.mem_of_mem_filter h)]
    simp [hmem, view, isWatched]

@[simp] theorem invalidate_generation (s : FeatureStore Name V) :
    (s.invalidate names).generation = s.generation := by
  simp [invalidate]

@[simp] theorem invalidate_enabled (s : FeatureStore Name V) :
    (s.invalidate names).enabled = s.enabled := by
  simp [invalidate]

theorem bumpAll (s : FeatureStore Name V) :
    (names.foldl (fun s name => s.bump name) s).generation = s.generation ∧
      (names.foldl (fun s name => s.bump name) s).enabled = s.enabled ∧
      ∀ name, ∃ version,
        (names.foldl (fun s name => s.bump name) s).view name = { s.view name with version } ∧
          (name ∈ names → (s.view name).version < version) ∧
          (name ∉ names → version = (s.view name).version) := by
  induction names generalizing s with
  | nil => exact ⟨rfl, rfl, fun name => ⟨(s.view name).version, rfl, by simp, by simp⟩⟩
  | cons first rest ih =>
    obtain ⟨hgeneration, henabled, hview⟩ := ih (s.bump first)
    refine ⟨hgeneration, henabled, fun name => ?_⟩
    obtain ⟨version, hversion, hmem, hnot⟩ := hview name
    have hbump := view_bump first name s
    refine ⟨version, ?_, ?_, ?_⟩
    · rw [List.foldl_cons, hversion, hbump]
      split <;> rfl
    · intro h
      rcases eq_or_ne name first with rfl | hne
      · rw [if_pos rfl] at hbump
        by_cases hrest : name ∈ rest
        · have := hmem hrest
          rw [hbump] at this
          exact Nat.lt_of_succ_lt this
        · rw [hnot hrest, hbump]
          exact Nat.lt_succ_self _
      · rw [if_neg hne] at hbump
        rw [← hbump]
        exact hmem ((List.mem_cons.mp h).resolve_left hne)
    · intro h
      simp only [List.mem_cons, not_or] at h
      rw [hnot h.2, hbump, if_neg h.1]

theorem flush_some {s' : FeatureStore Name V} {sent : Sent Name} (h : s.flush = (s', some sent)) :
    s'.generation = s.generation ∧ s'.enabled = s.enabled ∧ sent.generation = s.generation ∧
      sent.names = s.queued ∧ ∃ tickets, sent.tickets = some tickets ∧
        ∀ name, ∃ version, s'.view name = { s.view name with queued := false, version } ∧
          (name ∈ s.queued → (s.view name).version < version ∧ tickets name = some version) ∧
          (name ∉ s.queued → version = (s.view name).version ∧ tickets name = none) := by
  unfold flush at h
  dsimp only at h
  split at h
  · cases h
  · cases h
    obtain ⟨hgeneration, henabled, hview⟩ := bumpAll s.queued
      { s with queued := [], flushScheduled := false }
    refine ⟨hgeneration, henabled, rfl, rfl, _, rfl, fun name => ?_⟩
    obtain ⟨version, hversion, hmem, hnot⟩ := hview name
    refine ⟨version, ?_, ?_, ?_⟩
    · rw [hversion]
      simp [view, isWatched]
    · intro h
      refine ⟨hmem h, ?_⟩
      rw [if_pos h]
      exact congrArg (some ·.version) hversion
    · intro h
      exact ⟨hnot h, if_neg h⟩

theorem flush_none {s' : FeatureStore Name V} (h : s.flush = (s', none)) :
    s'.generation = s.generation ∧ s'.enabled = s.enabled ∧
      ∀ name, s'.view name = s.view name := by
  unfold flush at h
  dsimp only at h
  split at h
  · rename_i hempty
    cases h
    exact ⟨rfl, rfl, fun name => by simp [view, isWatched, hempty]⟩
  · cases h

/-- One state of an answer, if it still lands. -/
def land (now : Nat) (tickets : Name → Option Nat) (s : FeatureStore Name V)
    (entry : Name × FeatureState V) : FeatureStore Name V :=
  if tickets entry.1 = some (s.versions entry.1) then install now entry.1 entry.2 s else s

theorem view_land (now : Nat) (tickets : Name → Option Nat) (s : FeatureStore Name V)
    (entry : Name × FeatureState V) (name : Name) :
    (land now tickets s entry).view name =
      if name = entry.1 ∧ tickets name = some (s.view name).version then
        (s.view name).install entry.2
      else s.view name := by
  unfold land
  rcases eq_or_ne name entry.1 with rfl | hne
  · by_cases hticket : tickets entry.1 = some (s.versions entry.1)
    · have hboth : entry.1 = entry.1 ∧ tickets entry.1 = some (s.view entry.1).version :=
        ⟨rfl, hticket⟩
      rw [if_pos hticket, view_install, if_pos rfl, if_pos hboth]
    · have hnot : ¬(entry.1 = entry.1 ∧ tickets entry.1 = some (s.view entry.1).version) :=
        fun h => hticket h.2
      rw [if_neg hticket, if_neg hnot]
  · have hnot : ¬(name = entry.1 ∧ tickets name = some (s.view name).version) := fun h => hne h.1
    rw [if_neg hnot]
    split
    · rw [view_install, if_neg hne]
    · rfl

theorem land_generation (now : Nat) (tickets : Name → Option Nat) (s : FeatureStore Name V)
    (entry : Name × FeatureState V) :
    (land now tickets s entry).generation = s.generation ∧
      (land now tickets s entry).enabled = s.enabled := by
  unfold land
  split <;> simp

theorem landAll_generation (now : Nat) (tickets : Name → Option Nat)
    (states : List (Name × FeatureState V)) (s : FeatureStore Name V) :
    (states.foldl (land now tickets) s).generation = s.generation ∧
      (states.foldl (land now tickets) s).enabled = s.enabled := by
  induction states generalizing s with
  | nil => exact ⟨rfl, rfl⟩
  | cons entry rest ih =>
    have hfirst := land_generation now tickets s entry
    have hrest := ih (land now tickets s entry)
    exact ⟨hrest.1.trans hfirst.1, hrest.2.trans hfirst.2⟩

theorem view_landAll_of_not_mem {tickets : Name → Option Nat} (h : name ∉ states.map (·.1))
    (s : FeatureStore Name V) : (states.foldl (land now tickets) s).view name = s.view name := by
  induction states generalizing s with
  | nil => rfl
  | cons entry rest ih =>
    simp only [List.map_cons, List.mem_cons, not_or] at h
    rw [List.foldl_cons, ih h.2, view_land, if_neg fun hand => h.1 hand.1]

theorem view_landAll_of_mem {tickets : Name → Option Nat} {state : FeatureState V}
    (hnodup : (states.map (·.1)).Nodup) (h : (name, state) ∈ states) (s : FeatureStore Name V) :
    (states.foldl (land now tickets) s).view name =
      if tickets name = some (s.view name).version then (s.view name).install state
      else s.view name := by
  induction states generalizing s with
  | nil => cases h
  | cons entry rest ih =>
    simp only [List.map_cons, List.nodup_cons] at hnodup
    rw [List.foldl_cons]
    rcases List.mem_cons.mp h with rfl | hmem
    · rw [view_landAll_of_not_mem hnodup.1, view_land]
      simp only [true_and]
    · have hne : name ≠ entry.1 := by
        rintro rfl
        exact hnodup.1 (List.mem_map.mpr ⟨_, hmem, rfl⟩)
      have hfirst : (land now tickets s entry).view name = s.view name := by
        rw [view_land, if_neg fun hand => hne hand.1]
      rw [ih hnodup.2 hmem, hfirst]

theorem lookup_eraseAll (due : AList fun _ : Name => Nat) (name : Name) :
    (names.foldl (fun due name => due.erase name) due).lookup name =
      if name ∈ names then none else due.lookup name := by
  induction names generalizing due with
  | nil => simp
  | cons first rest ih =>
    rw [List.foldl_cons, ih]
    rcases eq_or_ne name first with rfl | hne
    · simp
    · simp [hne, AList.lookup_erase_ne hne]

theorem view_pollDue (now : Nat) (s : FeatureStore Name V) (name : Name) :
    (pollDue now s).view name = s.view name ∨
      (pollDue now s).view name = { s.view name with
        isDue := false, queued := (s.view name).queued || (s.view name).watched && s.enabled } := by
  unfold pollDue
  dsimp only
  rw [view_armPollTimer, view_request]
  by_cases hdue : name ∈ (s.due.entries.filter (·.2 ≤ now)).map (·.1)
  · right
    split
    · rename_i hmem
      have hwatched : s.isWatched name = true := List.of_mem_filter hmem
      obtain ⟨set, hset⟩ := Option.isSome_iff_exists.mp hwatched
      simp [view, isWatched, lookup_eraseAll, hdue, FeatureView.request, hset]
    · rename_i hmem
      have hwatched : s.isWatched name = false := by
        cases h : s.isWatched name with
        | false => rfl
        | true => exact absurd (List.mem_filter.mpr ⟨hdue, h⟩) hmem
      have hset : s.listeners.lookup name = none := by simpa [isWatched] using hwatched
      simp [view, isWatched, lookup_eraseAll, hdue, hset]
  · left
    rw [if_neg fun h => hdue (List.mem_of_mem_filter h)]
    simp only [view, isWatched, lookup_eraseAll, if_neg hdue]

@[simp] theorem pollDue_generation (now : Nat) (s : FeatureStore Name V) :
    (pollDue now s).generation = s.generation := by
  simp [pollDue]

@[simp] theorem pollDue_enabled (now : Nat) (s : FeatureStore Name V) :
    (pollDue now s).enabled = s.enabled := by
  simp [pollDue]

end FeatureStore

end VivaGenicam.Studio
