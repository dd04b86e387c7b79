import VivaGenicam.Camera.EventConfiguration
import VivaGenicam.Genapi.Codec

/-!
What an event setup changes is what it has saved, and restoring that leaves every register
as it was before the setup.
-/

namespace VivaGenicam.Camera

open GenapiXml Genapi Library.Attempts

namespace EntryTable

variable {table : EntryTable} {name : Text} {raw : Int64}

theorem mem_of_value (h : table.value name = some raw) : (name, raw) ∈ table.entries := by
  obtain ⟨entry, hfind, rfl⟩ := Option.map_eq_some_iff.mp h
  obtain rfl : entry.1 = name := by simpa using List.find?_some hfind
  exact List.mem_of_find?_eq_some hfind

theorem value_of_mem (h : (name, raw) ∈ table.entries) : table.value name = some raw := by
  cases hfind : table.entries.find? fun entry => decide (entry.1 = name) with
  | none =>
    have hnone := List.find?_eq_none.mp hfind _ h
    simp at hnone
  | some entry =>
    have hname : entry.1 = name := by simpa using List.find?_some hfind
    have hentry : entry = (name, raw) :=
      List.inj_on_of_nodup_map table.names_nodup (List.mem_of_find?_eq_some hfind) h hname
    rw [value, hfind, hentry]
    rfl

theorem value_of_entry (h : table.entry raw = some name) : table.value name = some raw := by
  obtain ⟨entry, hfind, rfl⟩ := Option.map_eq_some_iff.mp h
  obtain rfl : entry.2 = raw := by simpa using List.find?_some hfind
  exact value_of_mem (List.mem_of_find?_eq_some hfind)

theorem trim_of_value (h : table.value name = some raw) : trim name = name :=
  table.names_trimmed _ (mem_of_value h)

theorem mem_names_iff : name ∈ table.names ↔ ∃ raw, table.value name = some raw := by
  constructor
  · intro h
    obtain ⟨⟨_, raw⟩, hentry, rfl⟩ := List.mem_map.mp h
    exact ⟨raw, value_of_mem hentry⟩
  · rintro ⟨raw, h⟩
    exact List.mem_map.mpr ⟨_, mem_of_value h, rfl⟩

end EntryTable

theorem parseBool_boolText (value : Bool) : parseBool (boolText value) = some value := by
  cases value
  · decide
  · decide

variable {value : Int64} {entry : Text}

namespace EventNode

variable {node : EventNode} {name : Text}

theorem load_of_store {bytes : List UInt8} (h : node.store name value = .ok bytes) :
    node.load name bytes = .ok value := by
  unfold store at h
  split at h
  · by_cases hwidth : node.length = 0 ∨ 8 < node.length
    · simp [i64ToBytes, hwidth] at h
    · exact ((plainLaws name (by omega) (by omega) _ _).reads_written _ _ h).2
  · cases h

/-- What the feature shows can be set again. -/
def Restorable (node : EventNode) (name : Text) (bytes : List UInt8) : Prop :=
  ∀ text, node.shown name bytes = .ok text → node.encode name text = .ok bytes

theorem Restorable.eq {bytes other : List UInt8} {text : Text} (h : node.Restorable name bytes)
    (hother : node.Restorable name other) (hshown : node.shown name bytes = .ok text)
    (hshownOther : node.shown name other = .ok text) : bytes = other :=
  Except.ok.inj ((h text hshown).symm.trans (hother text hshownOther))

theorem restorable_of_encodeEnum {bytes : List UInt8}
    (h : node.encodeEnum name entry = .ok bytes) : node.Restorable name bytes := by
  intro text hshown
  unfold encodeEnum at h
  unfold shown at hshown
  unfold encode encodeEnum
  cases hkind : node.kind with
  | enumeration table =>
    simp only [hkind] at h hshown ⊢
    cases hvalue : table.value entry with
    | none => simp [hvalue] at h
    | some value =>
      rw [hvalue] at h
      rw [load_of_store h] at hshown
      cases hentry : table.entry value with
      | none => simp [hentry, bind, Except.bind] at hshown
      | some found =>
        simp only [hentry, bind, Except.bind, Except.ok.injEq] at hshown
        subst hshown
        have hfound := EntryTable.value_of_entry hentry
        rw [EntryTable.trim_of_value hfound, hfound]
        exact h
  | integer => simp [hkind] at h
  | boolean onValue offValue => simp [hkind] at h
  | other kind shown parsed => simp [hkind] at h

theorem restorable_of_encodeInteger {bytes : List UInt8}
    (h : node.encodeInteger name value = .ok bytes) : node.Restorable name bytes := by
  intro text hshown
  unfold encodeInteger at h
  unfold shown at hshown
  unfold encode encodeInteger
  cases hkind : node.kind with
  | integer =>
    simp only [hkind] at h hshown ⊢
    rw [load_of_store h] at hshown
    obtain rfl : decimalText value = text := Except.ok.inj hshown
    simp only [parseInteger_decimalText, Int64.ofInt_toInt]
    exact h
  | enumeration table => simp [hkind] at h
  | boolean onValue offValue => simp [hkind] at h
  | other kind shown parsed => simp [hkind] at h

theorem restorable_of_encodeBool {value : Bool} {bytes : List UInt8}
    (h : node.encodeBool name value = .ok bytes) : node.Restorable name bytes := by
  intro text hshown
  unfold encodeBool at h
  unfold shown at hshown
  unfold encode encodeBool
  cases hkind : node.kind with
  | boolean onValue offValue =>
    simp only [hkind] at h hshown ⊢
    rw [load_of_store h] at hshown
    obtain rfl : boolText _ = text := Except.ok.inj hshown
    rw [parseBool_boolText]
    cases value with
    | true => simpa using h
    | false =>
      by_cases hsame : offValue = onValue
      · subst hsame
        simpa using h
      · simpa [hsame] using h
  | integer => simp [hkind] at h
  | enumeration table => simp [hkind] at h
  | other kind shown parsed => simp [hkind] at h

end EventNode

def SameRegisters (s s' : EventSession) : Prop := s'.memory = s.memory ∧ s'.writes = s.writes

def Wrote (register : EventRegister) (bytes : List UInt8) (s s' : EventSession) : Prop :=
  s'.memory = Function.update s.memory register bytes ∧
    s'.writes = s.writes ++ [(register, bytes)]

def Attempted (register : EventRegister) (bytes : List UInt8) (s s' : EventSession) : Prop :=
  (s'.memory = s.memory ∨ s'.memory = Function.update s.memory register bytes) ∧
    s'.writes = s.writes ++ [(register, bytes)]

theorem EventSession.read_ends (line : EventLine) (register : EventRegister) (s : EventSession) :
    Ends (fun bytes s' => SameRegisters s s' ∧ s'.cache = s.cache ∧ bytes = s.memory register)
      (fun s' => SameRegisters s s' ∧ s'.cache = s.cache) (EventSession.read line register s) := by
  unfold EventSession.read
  split
  · exact ⟨⟨rfl, rfl⟩, rfl⟩
  · exact ⟨⟨rfl, rfl⟩, rfl, rfl⟩

theorem EventSession.write_ends (line : EventLine) (register : EventRegister)
    (bytes : List UInt8) (s : EventSession) :
    Ends (fun _ s' => Wrote register bytes s s' ∧ s'.cache = s.cache)
      (fun s' => Attempted register bytes s s') (EventSession.write line register bytes s) := by
  unfold EventSession.write
  split
  · exact ⟨.inr rfl, rfl⟩
  · exact ⟨.inl rfl, rfl⟩
  · exact ⟨⟨rfl, rfl⟩, rfl⟩

variable {selector : EventFeature}

namespace EventCamera

variable {camera : EventCamera} {line : EventLine} {feature : EventFeature}

/-- A cache of the feature is what its register holds. -/
def Coherent (camera : EventCamera) (s : EventSession) (feature : EventFeature) : Prop :=
  ∀ bytes, s.cache feature = some bytes → s.memory (camera.locate s.memory feature) = bytes

def Shows (camera : EventCamera) (feature : EventFeature) (bytes : List UInt8) (text : Text) : Prop :=
  ∃ node, camera.node feature = some node ∧ node.shown feature.name bytes = .ok text

theorem genApi_ends {α : Type} {r : Except GenApiError α} {s : EventSession}
    {Q : α → EventSession → Prop} {E : EventSession → Prop} (hok : ∀ a, r = .ok a → Q a s)
    (herror : E s) : Ends Q E (genApi r s) := by
  cases r with
  | error e => exact herror
  | ok a => exact hok a rfl

variable (s : EventSession)

theorem findNode_ends {E : EventSession → Prop} (herror : E s) :
    Ends (fun node s' => s' = s ∧ camera.node feature = some node) E (camera.findNode feature s) := by
  unfold findNode
  cases hnode : camera.node feature with
  | none => exact herror
  | some node => exact ⟨rfl, rfl⟩

theorem get_ends :
    Ends (fun text s' => SameRegisters s s' ∧
        (∀ g, s'.cache g = s.cache g ∨ s'.cache g = none ∨
          g = feature ∧ s'.cache g = some (s.memory (camera.locate s.memory feature))) ∧
        (camera.Coherent s feature →
          camera.Shows feature (s.memory (camera.locate s.memory feature)) text))
      (fun s' => SameRegisters s s' ∧ s'.cache = s.cache) (camera.get line feature s) := by
  unfold get
  refine (findNode_ends s ⟨⟨rfl, rfl⟩, rfl⟩).bind ?_
  rintro node _ ⟨rfl, hnode⟩
  rw [Attempt.bind_of_ok (show Attempt.get _ = (.ok _, _) from rfl)]
  cases hserved : served line node feature _ with
  | some bytes =>
    refine genApi_ends (fun text hshown => ⟨⟨rfl, rfl⟩, fun _ => .inl rfl, fun hcoherent => ?_⟩)
      ⟨⟨rfl, rfl⟩, rfl⟩
    refine ⟨node, hnode, ?_⟩
    unfold served at hserved
    split at hserved
    · rw [hcoherent bytes hserved]
      exact hshown
    · cases hserved
  | none =>
    refine (EventSession.read_ends line _ _).bind ?_
    rintro bytes s' ⟨⟨hmemory, hwrites⟩, hcache, rfl⟩
    have hsame : SameRegisters _ s' := ⟨hmemory, hwrites⟩
    refine (genApi_ends (Q := fun text t => t = s' ∧ node.shown feature.name _ = .ok text)
      (fun text hshown => ⟨rfl, hshown⟩) ⟨hsame, hcache⟩).bind ?_
    rintro text _ ⟨rfl, hshown⟩
    refine ⟨hsame, fun g => ?_, fun _ => ⟨node, hnode, hshown⟩⟩
    by_cases hg : g = feature
    · subst hg
      simp only [EventSession.keep, Function.update_self]
      split
      · exact .inr (.inl rfl)
      · exact .inr (.inr ⟨trivial, rfl⟩)
    · simp only [EventSession.keep, Function.update_of_ne hg]
      exact .inl (congrFun hcache g)

theorem put_ends {encode : EventNode → Except GenApiError (List UInt8)} :
    Ends (fun _ s' => ∃ node bytes, camera.node feature = some node ∧ encode node = .ok bytes ∧
        Wrote (camera.locate s.memory feature) bytes s s' ∧
        ∀ g, s'.cache g = none ∨ (g = feature ∧ s'.cache g = some bytes) ∨
          (g ≠ feature ∧ s'.cache g = s.cache g))
      (fun s' => SameRegisters s s' ∨ ∃ node bytes, camera.node feature = some node ∧
        encode node = .ok bytes ∧ Attempted (camera.locate s.memory feature) bytes s s')
      (camera.put line feature encode s) := by
  unfold put
  refine (findNode_ends s (.inl ⟨rfl, rfl⟩)).bind ?_
  rintro node _ ⟨rfl, hnode⟩
  refine (genApi_ends (Q := fun bytes t => t = _ ∧ encode node = .ok bytes)
    (fun bytes hencode => ⟨rfl, hencode⟩) (.inl ⟨rfl, rfl⟩)).bind ?_
  rintro bytes _ ⟨rfl, hencode⟩
  rw [Attempt.bind_of_ok (show Attempt.get _ = (.ok _, _) from rfl)]
  refine ((EventSession.write_ends line _ _ _).mono (fun _ _ h => h)
    fun s' h => .inr ⟨node, bytes, hnode, hencode, h⟩).bind ?_
  rintro - s' ⟨hwrote, hcache⟩
  refine ⟨node, bytes, hnode, hencode, hwrote, fun g => ?_⟩
  simp only [EventSession.invalidateDependents, EventSession.keep]
  split
  · exact .inl rfl
  · by_cases hg : g = feature
    · subst hg
      rw [Function.update_self]
      split
      · exact .inr (.inl ⟨rfl, rfl⟩)
      · exact .inl rfl
    · rw [Function.update_of_ne hg, hcache]
      exact .inr (.inr ⟨hg, rfl⟩)

theorem channelSelector_cases (h : camera.channelSelector = some selector) :
    selector = .gevMessageChannelSelector ∨ selector = .messageChannelSelector := by
  have hmem := List.mem_of_find?_eq_some h
  simpa [msgSel] using hmem

theorem locate_channelSelector (memory : EventMemory) (h : camera.channelSelector = some selector) :
    camera.locate memory selector = .plain selector := by
  rcases channelSelector_cases h with rfl | rfl
  · rfl
  · rfl

/-- A register that no feature is located by. -/
def Inert (camera : EventCamera) (register : EventRegister) : Prop :=
  register ≠ .plain .eventSelector ∧
    ∀ selector, camera.channelSelector = some selector → register ≠ .plain selector

theorem selection_congr {memory memory' : EventMemory} {selector : EventFeature}
    (h : memory' (.plain selector) = memory (.plain selector)) :
    camera.selection memory' selector = camera.selection memory selector := by
  simp only [selection, h]

theorem locate_congr {memory memory' : EventMemory}
    (hevent : memory' (.plain .eventSelector) = memory (.plain .eventSelector))
    (hchannel : ∀ selector, camera.channelSelector = some selector →
      memory' (.plain selector) = memory (.plain selector)) (feature : EventFeature) :
    camera.locate memory' feature = camera.locate memory feature := by
  cases hselector : camera.channelSelector with
  | none => cases feature <;> simp only [locate, hselector, selection_congr hevent]
  | some selector =>
    have hselection := @selection_congr camera _ _ _ (hchannel selector hselector)
    cases feature <;> simp only [locate, hselector, selection_congr hevent, hselection]

theorem locate_update {memory : EventMemory} {register : EventRegister} (bytes : List UInt8)
    (h : camera.Inert register) (feature : EventFeature) :
    camera.locate (Function.update memory register bytes) feature = camera.locate memory feature :=
  locate_congr (Function.update_of_ne (Ne.symm h.1) _ _)
    (fun selector hselector => Function.update_of_ne (Ne.symm (h.2 selector hselector)) _ _) feature

theorem locate_self (memory : EventMemory) (bytes : List UInt8) (feature : EventFeature) :
    camera.locate (Function.update memory (camera.locate memory feature) bytes) feature =
      camera.locate memory feature := by
  cases hselector : camera.channelSelector with
  | none =>
    cases feature <;> simp [locate, hselector, selection]
  | some selector =>
    cases feature <;> simp [locate, hselector, selection]

theorem setIfChanged_ends {value : Text} :
    Ends (fun _ s' => (∀ g, camera.Coherent s' g) ∧
        ((SameRegisters s s' ∧
            camera.Shows feature (s.memory (camera.locate s.memory feature)) value) ∨
          ∃ node bytes, camera.node feature = some node ∧
            node.encode feature.name value = .ok bytes ∧
            Wrote (camera.locate s.memory feature) bytes s s' ∧
            ¬ camera.Shows feature (s.memory (camera.locate s.memory feature)) value))
      (fun s' => SameRegisters s s' ∨ ∃ node bytes, camera.node feature = some node ∧
        node.encode feature.name value = .ok bytes ∧
        Attempted (camera.locate s.memory feature) bytes s s')
      (camera.setIfChanged line feature value s) := by
  unfold setIfChanged
  rw [Attempt.bind_of_ok (show Attempt.modify _ s = (.ok (), s.invalidateAll) from rfl)]
  refine ((get_ends s.invalidateAll).mono (fun _ _ h => h) fun s' h => .inl h.1).bind ?_
  rintro current s₁ ⟨hsame, hcache, hshows⟩
  have hshown := hshows (fun bytes h => by cases h)
  have hlocate : camera.locate s₁.memory feature = camera.locate s.memory feature := by
    rw [hsame.1]
    rfl
  have hnone : ∀ g, s₁.cache g = none ∨ g = feature ∧
      s₁.cache g = some (s.memory (camera.locate s.memory feature)) := fun g =>
    (hcache g).elim .inl id
  split
  · rename_i hvalue
    subst hvalue
    refine ⟨fun g bytes hbytes => ?_, .inl ⟨hsame, hshown⟩⟩
    rcases hnone g with h | ⟨rfl, h⟩
    · simp [h] at hbytes
    · rw [hlocate, hsame.1]
      exact Option.some.inj (h.symm.trans hbytes)
  · rename_i hvalue
    refine (put_ends s₁).mono ?_ ?_
    · rintro - s' ⟨node, bytes, hnode, hencode, hwrote, hcached⟩
      rw [hlocate] at hwrote
      have hmemory : s'.memory = Function.update s.memory (camera.locate s.memory feature) bytes := by
        rw [hwrote.1, hsame.1]
        rfl
      refine ⟨fun g kept hkept => ?_, .inr ⟨node, bytes, hnode, hencode, ⟨hmemory, ?_⟩, ?_⟩⟩
      · rcases hcached g with h | ⟨rfl, h⟩ | ⟨hne, h⟩
        · simp [h] at hkept
        · rw [hmemory, locate_self, Function.update_self]
          exact Option.some.inj (h.symm.trans hkept)
        · rcases hnone g with h' | ⟨heq, -⟩
          · simp [h, h'] at hkept
          · exact absurd heq hne
      · rw [hwrote.2, hsame.2]
        rfl
      · rintro ⟨other, hother, hshownOther⟩
        obtain ⟨node', hnode', hshown'⟩ := hshown
        cases hother.symm.trans hnode'
        exact hvalue (Except.ok.inj (hshown'.symm.trans hshownOther))
    · rintro s' (h | ⟨node, bytes, hnode, hencode, hattempted⟩)
      · exact .inl ⟨h.1.trans hsame.1, h.2.trans hsame.2⟩
      · rw [hlocate] at hattempted
        refine .inr ⟨node, bytes, hnode, hencode, ?_, ?_⟩
        · simpa only [show s₁.memory = s.memory from hsame.1] using hattempted.1
        · rw [hattempted.2, hsame.2]
          rfl

end EventCamera

def EventRegister.feature : EventRegister → Option EventFeature
  | plain feature | selected feature _ => some feature
  | bootstrap _ => none

namespace EventCamera

variable {camera : EventCamera} {line : EventLine} {feature : EventFeature}

theorem feature_locate (memory : EventMemory) (feature : EventFeature) :
    (camera.locate memory feature).feature = some feature := by
  cases hselector : camera.channelSelector with
  | none => cases feature <;> simp [locate, hselector, EventRegister.feature]
  | some selector => cases feature <;> simp [locate, hselector, EventRegister.feature]

/-- Bytes that the register's feature can set again. -/
def Settable (camera : EventCamera) (register : EventRegister) (bytes : List UInt8) : Prop :=
  ∀ feature node, register.feature = some feature → camera.node feature = some node →
    node.Restorable feature.name bytes

/-- What is in the registers can be set again. -/
def AllSettable (camera : EventCamera) (memory : EventMemory) : Prop :=
  ∀ register, camera.Settable register (memory register)

def entryValue (camera : EventCamera) (feature : EventFeature) (entry : Text) : Option Int64 :=
  (camera.node feature).bind fun node =>
    match node.kind with
    | .enumeration table => table.value entry
    | _ => none

/-- A setup for `selectors` may write it: a notification of these alone, and a feature of
the first channel alone. -/
def Own (camera : EventCamera) (selectors : List Text) : EventRegister → Prop
  | .selected .eventNotification entry => ∃ selector ∈ selectors, ∃ value,
      camera.entryValue .eventSelector selector = some value ∧ entry = some value
  | .selected _ entry => ∃ selector target value, camera.channelSelector = some selector ∧
      camera.firstEntry selector = some target ∧
      camera.entryValue selector target = some value ∧ entry = some value
  | _ => True

variable {selectors : List Text} {memory : EventMemory} {sent : List (EventRegister × List UInt8)}
  {S T : Set EventRegister} {s s' : EventSession}

/-- Outside `S` the registers are as in `memory`, and what was sent since is the setup's
own. -/
structure Within (camera : EventCamera) (selectors : List Text) (memory : EventMemory)
    (sent : List (EventRegister × List UInt8)) (S : Set EventRegister) (s : EventSession) : Prop where
  settable : camera.AllSettable s.memory
  off : ∀ register, register ∉ S → s.memory register = memory register
  own : ∃ new, s.writes = sent ++ new ∧ ∀ write ∈ new, camera.Own selectors write.1

namespace Within

variable {register : EventRegister} {bytes : List UInt8}

theorem mono (h : camera.Within selectors memory sent S s) (hsub : S ⊆ T) :
    camera.Within selectors memory sent T s :=
  ⟨h.settable, fun register hnot => h.off register fun hmem => hnot (hsub hmem), h.own⟩

theorem same (h : camera.Within selectors memory sent S s) (hsame : SameRegisters s s') :
    camera.Within selectors memory sent S s' := by
  obtain ⟨hmemory, hwrites⟩ := hsame
  obtain ⟨hsettable, hoff, hown⟩ := h
  exact ⟨hmemory ▸ hsettable, hmemory ▸ hoff, hwrites ▸ hown⟩

theorem sends (h : camera.Within selectors memory sent S s) (hregister : camera.Own selectors register)
    (hwrites : s'.writes = s.writes ++ [(register, bytes)]) :
    ∃ new, s'.writes = sent ++ new ∧ ∀ write ∈ new, camera.Own selectors write.1 := by
  obtain ⟨new, hnew, hown⟩ := h.own
  refine ⟨new ++ [(register, bytes)], by rw [hwrites, hnew, List.append_assoc], ?_⟩
  intro write hwrite
  rcases List.mem_append.mp hwrite with hold | hlast
  · exact hown write hold
  · obtain rfl := List.mem_singleton.mp hlast
    exact hregister

theorem update_settable (h : camera.Within selectors memory sent S s)
    (hbytes : camera.Settable register bytes) :
    camera.AllSettable (Function.update s.memory register bytes) := by
  intro other
  by_cases heq : other = register
  · subst heq
    rwa [Function.update_self]
  · rw [Function.update_of_ne heq]
    exact h.settable other

theorem wrote (h : camera.Within selectors memory sent S s) (hwrote : Wrote register bytes s s')
    (hmem : register ∈ S) (hregister : camera.Own selectors register)
    (hbytes : camera.Settable register bytes) : camera.Within selectors memory sent S s' := by
  refine ⟨hwrote.1 ▸ h.update_settable hbytes, fun other hnot => ?_, h.sends hregister hwrote.2⟩
  have hne : other ≠ register := fun heq => hnot (by rwa [heq])
  rw [hwrote.1, Function.update_of_ne hne]
  exact h.off other hnot

theorem attempted (h : camera.Within selectors memory sent S s)
    (hattempted : Attempted register bytes s s') (hmem : register ∈ S)
    (hregister : camera.Own selectors register) (hbytes : camera.Settable register bytes) :
    camera.Within selectors memory sent S s' := by
  rcases hattempted with ⟨hsame | hwrote, hwrites⟩
  · exact ⟨hsame ▸ h.settable, hsame ▸ h.off, h.sends hregister hwrites⟩
  · exact h.wrote ⟨hwrote, hwrites⟩ hmem hregister hbytes

theorem remove (h : camera.Within selectors memory sent S s)
    (hheld : s.memory register = memory register) :
    camera.Within selectors memory sent (S \ {register}) s := by
  refine ⟨h.settable, fun other hnot => ?_, h.own⟩
  by_cases heq : other = register
  · subst heq
    exact hheld
  · exact h.off other fun hmem => hnot ⟨hmem, heq⟩

theorem insert_of_eq (h : camera.Within selectors memory sent S s)
    (hwrote : Wrote register (memory register) s s') (hregister : camera.Own selectors register)
    (hbytes : camera.Settable register (memory register)) :
    camera.Within selectors memory sent (S \ {register}) s' := by
  have hall : camera.Within selectors memory sent (insert register S) s' :=
    (h.mono (Set.subset_insert _ _)).wrote hwrote (Set.mem_insert _ _) hregister hbytes
  refine (hall.remove (by rw [hwrote.1, Function.update_self])).mono ?_
  rintro other ⟨heq | hmem, hne⟩
  · exact absurd heq hne
  · exact ⟨hmem, hne⟩

end Within

variable {node : EventNode}

theorem settable_locate {bytes : List UInt8}
    (hnode : camera.node feature = some node) (hrestorable : node.Restorable feature.name bytes) :
    camera.Settable (camera.locate memory feature) bytes := by
  intro other node' hother hnode'
  rw [feature_locate] at hother
  cases hother
  cases hnode.symm.trans hnode'
  exact hrestorable

theorem put_keeps {encode : EventNode → Except GenApiError (List UInt8)}
    (h : camera.Within selectors memory sent S s) (hmem : camera.locate s.memory feature ∈ S)
    (hown : camera.Own selectors (camera.locate s.memory feature))
    (hencode : ∀ node bytes, camera.node feature = some node → encode node = .ok bytes →
      node.Restorable feature.name bytes) :
    Ends (fun _ => camera.Within selectors memory sent S) (camera.Within selectors memory sent S)
      (camera.put line feature encode s) := by
  refine (put_ends s).mono ?_ ?_
  · rintro - s' ⟨node, bytes, hnode, hbytes, hwrote, -⟩
    exact h.wrote hwrote hmem hown (settable_locate hnode (hencode node bytes hnode hbytes))
  · rintro s' (hsame | ⟨node, bytes, hnode, hbytes, hattempted⟩)
    · exact h.same hsame
    · exact h.attempted hattempted hmem hown (settable_locate hnode (hencode node bytes hnode hbytes))

theorem setIfChanged_keeps {value : Text} (h : camera.Within selectors memory sent S s)
    (hmem : camera.locate s.memory feature ∈ S)
    (hown : camera.Own selectors (camera.locate s.memory feature))
    (hencode : ∀ node bytes, camera.node feature = some node →
      node.encode feature.name value = .ok bytes → node.Restorable feature.name bytes) :
    Ends (fun _ => camera.Within selectors memory sent S) (camera.Within selectors memory sent S)
      (camera.setIfChanged line feature value s) := by
  refine (setIfChanged_ends s).mono ?_ ?_
  · rintro - s' ⟨-, ⟨hsame, -⟩ | ⟨node, bytes, hnode, hbytes, hwrote, -⟩⟩
    · exact h.same hsame
    · exact h.wrote hwrote hmem hown (settable_locate hnode (hencode node bytes hnode hbytes))
  · rintro s' (hsame | ⟨node, bytes, hnode, hbytes, hattempted⟩)
    · exact h.same hsame
    · exact h.attempted hattempted hmem hown (settable_locate hnode (hencode node bytes hnode hbytes))

theorem setIfChanged_restores {value : Text} (h : camera.Within selectors memory sent S s)
    (hmemory : camera.AllSettable memory)
    (hown : camera.Own selectors (camera.locate s.memory feature))
    (hshows : camera.Shows feature (memory (camera.locate s.memory feature)) value) :
    Ends (fun _ s' => camera.Within selectors memory sent (S \ {camera.locate s.memory feature}) s' ∧
        s'.memory = Function.update s.memory (camera.locate s.memory feature)
          (memory (camera.locate s.memory feature)))
      (fun s' => camera.Within selectors memory sent S s' ∧ (s'.memory = s.memory ∨
        s'.memory = Function.update s.memory (camera.locate s.memory feature)
          (memory (camera.locate s.memory feature))))
      (camera.setIfChanged line feature value s) := by
  obtain ⟨node, hnode, hshown⟩ := hshows
  have hheld := hmemory (camera.locate s.memory feature) feature node
    (feature_locate s.memory feature) hnode
  have hencoded : ∀ node' bytes, camera.node feature = some node' →
      node'.encode feature.name value = .ok bytes →
      bytes = memory (camera.locate s.memory feature) := by
    intro node' bytes hnode' hbytes
    cases hnode.symm.trans hnode'
    exact Except.ok.inj (hbytes.symm.trans (hheld value hshown))
  refine (setIfChanged_ends s).mono ?_ ?_
  · rintro - s' ⟨-, ⟨hsame, hnow⟩ | ⟨node', bytes, hnode', hbytes, hwrote, -⟩⟩
    · obtain ⟨node', hnode', hshown'⟩ := hnow
      cases hnode.symm.trans hnode'
      have heq := (h.settable _ feature node (feature_locate _ _) hnode).eq hheld hshown' hshown
      refine ⟨(h.same hsame).remove (by rw [hsame.1, heq]), ?_⟩
      rw [← heq, Function.update_eq_self]
      exact hsame.1
    · obtain rfl := hencoded node' bytes hnode' hbytes
      exact ⟨h.insert_of_eq hwrote hown (hmemory _), hwrote.1⟩
  · rintro s' (hsame | ⟨node', bytes, hnode', hbytes, hattempted⟩)
    · exact ⟨h.same hsame, .inl hsame.1⟩
    · obtain rfl := hencoded node' bytes hnode' hbytes
      refine ⟨?_, hattempted.1⟩
      rcases hattempted with ⟨hsame | hwrote, hwrites⟩
      · exact ⟨hsame ▸ h.settable, hsame ▸ h.off, h.sends hown hwrites⟩
      · exact (h.insert_of_eq ⟨hwrote, hwrites⟩ hown (hmemory _)).mono Set.sdiff_subset

theorem entryValue_spec
    (h : camera.entryValue feature entry = some value) (hnode : camera.node feature = some node) :
    ∃ table, node.kind = .enumeration table ∧ table.value entry = some value := by
  simp only [entryValue, hnode, Option.bind_some] at h
  cases hkind : node.kind with
  | enumeration table =>
    rw [hkind] at h
    exact ⟨table, rfl, h⟩
  | integer => simp [hkind] at h
  | boolean onValue offValue => simp [hkind] at h
  | other kind shown parsed => simp [hkind] at h

theorem encodeEnum_of_entryValue
    (h : camera.entryValue feature entry = some value) (hnode : camera.node feature = some node) :
    node.encodeEnum feature.name entry = node.store feature.name value := by
  obtain ⟨table, hkind, hvalue⟩ := entryValue_spec h hnode
  simp only [EventNode.encodeEnum, hkind, hvalue]

theorem encode_of_entryValue
    (h : camera.entryValue feature entry = some value) (hnode : camera.node feature = some node) :
    node.encode feature.name entry = node.encodeEnum feature.name entry := by
  obtain ⟨table, hkind, hvalue⟩ := entryValue_spec h hnode
  simp only [EventNode.encode, hkind, EntryTable.trim_of_value hvalue]

theorem restorable_of_entryValue
    {bytes : List UInt8} (h : camera.entryValue feature entry = some value)
    (hnode : camera.node feature = some node)
    (hbytes : node.encode feature.name entry = .ok bytes) : node.Restorable feature.name bytes := by
  rw [encode_of_entryValue h hnode] at hbytes
  exact EventNode.restorable_of_encodeEnum hbytes

theorem selection_of_load (hnode : camera.node feature = some node)
    (h : node.load feature.name (s.memory (.plain feature)) = .ok value) :
    camera.selection s.memory feature = some value := by
  simp only [selection, hnode, Option.bind_some, h, Except.toOption]

theorem selection_of_shows {entry : Text} {value : Int64}
    (hentry : camera.entryValue feature entry = some value)
    (hshows : camera.Shows feature (s.memory (.plain feature)) entry) :
    camera.selection s.memory feature = some value := by
  obtain ⟨node, hnode, hshown⟩ := hshows
  obtain ⟨table, hkind, hvalue⟩ := entryValue_spec hentry hnode
  apply selection_of_load hnode
  simp only [EventNode.shown, hkind] at hshown
  cases hload : node.load feature.name (s.memory (.plain feature)) with
  | error e => simp [hload, bind, Except.bind] at hshown
  | ok raw =>
    cases hfound : table.entry raw with
    | none => simp [hload, hfound, bind, Except.bind] at hshown
    | some found =>
      simp only [hload, hfound, bind, Except.bind, Except.ok.injEq] at hshown
      subst hshown
      rw [EntryTable.value_of_entry hfound] at hvalue
      rw [Option.some.inj hvalue]

theorem selection_of_wrote {bytes : List UInt8}
    (hentry : camera.entryValue feature entry = some value) (hnode : camera.node feature = some node)
    (hbytes : node.encodeEnum feature.name entry = .ok bytes)
    (hwrote : Wrote (.plain feature) bytes s s') :
    camera.selection s'.memory feature = some value := by
  rw [encodeEnum_of_entryValue hentry hnode] at hbytes
  apply selection_of_load hnode
  rw [hwrote.1, Function.update_self]
  exact EventNode.load_of_store hbytes

theorem setIfChanged_selects (hentry : camera.entryValue feature entry = some value)
    (hplain : camera.locate s.memory feature = .plain feature)
    (hrun : camera.setIfChanged line feature entry s = (.ok (), s')) :
    camera.selection s'.memory feature = some value := by
  obtain ⟨-, ⟨hsame, hshows⟩ | ⟨node, bytes, hnode, hbytes, hwrote, -⟩⟩ := (setIfChanged_ends s).returns hrun
  · rw [hplain] at hshows
    exact selection_of_shows hentry (hsame.1 ▸ hshows)
  · rw [hplain] at hwrote
    rw [encode_of_entryValue hentry hnode] at hbytes
    exact selection_of_wrote hentry hnode hbytes hwrote

def notificationRegister (camera : EventCamera) (selector : Text) : EventRegister :=
  .selected .eventNotification (camera.entryValue .eventSelector selector)

/-- The register of a channel's feature under the first channel. -/
def channelRegister (camera : EventCamera) (feature : EventFeature) : EventRegister :=
  match camera.channelSelector with
  | some selector => .selected feature ((camera.firstEntry selector).bind (camera.entryValue selector))
  | none => .plain feature

def channelFeatures : List EventFeature := msgIp ++ msgPort ++ msgEn

/-- The channel's registers held in `memory` what was saved of them. -/
structure ChannelSaved (camera : EventCamera) (memory : EventMemory) (channel : EventChannel) :
    Prop where
  raw : ∀ saved ∈ channel.raw, saved.2 = memory (.bootstrap saved.1)
  selector : ∀ name previous target, channel.selector = some (name, previous, target) →
    camera.channelSelector = some name ∧ camera.firstEntry name = some target ∧
      (camera.entryValue name target).isSome ∧
      camera.Shows name (memory (.plain name)) previous
  features : ∀ saved ∈ channel.features, saved.1 ∈ channelFeatures ∧
    camera.Shows saved.1 (memory (camera.channelRegister saved.1)) saved.2
  selected : channel.features ≠ [] → channel.selector = none → camera.channelSelector = none

/-- The registers held in `memory` what was saved of them. -/
structure Saved (camera : EventCamera) (selectors : List Text) (memory : EventMemory)
    (saved : EventConfiguration) : Prop where
  eventSelector : ∀ text, saved.eventSelector = some text →
    camera.Shows .eventSelector (memory (.plain .eventSelector)) text
  notifications : ∀ note ∈ saved.notifications, note.1 ∈ selectors ∧
    (camera.entryValue .eventSelector note.1).isSome ∧
      camera.Shows .eventNotification (memory (camera.notificationRegister note.1)) note.2
  selected : saved.notifications ≠ [] → saved.eventSelector.isSome
  channel : ∀ channel, saved.channel = some channel → camera.ChannelSaved memory channel
  identity : saved.identity = camera.identity

def channelRegisters (camera : EventCamera) (channel : EventChannel) : Set EventRegister :=
  {register | (∃ saved ∈ channel.raw, register = .bootstrap saved.1) ∨
    (∃ saved, channel.selector = some saved ∧ register = .plain saved.1) ∨
    ∃ saved ∈ channel.features, register = camera.channelRegister saved.1}

/-- The registers that restoring what was saved puts back. -/
def savedRegisters (camera : EventCamera) (saved : EventConfiguration) : Set EventRegister :=
  {register | (saved.eventSelector.isSome ∧ register = .plain .eventSelector) ∨
    (∃ note ∈ saved.notifications, register = camera.notificationRegister note.1) ∨
    ∃ channel, saved.channel = some channel ∧ register ∈ camera.channelRegisters channel}

theorem own_notificationRegister {selector : Text} (hmem : selector ∈ selectors)
    (hvalue : (camera.entryValue .eventSelector selector).isSome) :
    camera.Own selectors (camera.notificationRegister selector) := by
  obtain ⟨value, hvalue⟩ := Option.isSome_iff_exists.mp hvalue
  exact ⟨selector, hmem, value, hvalue, hvalue⟩

theorem locate_notification {selector : Text}
    (h : camera.selection s.memory .eventSelector = camera.entryValue .eventSelector selector) :
    camera.locate s.memory .eventNotification = camera.notificationRegister selector := by
  rw [notificationRegister, ← h]
  rfl

/-- Every feature of the channel stands for its register under the first channel. -/
def Aligned (camera : EventCamera) (memory : EventMemory) : Prop :=
  ∀ feature ∈ channelFeatures, camera.locate memory feature = camera.channelRegister feature

theorem locate_channelFeature (memory : EventMemory) (hfeature : feature ∈ channelFeatures) :
    camera.locate memory feature = match camera.channelSelector with
      | some selector => .selected feature (camera.selection memory selector)
      | none => .plain feature := by
  simp only [channelFeatures, msgIp, msgPort, msgEn, List.cons_append, List.nil_append,
    List.mem_cons, List.not_mem_nil, or_false] at hfeature
  rcases hfeature with rfl | rfl | rfl | rfl | rfl | rfl
  all_goals rfl

theorem aligned_of_selection {target : Text} {memory : EventMemory}
    (hselector : camera.channelSelector = some selector)
    (htarget : camera.firstEntry selector = some target)
    (h : camera.selection memory selector = camera.entryValue selector target) :
    camera.Aligned memory := by
  intro feature hfeature
  rw [locate_channelFeature memory hfeature]
  simp only [channelRegister, hselector, htarget, Option.bind_some, h]

theorem aligned_of_none (hselector : camera.channelSelector = none) (memory : EventMemory) :
    camera.Aligned memory := by
  intro feature hfeature
  rw [locate_channelFeature memory hfeature]
  simp only [channelRegister, hselector]

theorem inert_channelRegister (hfeature : feature ∈ channelFeatures) :
    camera.Inert (camera.channelRegister feature) := by
  cases hselector : camera.channelSelector with
  | some selector =>
    simp only [channelRegister, hselector]
    exact ⟨fun h => (by cases h), fun _ _ h => (by cases h)⟩
  | none =>
    simp only [channelRegister, hselector]
    refine ⟨fun h => ?_, fun _ h => ?_⟩
    · rw [EventRegister.plain.inj h] at hfeature
      exact absurd hfeature (by decide)
    · simp [hselector] at h

theorem Aligned.update {memory : EventMemory} (h : camera.Aligned memory)
    (hfeature : feature ∈ channelFeatures) (bytes : List UInt8) :
    camera.Aligned (Function.update memory (camera.channelRegister feature) bytes) := by
  intro other hother
  rw [locate_update bytes (inert_channelRegister hfeature)]
  exact h other hother

theorem own_channelRegister (hfeature : feature ∈ channelFeatures)
    (hvalue : ∀ selector, camera.channelSelector = some selector →
      ∃ target, camera.firstEntry selector = some target ∧
        (camera.entryValue selector target).isSome) :
    camera.Own selectors (camera.channelRegister feature) := by
  cases hselector : camera.channelSelector with
  | none =>
    simp only [channelRegister, hselector]
    trivial
  | some selector =>
    obtain ⟨target, htarget, hsome⟩ := hvalue selector hselector
    obtain ⟨value, hvalue⟩ := Option.isSome_iff_exists.mp hsome
    simp only [channelRegister, hselector, htarget, Option.bind_some, hvalue]
    simp only [channelFeatures, msgIp, msgPort, msgEn, List.cons_append, List.nil_append,
      List.mem_cons, List.not_mem_nil, or_false] at hfeature
    rcases hfeature with rfl | rfl | rfl | rfl | rfl | rfl
    all_goals exact ⟨selector, target, _, hselector, htarget, hvalue, rfl⟩

end EventCamera

/-- `P` holds now, and `Q` as well unless something could not be restored. -/
def Restored (P Q : EventSession → Prop) (r : Restoration) : Prop :=
  P r.session ∧ (r.report.isComplete = true → Q r.session)

theorem EventRestoreReport.isComplete_failed (report : EventRestoreReport)
    (failure : Text × EventError) :
    ({ report with failures := report.failures ++ [failure] } : EventRestoreReport).isComplete =
      false := by
  simp [isComplete]

theorem EventRestoreReport.isComplete_skipped (report : EventRestoreReport)
    (reason : EventRestoreSkipped) :
    ({ report with skipped := some reason } : EventRestoreReport).isComplete = false := by
  simp [isComplete]

section

variable {line : EventLine} {setting : Text} {restore : EventStep Unit} {r : Restoration}
  {P P' Q Q' : EventSession → Prop}

theorem restoreStep_restored (h : Restored P Q r)
    (hP : P r.session → Ends (fun _ => P) P (restore r.session))
    (hQ : P r.session → Q r.session → Ends (fun _ => Q') (fun _ => True) (restore r.session)) :
    Restored P Q' (restoreStep line setting restore r).2 := by
  unfold restoreStep
  split
  · refine ⟨h.1, fun hcomplete => ?_⟩
    rw [EventRestoreReport.isComplete_skipped] at hcomplete
    cases hcomplete
  · split
    · rename_i s hrun
      exact ⟨(hP h.1).returns hrun, fun hcomplete => (hQ h.1 (h.2 hcomplete)).returns hrun⟩
    · rename_i error s hrun
      refine ⟨(hP h.1).stops hrun, fun hcomplete => ?_⟩
      rw [EventRestoreReport.isComplete_failed] at hcomplete
      cases hcomplete

theorem restoreStep_done (h : (restoreStep line setting restore r).1 = true) :
    restore r.session = (.ok (), (restoreStep line setting restore r).2.session) := by
  unfold restoreStep at h ⊢
  split
  · rename_i hskipped
    simp [hskipped] at h
  · rename_i hskipped
    split
    · rename_i s hrun
      exact hrun
    · rename_i error s hrun
      simp [hskipped, hrun] at h

theorem restoreStep_refused (h : (restoreStep line setting restore r).1 = false) :
    (restoreStep line setting restore r).2.report.isComplete = false := by
  unfold restoreStep at h ⊢
  split
  · exact EventRestoreReport.isComplete_skipped _ _
  · rename_i hskipped
    split
    · rename_i s hrun
      simp [hskipped, hrun] at h
    · exact EventRestoreReport.isComplete_failed _ _

theorem Restored.of_incomplete (h : Restored P Q r) (hincomplete : r.report.isComplete = false) :
    Restored P Q' r := by
  refine ⟨h.1, fun hcomplete => ?_⟩
  rw [hincomplete] at hcomplete
  cases hcomplete

theorem Restored.mono (h : Restored P Q r) (hP : ∀ s, P s → P' s) (hQ : ∀ s, Q s → Q' s) :
    Restored P' Q' r :=
  ⟨hP _ h.1, fun hcomplete => hQ _ (h.2 hcomplete)⟩

end

namespace EventCamera

variable {camera : EventCamera} {line : EventLine} {selectors : List Text} {memory : EventMemory}
  {sent : List (EventRegister × List UInt8)} {S T : Set EventRegister} {r : Restoration}

theorem selecting_keeps {feature : EventFeature} {entry : Text} {s : EventSession}
    (h : camera.Within selectors memory sent S s)
    (hplain : camera.locate s.memory feature = .plain feature) (hmem : .plain feature ∈ S)
    (hvalue : (camera.entryValue feature entry).isSome) :
    Ends (fun _ => camera.Within selectors memory sent S) (camera.Within selectors memory sent S)
      (camera.setIfChanged line feature entry s) := by
  obtain ⟨value, hvalue⟩ := Option.isSome_iff_exists.mp hvalue
  refine setIfChanged_keeps h (hplain ▸ hmem) (hplain ▸ trivial) ?_
  intro node bytes hnode hbytes
  exact restorable_of_entryValue hvalue hnode hbytes

theorem restoreNotifications_restored (line : EventLine) (hmemory : camera.AllSettable memory) (hsub : T ⊆ S)
    {notes : List (Text × Text)}
    (hnotes : ∀ note ∈ notes, note.1 ∈ selectors ∧
      (camera.entryValue .eventSelector note.1).isSome ∧
        camera.Shows .eventNotification (memory (camera.notificationRegister note.1)) note.2)
    (hselector : notes ≠ [] → .plain .eventSelector ∈ T)
    (h : Restored (camera.Within selectors memory sent S) (camera.Within selectors memory sent T) r) :
    Restored (camera.Within selectors memory sent S)
      (camera.Within selectors memory sent
        (T \ {register | ∃ note ∈ notes, register = camera.notificationRegister note.1}))
      (camera.restoreNotifications line notes r) := by
  induction notes generalizing T r with
  | nil =>
    refine h.mono (fun _ h => h) fun s hs => hs.mono ?_
    intro register hmem
    exact ⟨hmem, by simp⟩
  | cons note rest ih =>
    obtain ⟨selector, previous⟩ := note
    obtain ⟨hown, hvalue, hshows⟩ := hnotes _ (List.mem_cons_self ..)
    have hmemT := hselector (by simp)
    have hrest : ∀ {r'}, Restored (camera.Within selectors memory sent S)
        (camera.Within selectors memory sent (T \ {camera.notificationRegister selector})) r' →
        Restored (camera.Within selectors memory sent S) (camera.Within selectors memory sent
          (T \ {register | ∃ note ∈ (selector, previous) :: rest,
            register = camera.notificationRegister note.1}))
          (camera.restoreNotifications line rest r') := by
      intro r' hr'
      refine (ih (Set.sdiff_subset.trans hsub)
        (fun note hnote => hnotes note (List.mem_cons_of_mem _ hnote)) ?_ hr').mono
        (fun _ h => h) fun s hs => hs.mono ?_
      · intro _
        exact ⟨hmemT, fun h => by cases h⟩
      · rintro register ⟨⟨hmem, hne⟩, hnot⟩
        refine ⟨hmem, ?_⟩
        rintro ⟨other, hother, rfl⟩
        rcases List.mem_cons.mp hother with rfl | hother
        · exact hne rfl
        · exact hnot ⟨other, hother, rfl⟩
    have hselected := @restoreStep_restored line EventFeature.eventSelector.name
      (camera.setIfChanged line .eventSelector selector) r _ _ _ h
      (fun hs => selecting_keeps hs rfl (hsub hmemT) hvalue)
      (fun _ hs => (selecting_keeps hs rfl hmemT hvalue).mono (fun _ _ h => h) fun _ _ => trivial)
    simp only [restoreNotifications]
    cases hdone : (restoreStep line EventFeature.eventSelector.name
      (camera.setIfChanged line .eventSelector selector) r).1 with
    | true =>
      rw [if_pos rfl]
      obtain ⟨value, hvalue⟩ := Option.isSome_iff_exists.mp hvalue
      have hselection := setIfChanged_selects hvalue rfl (restoreStep_done hdone)
      have hlocate := locate_notification (hselection.trans hvalue.symm)
      have hownRegister := own_notificationRegister hown (Option.isSome_iff_exists.mpr ⟨value, hvalue⟩)
      apply hrest
      refine restoreStep_restored hselected (fun hs => ?_) fun _ hs => ?_
      · refine (setIfChanged_restores hs hmemory (hlocate ▸ hownRegister) (hlocate ▸ hshows)).mono
          (fun _ _ h => h.1.mono Set.sdiff_subset) fun _ h => h.1
      · refine (setIfChanged_restores hs hmemory (hlocate ▸ hownRegister) (hlocate ▸ hshows)).mono
          (fun _ _ h => ?_) fun _ _ => trivial
        rw [hlocate] at h
        exact h.1
    | false =>
      have hincomplete := restoreStep_refused hdone
      rw [if_neg (by simp)]
      split
      · exact hselected.of_incomplete hincomplete
      · exact hrest (hselected.of_incomplete hincomplete)

theorem restoreFeatures_restored (line : EventLine) (hmemory : camera.AllSettable memory)
    {features : List (EventFeature × Text)}
    (hfeatures : ∀ saved ∈ features, saved.1 ∈ channelFeatures ∧
      camera.Shows saved.1 (memory (camera.channelRegister saved.1)) saved.2)
    (hvalue : ∀ selector, camera.channelSelector = some selector →
      ∃ target, camera.firstEntry selector = some target ∧
        (camera.entryValue selector target).isSome)
    (h : Restored (fun s => camera.Within selectors memory sent S s ∧ camera.Aligned s.memory)
      (camera.Within selectors memory sent T) r) :
    Restored (fun s => camera.Within selectors memory sent S s ∧ camera.Aligned s.memory)
      (camera.Within selectors memory sent
        (T \ {register | ∃ saved ∈ features, register = camera.channelRegister saved.1}))
      (camera.restoreFeatures line features r) := by
  induction features with
  | nil =>
    refine h.mono (fun _ h => h) fun s hs => hs.mono ?_
    intro register hmem
    exact ⟨hmem, by simp⟩
  | cons saved rest ih =>
    obtain ⟨hfeature, hshows⟩ := hfeatures saved (List.mem_cons_self ..)
    have hown := @own_channelRegister _ _ selectors hfeature hvalue
    refine restoreStep_restored
      (ih fun saved hsaved => hfeatures saved (List.mem_cons_of_mem _ hsaved)) ?_ ?_
    · rintro ⟨hs, haligned⟩
      have hlocate := haligned saved.1 hfeature
      have hends := @setIfChanged_restores _ line _ _ _ _ _ _ _ hs hmemory (hlocate ▸ hown)
        (hlocate ▸ hshows)
      rw [hlocate] at hends
      refine hends.mono (fun _ s' h => ?_) fun s' h => ⟨h.1, ?_⟩
      · exact ⟨h.1.mono Set.sdiff_subset, h.2 ▸ haligned.update hfeature _⟩
      · rcases h.2 with hsame | hupdate
        · exact hsame ▸ haligned
        · exact hupdate ▸ haligned.update hfeature _
    · rintro ⟨-, haligned⟩ hs
      have hlocate := haligned saved.1 hfeature
      refine (setIfChanged_restores hs hmemory (hlocate ▸ hown) (hlocate ▸ hshows)).mono
        (fun _ s' h => h.1.mono ?_) fun _ _ => trivial
      rintro register ⟨⟨hmem, hnot⟩, hne⟩
      refine ⟨hmem, ?_⟩
      rintro ⟨other, hother, rfl⟩
      rcases List.mem_cons.mp hother with rfl | hother
      · exact hne hlocate.symm
      · exact hnot ⟨other, hother, rfl⟩

theorem restoreRegister_restores {address : Nat} {s : EventSession}
    (h : camera.Within selectors memory sent S s) (hmemory : camera.AllSettable memory) :
    Ends (fun _ => camera.Within selectors memory sent (S \ {.bootstrap address}))
      (camera.Within selectors memory sent S)
      (restoreRegister line address (memory (.bootstrap address)) s) := by
  have hown : camera.Own selectors (.bootstrap address) := trivial
  unfold restoreRegister
  refine ((EventSession.read_ends line _ s).mono (fun _ _ h => h) fun _ hsame => h.same hsame.1).bind ?_
  rintro bytes s' ⟨hsame, -, rfl⟩
  have hs' := h.same hsame
  split
  · rename_i hheld
    exact hs'.remove (by rw [hsame.1, hheld])
  · refine (EventSession.write_ends line _ _ s').mono ?_ ?_
    · rintro - s'' ⟨hwrote, -⟩
      exact hs'.insert_of_eq hwrote hown (hmemory _)
    · rintro s'' ⟨hsame | hwrote, hwrites⟩
      · exact ⟨hsame ▸ hs'.settable, hsame ▸ hs'.off, hs'.sends hown hwrites⟩
      · exact (hs'.insert_of_eq ⟨hwrote, hwrites⟩ hown (hmemory _)).mono Set.sdiff_subset

theorem restoreRaw_restored (line : EventLine) (hmemory : camera.AllSettable memory) {raw : List (Nat × List UInt8)}
    (hraw : ∀ saved ∈ raw, saved.2 = memory (.bootstrap saved.1))
    (h : Restored (camera.Within selectors memory sent S) (camera.Within selectors memory sent T) r) :
    Restored (camera.Within selectors memory sent S)
      (camera.Within selectors memory sent
        (T \ {register | ∃ saved ∈ raw, register = .bootstrap saved.1}))
      (restoreRaw line raw r) := by
  induction raw with
  | nil =>
    refine h.mono (fun _ h => h) fun s hs => hs.mono ?_
    intro register hmem
    exact ⟨hmem, by simp⟩
  | cons saved rest ih =>
    have hsaved := hraw saved (List.mem_cons_self ..)
    refine restoreStep_restored
      (ih fun saved hsaved => hraw saved (List.mem_cons_of_mem _ hsaved)) ?_ ?_
    · intro hs
      rw [hsaved]
      exact (restoreRegister_restores hs hmemory).mono (fun _ _ h => h.mono Set.sdiff_subset)
        fun _ h => h
    · intro _ hs
      rw [hsaved]
      refine (restoreRegister_restores hs hmemory).mono (fun _ _ h => h.mono ?_) fun _ _ => trivial
      rintro register ⟨⟨hmem, hnot⟩, hne⟩
      refine ⟨hmem, ?_⟩
      rintro ⟨other, hother, rfl⟩
      rcases List.mem_cons.mp hother with rfl | hother
      · exact hne rfl
      · exact hnot ⟨other, hother, rfl⟩

theorem restoreSelector_restored (line : EventLine) (hmemory : camera.AllSettable memory)
    (previous : Option (EventFeature × Text))
    (hprevious : ∀ name value, previous = some (name, value) →
      (∀ memory, camera.locate memory name = .plain name) ∧
        camera.Shows name (memory (.plain name)) value)
    (h : Restored (camera.Within selectors memory sent S) (camera.Within selectors memory sent T) r) :
    Restored (camera.Within selectors memory sent S)
      (camera.Within selectors memory sent
        (T \ {register | ∃ saved, previous = some saved ∧ register = .plain saved.1}))
      (camera.restoreSelector line previous r).2 := by
  cases previous with
  | none =>
    refine h.mono (fun _ h => h) fun s hs => hs.mono ?_
    intro register hmem
    exact ⟨hmem, by simp⟩
  | some saved =>
    obtain ⟨name, value⟩ := saved
    obtain ⟨hplain, hshows⟩ := hprevious name value rfl
    refine restoreStep_restored h ?_ ?_
    · intro hs
      exact (setIfChanged_restores hs hmemory (by rw [hplain]; trivial) (by rwa [hplain])).mono
        (fun _ _ h => h.1.mono Set.sdiff_subset) fun _ h => h.1
    · intro _ hs
      refine (setIfChanged_restores hs hmemory (by rw [hplain]; trivial) (by rwa [hplain])).mono
        (fun _ _ h => h.1.mono ?_) fun _ _ => trivial
      rintro register ⟨hmem, hne⟩
      refine ⟨hmem, ?_⟩
      rintro ⟨_, heq, rfl⟩
      cases heq
      exact hne (hplain _).symm

variable {channel : EventChannel}

theorem ChannelSaved.firsts (h : camera.ChannelSaved memory channel)
    (hfeatures : channel.features ≠ []) (hselector : camera.channelSelector = some selector) :
    ∃ target, camera.firstEntry selector = some target ∧
      (camera.entryValue selector target).isSome := by
  cases hsaved : channel.selector with
  | none => cases hselector.symm.trans (h.selected hfeatures hsaved)
  | some saved =>
    obtain ⟨name, previous, target⟩ := saved
    obtain ⟨hname, htarget, hsome, -⟩ := h.selector name previous target hsaved
    cases hname.symm.trans hselector
    exact ⟨target, htarget, hsome⟩

theorem restoreChannelFeatures_restored (line : EventLine) (hmemory : camera.AllSettable memory)
    (hsaved : camera.ChannelSaved memory channel) (hsub : T ⊆ S)
    (hselector : ∀ saved, channel.selector = some saved → .plain saved.1 ∈ T)
    (h : Restored (camera.Within selectors memory sent S) (camera.Within selectors memory sent T) r) :
    let selected := camera.restoreSelector line
      (channel.selector.map fun selector => (selector.1, selector.2.2)) r
    Restored (camera.Within selectors memory sent S)
      (camera.Within selectors memory sent
        (T \ {register | ∃ saved ∈ channel.features, register = camera.channelRegister saved.1}))
      (if selected.1 then camera.restoreFeatures line channel.features selected.2
        else selected.2) := by
  have hfeatures : ∀ {r'}, Restored (camera.Within selectors memory sent S)
      (camera.Within selectors memory sent T) r' →
      (channel.features ≠ [] → camera.Aligned r'.session.memory) →
      Restored (camera.Within selectors memory sent S) (camera.Within selectors memory sent
        (T \ {register | ∃ saved ∈ channel.features, register = camera.channelRegister saved.1}))
        (camera.restoreFeatures line channel.features r') := by
    intro r' hr' haligned
    by_cases hnone : channel.features = []
    · rw [hnone]
      refine hr'.mono (fun _ h => h) fun s hs => hs.mono ?_
      intro register hmem
      exact ⟨hmem, by simp⟩
    · exact (restoreFeatures_restored line hmemory hsaved.features
        (fun _ hselector => hsaved.firsts hnone hselector)
        ⟨⟨hr'.1, haligned hnone⟩, hr'.2⟩).mono (fun _ h => h.1) fun _ h => h
  intro selected
  cases hchannel : channel.selector with
  | none =>
    have hselected : selected = (true, r) := by simp only [selected, hchannel]; rfl
    rw [hselected, if_pos rfl]
    exact hfeatures h fun hne => aligned_of_none (hsaved.selected hne hchannel) _
  | some saved =>
    obtain ⟨name, previous, target⟩ := saved
    obtain ⟨hname, htarget, hsome, -⟩ := hsaved.selector name previous target hchannel
    have hmemT := hselector _ hchannel
    have hselected : selected = restoreStep line name.name (camera.setIfChanged line name target) r := by
      simp only [selected, hchannel]
      rfl
    have hplain := fun memory => locate_channelSelector memory hname
    have hstep := @restoreStep_restored line name.name (camera.setIfChanged line name target) r _ _ _
      h (fun hs => selecting_keeps hs (hplain _) (hsub hmemT) hsome)
      (fun _ hs => (selecting_keeps hs (hplain _) hmemT hsome).mono (fun _ _ h => h)
        fun _ _ => trivial)
    rw [hselected]
    cases hdone : (restoreStep line name.name (camera.setIfChanged line name target) r).1 with
    | true =>
      rw [if_pos rfl]
      obtain ⟨value, hvalue⟩ := Option.isSome_iff_exists.mp hsome
      have hselection := setIfChanged_selects hvalue (hplain _) (restoreStep_done hdone)
      exact hfeatures hstep fun _ =>
        aligned_of_selection hname htarget (hselection.trans hvalue.symm)
    | false =>
      rw [if_neg (by simp)]
      exact hstep.of_incomplete (restoreStep_refused hdone)

theorem restoreChannel_restored (line : EventLine) (hmemory : camera.AllSettable memory)
    (hsaved : camera.ChannelSaved memory channel) (hsub : T ⊆ S)
    (hselector : ∀ saved, channel.selector = some saved → .plain saved.1 ∈ T)
    (h : Restored (camera.Within selectors memory sent S) (camera.Within selectors memory sent T) r) :
    Restored (camera.Within selectors memory sent S)
      (camera.Within selectors memory sent (T \ camera.channelRegisters channel))
      (camera.restoreChannel line channel r) := by
  have hfeatures := restoreChannelFeatures_restored line hmemory hsaved hsub hselector h
  have hraw := restoreRaw_restored line hmemory hsaved.raw hfeatures
  have hlast := restoreSelector_restored line hmemory
    (channel.selector.map fun selector => (selector.1, selector.2.1)) ?_ hraw
  · refine hlast.mono (fun _ h => h) fun s hs => hs.mono ?_
    rintro register ⟨⟨⟨hmem, hfeature⟩, hbootstrap⟩, hplain⟩
    refine ⟨hmem, ?_⟩
    rintro (hin | ⟨saved, hsaved, rfl⟩ | hin)
    · exact hbootstrap hin
    · exact hplain ⟨_, by rw [hsaved]; rfl, rfl⟩
    · exact hfeature hin
  · intro name value hprevious
    obtain ⟨⟨_, previous, target⟩, hchannel, heq⟩ := Option.map_eq_some_iff.mp hprevious
    cases heq
    obtain ⟨hname, -, -, hshows⟩ := hsaved.selector _ _ _ hchannel
    exact ⟨fun memory => locate_channelSelector memory hname, hshows⟩

theorem restoreSaved_restored (line : EventLine) (hmemory : camera.AllSettable memory) {saved : EventConfiguration}
    (hsaved : camera.Saved selectors memory saved)
    (h : Restored (camera.Within selectors memory sent (camera.savedRegisters saved))
      (camera.Within selectors memory sent (camera.savedRegisters saved)) r) :
    Restored (camera.Within selectors memory sent (camera.savedRegisters saved))
      (camera.Within selectors memory sent ∅) (camera.restoreSaved line saved r) := by
  have hnotified := restoreNotifications_restored line hmemory subset_rfl
    hsaved.notifications (fun hne => .inl ⟨hsaved.selected hne, rfl⟩) h
  have hselected := restoreSelector_restored line hmemory
    (saved.eventSelector.map fun previous => (.eventSelector, previous)) ?_ hnotified
  · unfold restoreSaved
    cases hchannel : saved.channel with
    | none =>
      refine hselected.mono (fun _ h => h) fun s hs => hs.mono ?_
      rintro register ⟨⟨hmem, hnotification⟩, hselector⟩
      rcases hmem with ⟨hsome, rfl⟩ | hin | ⟨channel, hsome, -⟩
      · obtain ⟨text, htext⟩ := Option.isSome_iff_exists.mp hsome
        exact absurd ⟨_, by rw [htext]; rfl, rfl⟩ hselector
      · exact absurd hin hnotification
      · cases hchannel.symm.trans hsome
    | some channel =>
      refine (restoreChannel_restored line hmemory (hsaved.channel channel hchannel) ?_ ?_ hselected).mono
        (fun _ h => h) fun s hs => hs.mono ?_
      · exact Set.sdiff_subset.trans Set.sdiff_subset
      · intro selector hselector
        obtain ⟨name, previous, target⟩ := selector
        have hname := ((hsaved.channel channel hchannel).selector _ _ _ hselector).1
        refine ⟨⟨.inr (.inr ⟨channel, hchannel, .inr (.inl ⟨_, hselector, rfl⟩)⟩), ?_⟩, ?_⟩
        · rintro ⟨_, -, heq⟩
          cases heq
        · rintro ⟨_, heq, hplain⟩
          obtain ⟨_, -, rfl⟩ := Option.map_eq_some_iff.mp heq
          rcases channelSelector_cases hname with rfl | rfl
          · cases hplain
          · cases hplain
      · rintro register ⟨⟨⟨hmem, hnotification⟩, hselector⟩, hnot⟩
        rcases hmem with ⟨hsome, rfl⟩ | hin | ⟨other, hother, hin⟩
        · obtain ⟨text, htext⟩ := Option.isSome_iff_exists.mp hsome
          exact absurd ⟨_, by rw [htext]; rfl, rfl⟩ hselector
        · exact absurd hin hnotification
        · cases hchannel.symm.trans hother
          exact absurd hin hnot
  · intro name value hprevious
    obtain ⟨text, htext, heq⟩ := Option.map_eq_some_iff.mp hprevious
    cases heq
    exact ⟨fun _ => rfl, hsaved.eventSelector _ htext⟩

theorem restoreEvents_restored (hmemory : camera.AllSettable memory) {saved : EventConfiguration}
    {s : EventSession} (hsaved : camera.Saved selectors memory saved)
    (h : camera.Within selectors memory sent (camera.savedRegisters saved) s) :
    Restored (camera.Within selectors memory sent (camera.savedRegisters saved))
      (camera.Within selectors memory sent ∅) (camera.restoreEvents line saved s) := by
  unfold restoreEvents
  split
  · exact ⟨h, fun hcomplete => (by cases hcomplete)⟩
  · split
    · exact ⟨h, fun hcomplete => (by cases hcomplete)⟩
    · exact restoreSaved_restored line hmemory hsaved ⟨h, fun _ => h⟩

theorem Within.memory_eq {s : EventSession} (h : camera.Within selectors memory sent ∅ s) :
    s.memory = memory :=
  funext fun register => h.off register (Set.notMem_empty register)

end EventCamera

end VivaGenicam.Camera
