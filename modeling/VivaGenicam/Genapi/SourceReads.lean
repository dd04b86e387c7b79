import VivaGenicam.Genapi.Sources

/-!
Every getter keeps what is said of a source, and what it returns for one of the source's
registers was read from it: one lemma for each getter, and an induction on the depth of
their calls.
-/

namespace VivaGenicam.Genapi

open GenapiXml Library.Programs

open Prog (question action fail ofExcept)

variable {D : Type} {setting : Setting D} {src : Source setting}
  {answer : Handler Query GenApiError (World D)} {name : Text} {node : Node}

theorem not_has_of_computed (hnode : setting.map.node name = some node)
    (haddressing : node.addressing = none) (other : Node) : ¬src.Has name other := by
  intro hhas
  obtain rfl := Source.node_eq hhas hnode
  obtain ⟨addressing, hsome⟩ := src.registered hhas
  rw [haddressing] at hsome
  cases hsome

theorem sound_keep_computed (hnode : setting.map.node name = some node)
    (haddressing : node.addressing = none) (change : Caches → Caches) :
    Sound src answer (action (.keep name change)) fun _ => True :=
  sound_keep fun other hhas => absurd hhas (not_has_of_computed hnode haddressing other)

theorem attests_of_addressing
    (hnode : setting.map.node name = some node) (haddressing : node.addressing = none) {α : Type}
    {q : Query α} (value : α) : src.Attests name q value :=
  fun other hhas => absurd hhas (not_has_of_computed hnode haddressing other)

theorem attests_of_delegates
    (hnode : setting.map.node name = some node) (hdelegates : ¬ node.readsRegister) {α : Type}
    {q : Query α} (value : α) : src.Attests name q value := by
  intro other hhas hreads
  obtain rfl := Source.node_eq hhas hnode
  exact absurd hreads hdelegates

theorem sound_keepRead {change : Caches → Caches}
    (h : Sound src answer (action (.keep name change)) fun _ => True) :
    Sound src answer (setting.map.keepRead name change) fun _ => True := by
  unfold NodeMap.keepRead
  split
  · exact h
  · exact Assures.done trivial

variable (hanswer : src.Answers answer)
include hanswer

theorem sound_evaluateSwissknife {node : SkNode}
    (hnode : setting.map.node node.name = some (.swissKnife node)) (stack : List Text) :
    Sound src answer (setting.map.evaluateSwissknife node stack) fun _ => True := by
  apply Assures.bind sound_servedNow
  intro served _
  split
  · exact Assures.done trivial
  · unfold NodeMap.guarded
    split
    · exact Assures.fail _
    · apply Assures.bind sound_generation
      intro generation _
      apply Assures.bind (Assures.among hanswer.keeps _)
      intro value _
      apply Assures.bind (sound_keepRead (sound_keep_computed hnode rfl _))
      exact fun _ _ => Assures.done trivial

theorem sound_getConverter (name : Text) :
    Sound src answer (setting.map.getConverter name) fun _ => True := by
  apply Assures.bind (Assures.ofExcept fun node hnode => NodeMap.node_of_getConverterNode hnode)
  intro node hnode
  apply Assures.bind (Assures.ofExcept fun _ _ => trivial)
  intro _ _
  apply Assures.bind sound_servedNow
  intro served _
  split
  · exact Assures.done trivial
  · apply Assures.bind (Assures.among hanswer.keeps _)
    intro value _
    apply Assures.bind sound_generation
    intro generation _
    apply Assures.bind (sound_keepRead (sound_keep_computed hnode rfl _))
    exact fun _ _ => Assures.done trivial

theorem sound_getIntConverter (name : Text) :
    Sound src answer (setting.map.getIntConverter name) fun _ => True := by
  apply Assures.bind (Assures.ofExcept fun node hnode => NodeMap.node_of_getIntConverterNode hnode)
  intro node hnode
  apply Assures.bind (Assures.ofExcept fun _ _ => trivial)
  intro _ _
  apply Assures.bind sound_servedNow
  intro served _
  split
  · exact Assures.done trivial
  · apply Assures.bind (Assures.among hanswer.keeps _)
    intro value _
    apply Assures.bind sound_generation
    intro generation _
    apply Assures.bind (sound_keepRead (sound_keep_computed hnode rfl _))
    exact fun _ _ => Assures.done trivial

theorem sound_getPlainInteger (name : Text) :
    Sound src answer (setting.map.getPlainInteger name)
      (src.Attests name (.integer name)) := by
  apply Assures.bind (Assures.ofExcept fun node hnode => NodeMap.node_of_getIntegerNode hnode)
  intro node hnode
  apply Assures.bind (Assures.ofExcept fun _ _ => trivial)
  intro _ _
  have hdelegates : ¬ (Node.integer node).readsRegister →
      ∀ value, src.Attests name (.integer name) value :=
    fun h value => attests_of_delegates hnode h value
  split
  · rename_i start hstart
    apply Assures.bind (sound_held name)
    exact fun _ _ => Assures.done (hdelegates (fun h => by rw [h.1] at hstart; cases hstart) _)
  · rename_i pv _ hpv
    exact (Assures.question hanswer.keeps _).weaken fun value _ =>
      hdelegates (fun h => by rw [h.2.1] at hpv; cases hpv) value
  · rename_i table _ _ hindexed
    have hnot := hdelegates fun h => by rw [h.2.2] at hindexed; cases hindexed
    apply Assures.bind (Assures.among hanswer.keeps _)
    intro selected _
    split
    · exact (Assures.question hanswer.keeps _).weaken fun value _ => hnot value
    · apply Assures.bind (sound_held name)
      exact fun _ _ => Assures.done (hnot _)
  · exact Assures.fail _
  · rename_i addressing _ _ _ haddressing
    apply sound_readRegister hanswer hnode haddressing
    · exact fun raw value h => h
    · exact fun value h hc => h.integer value hc
    · intro FromPort c kept h hkept
      refine ⟨fun value hvalue => ?_, h.float, h.boolean, h.entry, h.text, h.bytes⟩
      obtain ⟨⟨value', raw⟩, rfl, hsome⟩ := Option.map_eq_some_iff.mp hvalue
      cases hsome
      exact ⟨raw, hkept value' raw rfl⟩

theorem sound_getInteger (name : Text) :
    Sound src answer (setting.map.getInteger name)
      (src.Attests name (.integer name)) := by
  unfold NodeMap.getInteger
  split
  · rename_i node hnode
    exact (sound_getIntConverter hanswer name).weaken fun value _ =>
      attests_of_addressing hnode rfl value
  · rename_i node hnode
    apply Assures.bind (sound_getConverter hanswer name)
    exact fun _ _ => Assures.ofExcept fun value _ => attests_of_addressing hnode rfl value
  · rename_i node hnode
    apply Assures.bind (Assures.ofExcept fun _ _ => trivial)
    intro _ _
    obtain rfl : node.name = name := NodeMap.name_of_node hnode
    split
    · apply Assures.bind (sound_evaluateSwissknife hanswer hnode [])
      exact fun _ _ => Assures.ofExcept fun value _ => attests_of_addressing hnode rfl value
    · exact Assures.fail _
  · exact sound_getPlainInteger hanswer name

theorem sound_getPlainFloat (name : Text) :
    Sound src answer (setting.map.getPlainFloat name)
      (src.Attests name (.float name)) := by
  apply Assures.bind (Assures.ofExcept fun node hnode => NodeMap.node_of_getFloatNode hnode)
  intro node hnode
  apply Assures.bind (Assures.ofExcept fun _ _ => trivial)
  intro _ _
  have hdelegates : ¬ (Node.float node).readsRegister →
      ∀ value, src.Attests name (.float name) value :=
    fun h value => attests_of_delegates hnode h value
  split
  · rename_i start hstart
    apply Assures.bind (sound_held name)
    exact fun _ _ => Assures.done (hdelegates (fun h => by rw [h.1] at hstart; cases hstart) _)
  · rename_i pv _ hpv
    exact (Assures.question hanswer.keeps _).weaken fun value _ =>
      hdelegates (fun h => by rw [h.2.1] at hpv; cases hpv) value
  · rename_i table _ _ hindexed
    have hnot := hdelegates fun h => by rw [h.2.2] at hindexed; cases hindexed
    apply Assures.bind (Assures.among hanswer.keeps _)
    intro selected _
    split
    · exact (Assures.question hanswer.keeps _).weaken fun value _ => hnot value
    · apply Assures.bind (sound_held name)
      exact fun _ _ => Assures.done (hnot _)
  · exact Assures.fail _
  · rename_i addressing _ _ _ haddressing
    apply sound_readRegister hanswer hnode haddressing
    · exact fun raw value h => h
    · exact fun value h hc => h.float value hc
    · intro FromPort c kept h hkept
      refine ⟨h.integer, fun value hvalue => ?_, h.boolean, h.entry, h.text, h.bytes⟩
      obtain ⟨⟨value', raw⟩, rfl, hsome⟩ := Option.map_eq_some_iff.mp hvalue
      cases hsome
      exact ⟨raw, hkept value' raw rfl⟩

theorem sound_getFloat (name : Text) :
    Sound src answer (setting.map.getFloat name)
      (src.Attests name (.float name)) := by
  unfold NodeMap.getFloat
  split
  · rename_i node hnode
    exact (sound_getConverter hanswer name).weaken fun value _ =>
      attests_of_addressing hnode rfl value
  · rename_i node hnode
    apply Assures.bind (sound_getIntConverter hanswer name)
    exact fun _ _ => Assures.done (attests_of_addressing hnode rfl _)
  · rename_i node hnode
    apply Assures.bind (Assures.ofExcept fun _ _ => trivial)
    intro _ _
    obtain rfl : node.name = name := NodeMap.name_of_node hnode
    split
    · apply Assures.bind (sound_evaluateSwissknife hanswer hnode [])
      exact fun _ _ => Assures.done (attests_of_addressing hnode rfl _)
    · apply Assures.bind (sound_getInteger hanswer _)
      exact fun _ _ => Assures.done (attests_of_addressing hnode rfl _)
  · exact sound_getPlainFloat hanswer name

omit hanswer in
theorem sound_keep_mapping (name : Text) (mapping : EnumMapping) :
    Sound src answer
      (action (.keep name fun c => { c with mapping := some mapping })) fun _ => True :=
  sound_keep fun _ _ _ h => ⟨h.integer, h.float, h.boolean, h.entry, h.text, h.bytes⟩

theorem sound_rebuildMapping (node : EnumNode) :
    Sound src answer (NodeMap.rebuildMapping node) fun _ => True := by
  apply Assures.bind (Assures.among hanswer.keeps _)
  intro mapping _
  apply Assures.bind (sound_keep_mapping node.name mapping)
  exact fun _ _ => Assures.done trivial

theorem sound_keptMapping (node : EnumNode) :
    Sound src answer (NodeMap.keptMapping node) fun _ => True := by
  apply Assures.bind (sound_caches node.name)
  intro c _
  split
  · exact Assures.done trivial
  · exact sound_rebuildMapping hanswer node

theorem sound_lookupEnumEntry (node : EnumNode) (raw : Int64) :
    Sound src answer (NodeMap.lookupEnumEntry node raw) fun entry =>
      ∃ mapping : EnumMapping, mapping.byValue.lookup raw = some entry := by
  apply Assures.bind (sound_keptMapping hanswer node)
  intro mapping _
  split
  · rename_i entry hentry
    exact Assures.done ⟨mapping, hentry⟩
  · apply Assures.bind (sound_rebuildMapping hanswer node)
    intro mapping _
    split
    · rename_i entry hentry
      exact Assures.done ⟨mapping, hentry⟩
    · exact Assures.fail _

omit hanswer in
theorem sound_invalidateReach (names : List Text) :
    Sound src answer (NodeMap.invalidateReach names) fun _ => True := by
  induction names with
  | nil => exact Assures.done trivial
  | cons name names ih =>
    apply Assures.bind (sound_invalidateCache name)
    exact fun _ _ => ih

omit hanswer in
theorem sound_forgetReach (name : Text) (active : Bool) :
    Sound src answer (setting.map.forgetReach name active) fun _ => True := by
  unfold NodeMap.forgetReach
  split
  · exact sound_invalidateReach _
  · exact Assures.done trivial

omit hanswer in
theorem sound_servedEntry (name : Text) (active : Bool) :
    Sound src answer (NodeMap.servedEntry name active) fun served =>
      ∀ entry, served = some entry → ∃ c : Caches, c.entry = some entry ∧
        ∀ node, src.Has name node →
          Genuine (src.Holds name) name node c := by
  unfold NodeMap.servedEntry
  split
  · exact Assures.done nofun
  · exact sound_served

omit hanswer in
theorem sound_keepEntry {entry : Text} (h : src.Attests name (.enumeration name) entry) :
    Sound src answer (setting.map.keepEntry name entry) fun _ => True := by
  apply sound_keepRead
  apply sound_keep
  intro node hhas c hc
  refine ⟨hc.integer, hc.float, hc.boolean, fun hreads other hother => ?_, hc.text, hc.bytes⟩
  cases hother
  exact h node hhas hreads

theorem sound_getEnum (name : Text) :
    Sound src answer (setting.map.getEnum name)
      (src.Attests name (.enumeration name)) := by
  apply Assures.bind (Assures.ofExcept fun node hnode => NodeMap.node_of_getEnumNode hnode)
  intro node hnode
  apply Assures.bind (Assures.ofExcept fun _ _ => trivial)
  intro _ _
  apply Assures.bind (sound_selfClearingActive name)
  intro active _
  apply Assures.bind (sound_forgetReach name active)
  intro _ _
  have hdelegates : ¬ (Node.enumeration node).readsRegister →
      ∀ value, src.Attests name (.enumeration name) value :=
    fun h value => attests_of_delegates hnode h value
  split
  · rename_i pv hpv
    have hnot := hdelegates fun h => by
      have hnone : node.pvalue = none := h
      rw [hpv] at hnone
      cases hnone
    apply Assures.bind (sound_servedEntry name active)
    intro served _
    split
    · exact Assures.done (hnot _)
    · apply Assures.bind (Assures.question hanswer.keeps _)
      intro raw _
      apply Assures.bind (sound_lookupEnumEntry hanswer node raw)
      intro entry _
      apply Assures.bind (sound_noteEntry name _)
      intro _ _
      apply Assures.bind (sound_keepEntry (hnot entry))
      exact fun _ _ => Assures.done (hnot entry)
  · rename_i start _ haddressing _
    apply Assures.bind (sound_held name)
    intro held _
    exact (sound_lookupEnumEntry hanswer node _).weaken fun value _ =>
      attests_of_addressing hnode haddressing value
  · exact Assures.fail _
  · rename_i addressing hpv haddressing
    apply Assures.bind (hanswer.locates hnode haddressing)
    intro location hlocation
    apply Assures.bind (sound_servedEntry name active)
    intro served hserved
    split
    · rename_i entry
      obtain ⟨c, hc, hgenuine⟩ := hserved entry rfl
      exact Assures.done fun other hhas hreads => (hgenuine other hhas).entry hreads entry hc
    · apply Assures.bind (sound_readLocation hlocation)
      intro bytes hbytes
      apply Assures.bind (Assures.ofExcept fun raw hraw => hraw)
      intro raw hraw
      apply Assures.bind (sound_lookupEnumEntry hanswer node raw)
      intro entry hentry
      have hattests : src.Attests name (.enumeration name) entry := by
        intro other hhas _
        obtain ⟨mapping, hmapping⟩ := hentry
        obtain rfl := Source.node_eq hhas hnode
        exact ⟨bytes, hbytes _ hhas, raw, mapping, hraw, hmapping⟩
      apply Assures.bind (sound_noteRead name)
      intro _ _
      apply Assures.bind (sound_noteEntry name _)
      intro _ _
      apply Assures.bind (sound_keepEntry hattests)
      exact fun _ _ => Assures.done hattests

theorem sound_getEnumNumeric (name : Text) :
    Sound src answer (setting.map.getEnumNumeric name) fun _ => True := by
  apply Assures.bind (Assures.question hanswer.keeps _)
  intro entry _
  apply Assures.bind (Assures.ofExcept fun _ _ => trivial)
  intro node _
  apply Assures.bind (sound_keptMapping hanswer node)
  intro mapping _
  split
  · exact Assures.done trivial
  · exact Assures.fail _

/-! ## Booleans, texts and blocks of bytes -/

theorem sound_getBool (name : Text) :
    Sound src answer (setting.map.getBool name)
      (src.Attests name (.boolean name)) := by
  apply Assures.bind (Assures.ofExcept fun node hnode => NodeMap.node_of_getBoolNode hnode)
  intro node hnode
  apply Assures.bind (Assures.ofExcept fun _ _ => trivial)
  intro _ _
  split
  · rename_i pv hpv
    apply Assures.bind (Assures.question hanswer.keeps _)
    intro raw _
    apply Assures.done
    apply attests_of_delegates hnode
    rintro ⟨hnone, -⟩
    rw [hpv] at hnone
    cases hnone
  · rename_i start _ haddressing _
    apply Assures.bind (sound_held name)
    exact fun _ _ => Assures.done (attests_of_addressing hnode haddressing _)
  · exact Assures.fail _
  · rename_i addressing _ haddressing
    split
    · exact Assures.fail _
    · rename_i bitfield hbitfield
      apply sound_readRegister hanswer hnode haddressing
      · exact fun raw value h => ⟨bitfield, hbitfield, h⟩
      · exact fun value h hc => h.boolean value hc
      · intro FromPort c kept h hkept
        refine ⟨h.integer, h.float, fun value hvalue => ?_, h.entry, h.text, h.bytes⟩
        obtain ⟨⟨value', raw⟩, rfl, hsome⟩ := Option.map_eq_some_iff.mp hvalue
        cases hsome
        exact ⟨raw, hkept value' raw rfl⟩

theorem sound_getString (name : Text) :
    Sound src answer (setting.map.getString name)
      (src.Attests name (.string name)) := by
  apply Assures.bind (Assures.ofExcept fun node hnode => NodeMap.node_of_getStringNode hnode)
  intro node hnode
  apply Assures.bind (Assures.ofExcept fun _ _ => trivial)
  intro _ _
  split
  · rename_i pv hpv
    refine (Assures.question hanswer.keeps _).weaken fun value _ => attests_of_delegates hnode ?_ value
    intro hnone
    have hnone : node.pvalue = none := hnone
    rw [hpv] at hnone
    cases hnone
  · rename_i _ haddressing
    apply Assures.bind (sound_held name)
    intro held _
    split
    · exact Assures.done (attests_of_addressing hnode haddressing _)
    · exact Assures.done (attests_of_addressing hnode haddressing _)
    · exact Assures.fail _
  · rename_i addressing _ haddressing
    apply sound_readStamped hanswer hnode haddressing
    · exact fun raw => rfl
    · exact fun value stamp h hc => h.text value stamp hc
    · exact fun kept h hkept => ⟨h.integer, h.float, h.boolean, h.entry, hkept, h.bytes⟩

theorem sound_getRegister (name : Text) :
    Sound src answer (setting.map.getRegister name)
      (src.Attests name (.register name)) := by
  apply Assures.bind (Assures.ofExcept fun node hnode => NodeMap.node_of_getRegisterNode hnode)
  intro node hnode
  apply Assures.bind (Assures.ofExcept fun _ _ => trivial)
  intro _ _
  apply sound_readStamped hanswer hnode rfl
  · exact fun raw => rfl
  · exact fun value stamp h hc => h.bytes value stamp hc
  · exact fun kept h hkept => ⟨h.integer, h.float, h.boolean, h.entry, h.text, hkept⟩

theorem sound_resolveValue (provider : Text) (stack : List Text) :
    Sound src answer (setting.map.resolveValue provider stack) fun _ => True := by
  unfold NodeMap.resolveValue
  split
  · apply Assures.bind (Assures.question hanswer.keeps _)
    exact fun _ _ => Assures.done trivial
  · apply Assures.bind (Assures.question hanswer.keeps _)
    exact fun _ _ => Assures.done trivial
  · apply Assures.bind (Assures.question hanswer.keeps _)
    exact fun _ _ => Assures.done trivial
  · apply Assures.bind (sound_getEnumNumeric hanswer provider)
    exact fun _ _ => Assures.done trivial
  · rename_i node hnode
    apply Assures.bind (Assures.ofExcept fun _ _ => trivial)
    intro _ _
    obtain rfl : node.name = provider := NodeMap.name_of_node hnode
    exact sound_evaluateSwissknife hanswer hnode stack
  · apply Assures.bind (Assures.ofExcept fun _ _ => trivial)
    exact fun _ _ => Assures.among hanswer.keeps _
  · apply Assures.bind (Assures.ofExcept fun _ _ => trivial)
    intro _ _
    apply Assures.bind (Assures.among hanswer.keeps _)
    exact fun _ _ => Assures.done trivial
  · exact Assures.fail _
  · exact Assures.fail _

theorem sound_getter {α : Type} (q : Query α) :
    Sound src answer (setting.map.getter α q) fun value =>
      ∀ name, q.subject = some name → src.Attests name q value := by
  cases q with
  | integer name =>
    refine (sound_getInteger hanswer name).weaken fun value h other hname => ?_
    cases hname
    exact h
  | float name =>
    refine (sound_getFloat hanswer name).weaken fun value h other hname => ?_
    cases hname
    exact h
  | boolean name =>
    refine (sound_getBool hanswer name).weaken fun value h other hname => ?_
    cases hname
    exact h
  | enumeration name =>
    refine (sound_getEnum hanswer name).weaken fun value h other hname => ?_
    cases hname
    exact h
  | string name =>
    refine (sound_getString hanswer name).weaken fun value h other hname => ?_
    cases hname
    exact h
  | register name =>
    refine (sound_getRegister hanswer name).weaken fun value h other hname => ?_
    cases hname
    exact h
  | value provider stack => exact (sound_resolveValue hanswer provider stack).weaken fun _ _ => nofun
  | limit name current visited which stack =>
    exact (Assures.among hanswer.keeps _).weaken fun _ _ => nofun
  | limitFor formula provider which stack =>
    exact (Assures.among hanswer.keeps _).weaken fun _ _ => nofun

omit hanswer

/-- Getters attest what they return, to any depth of calls, where registers are found. -/
theorem Source.attesting (hlocates : src.Locates) (fuel : Nat) : src.Attesting fuel := by
  induction fuel with
  | zero => exact ⟨fun _ _ _ hw => hw, nofun⟩
  | succ fuel ih =>
    have hsound {α : Type} (q : Query α) := sound_getter (hlocates fuel ih) q
    refine ⟨fun α q w hw => ?_, fun q name hname w hw value hvalue => ?_⟩
    · exact (reported_snd ..).symm ▸ (hsound q w hw).1
    · rcases hrun : get setting (fuel + 1) _ q w with ⟨outcome, w'⟩
      rw [hrun] at hvalue
      obtain rfl : outcome = .ok value := hvalue
      exact (hsound q w hw).2 value (congrArg Prod.fst (reported_eq_ok.mp hrun)) name hname

end VivaGenicam.Genapi
