import VivaGenicam.Genapi.Ports

/-!
Every setter keeps the invariant of attached data: no register on a port is ever
located for a write, so none is written and nothing written is kept for one.
-/

namespace VivaGenicam.Genapi

open GenapiXml Library.Programs

open Prog (question action fail ofExcept)

section

variable {D : Type} {setting : Setting D} {past : History setting}
  {data : PortKind → Option (List UInt8)} {fuel : Nat} {answer : Handler Tell GenApiError (World D)}

/-- A setter that keeps the invariant and whose value satisfies `post`. -/
abbrev SoundSet {α : Type} (past : History setting) (data : PortKind → Option (List UInt8))
    (fuel : Nat) (answer : Handler Tell GenApiError (World D)) (p : Setter α)
    (post : α → Prop) : Prop :=
  Assures answer (deed setting fuel) (portSource past data).Inv p post

theorem soundSet_reading {α : Type} {p : Getter α} {post : α → Prop}
    (h : Sound (portSource past data) (get setting fuel) p post) :
    SoundSet past data fuel answer (reading p) post := by
  intro w hw
  rw [run_reading]
  exact h w hw

theorem soundSet_asking {α : Type} (p : Asking α) :
    SoundSet past data fuel answer (asking p) fun _ => True :=
  soundSet_reading (Assures.among (get_keeps past data fuel) p)

theorem soundSet_action {α : Type} {o : Deed α}
    (h : ∀ {w : World D}, (portSource past data).Attested w →
      (portSource past data).Attested (deed setting fuel _ o w).2) :
    SoundSet past data fuel answer (action o) fun _ => True :=
  Assures.action fun _ hw => ⟨⟨h hw.1, past.did fuel o hw.2⟩, fun _ _ => trivial⟩

theorem soundSet_get {α : Type} (q : Query α) :
    SoundSet past data fuel answer (action (.get q)) fun _ => True :=
  Assures.action fun w hw => ⟨get_keeps past data fuel _ q w hw, fun _ _ => trivial⟩

theorem soundSet_write {name : Text} (hname : OffPorts setting.map name) (address : Nat)
    (bytes : List UInt8) :
    SoundSet past data fuel answer (action (.write name address bytes)) fun _ => True := by
  apply soundSet_action
  rintro w ⟨⟨hattached, haccesses⟩, hcaches⟩
  refine ⟨⟨hattached, fun access haccess => ?_⟩, hcaches⟩
  rcases List.mem_append.mp haccess with hold | hnew
  · exact haccesses access hold
  · obtain rfl := List.mem_singleton.mp hnew
    exact hname

theorem soundSet_hold (name : Text) (change : Held → Held) :
    SoundSet past data fuel answer (action (.hold name change)) fun _ => True :=
  soundSet_action fun hw => hw.aside rfl rfl rfl rfl rfl

theorem soundSet_invalidateDependents (name : Text) :
    SoundSet past data fuel answer (action (.invalidateDependents name)) fun _ => True :=
  soundSet_action fun hw => hw.invalidateDependents name

theorem soundSet_noteCommand (name : Text) (running : Bool) :
    SoundSet past data fuel answer (action (.noteCommand name running)) fun _ => True :=
  soundSet_action fun hw => hw.noteCommand name running

theorem soundSet_noteEntry (name : Text) (selfClearing : Bool) :
    SoundSet past data fuel answer (action (.look (.noteEntry name selfClearing)))
      fun _ => True :=
  soundSet_action fun hw => hw.noteEntry name selfClearing

theorem soundSet_keep {name : Text} {change : Caches → Caches}
    (h : ∀ {FromPort node c}, Genuine FromPort name node c →
      Genuine FromPort name node (change c)) :
    SoundSet past data fuel answer (action (.look (.keep name change))) fun _ => True :=
  soundSet_action fun hw => hw.setCaches fun node hhas => h (hw.caches name node hhas)

variable {node : Node}

theorem Genuine.clearEntry {FromPort : List UInt8 → Prop} {name : Text} {c : Caches}
    (h : Genuine FromPort name node c) : Genuine FromPort name node (NodeMap.clearEntry c) :=
  ⟨h.integer, h.float, h.boolean, fun _ => nofun, h.text, h.bytes⟩

theorem Genuine.clearEntries {FromPort : List UInt8 → Prop} {name : Text}
    {c : Caches} (h : Genuine FromPort name node c) :
    Genuine FromPort name node (NodeMap.clearEntries c) :=
  ⟨h.integer, h.float, h.boolean, fun _ => nofun, h.text, h.bytes⟩

variable {addressing : Addressing}

theorem soundSet_locateForWrite (name : Text)
    (hnode : setting.map.node name = some node) (haddressing : node.addressing = some addressing) :
    SoundSet past data fuel answer (asking (setting.map.locateForWrite name addressing))
      fun _ => OffPorts setting.map name := by
  apply soundSet_reading
  unfold NodeMap.locateForWrite
  rw [Prog.among_bind, Prog.among_ofExcept]
  apply Assures.bind (Assures.ofExcept fun route hroute => hroute)
  intro route hroute
  have hport : ∀ other port kind, OnPort setting.map name other port kind →
      route ≠ .device := by
    rintro other port kind hon rfl
    have hregistered := hon.port_eq hnode haddressing
    have hattachable := hon.attachable
    unfold NodeMap.route at hroute
    simp only [hregistered, hon.reached] at hroute
    cases kind with
    | device => exact absurd hattachable (by simp [PortKind.holdsData])
    | chunk id => cases hroute
    | event id => cases hroute
  cases route with
  | device =>
    exact (Assures.among (get_keeps past data fuel) _).weaken fun _ _ other port kind hon =>
      hport other port kind hon rfl
  | chunk port id => exact Assures.fail _
  | event port id => exact Assures.fail _

section

variable {name : Text} (hname : OffPorts setting.map name)
include hname

theorem sound_keep_offPorts (change : Caches → Caches) :
    Sound (portSource past data) (get setting fuel) (action (.keep name change)) fun _ => True :=
  sound_keep fun node ⟨port, kind, hon⟩ => absurd hon (hname node port kind)

theorem sound_freshRaw (readable : Bool) (address len : Nat) :
    Sound (portSource past data) (get setting fuel) (NodeMap.freshRaw name readable address len)
      fun _ => True := by
  apply Assures.bind (M := fun _ => True)
  · unfold NodeMap.dropStaleRaw
    split
    · apply Assures.bind (sound_mayServe name)
      intro may _
      split
      · exact Assures.done trivial
      · exact sound_keep_offPorts hname _
    · exact Assures.done trivial
  · intro _ _
    apply Assures.bind (sound_caches name)
    intro c _
    split
    · exact Assures.done trivial
    · split
      · exact sound_action fun hw => ⟨((portSource past data).read hw.stands hname).1, hw.caches⟩
      · exact Assures.fail _

theorem sound_integerBytes (node : IntegerNode) (value : Int64) (readable : Bool)
    (address len : Nat) :
    Sound (portSource past data) (get setting fuel)
      (NodeMap.integerBytes node name value readable address len) fun _ => True := by
  unfold NodeMap.integerBytes
  split
  · apply Assures.bind (Assures.ofExcept fun _ _ => trivial)
    intro encoded _
    apply Assures.bind (sound_freshRaw hname readable address len)
    exact fun _ _ => Assures.ofExcept fun _ _ => trivial
  · exact Assures.ofExcept fun _ _ => trivial

theorem sound_afterRegisterWrite (raw : List UInt8) (readable : Bool)
    (put : Bool → Option (List UInt8) → Caches → Caches) :
    Sound (portSource past data) (get setting fuel) (setting.map.afterRegisterWrite name raw readable put)
      fun _ => True := by
  unfold NodeMap.afterRegisterWrite
  split
  · apply Assures.bind (sound_keep_offPorts hname _)
    exact fun _ _ => sound_noteRead name
  · exact sound_keep_offPorts hname _

theorem sound_keepFloat (value : Float) :
    Sound (portSource past data) (get setting fuel) (setting.map.keepFloat name value) fun _ => True := by
  unfold NodeMap.keepFloat
  split
  · apply Assures.bind (sound_keep_offPorts hname _)
    exact fun _ _ => sound_noteRead name
  · exact sound_keep_offPorts hname _

theorem sound_keepStamped {α : Type} (value : α) (put : Option (α × Nat) → Caches → Caches) :
    Sound (portSource past data) (get setting fuel) (setting.map.keepStamped name value put)
      fun _ => True := by
  unfold NodeMap.keepStamped
  split
  · apply Assures.bind sound_generation
    intro generation _
    apply Assures.bind (sound_keep_offPorts hname _)
    exact fun _ _ => sound_noteRead name
  · exact sound_keep_offPorts hname _

end

theorem soundSet_setIntegerRegister {node : IntegerNode} {name : Text} (value : Int64)
    (hnode : setting.map.node name = some (.integer node))
    (haddressing : node.addressing = some addressing) :
    SoundSet past data fuel answer (setting.map.setIntegerRegister node name value addressing)
      fun _ => True := by
  apply Assures.bind (soundSet_locateForWrite name hnode haddressing)
  intro place hname
  apply Assures.bind (soundSet_reading (sound_integerBytes hname node value _ place.1 place.2))
  intro raw _
  apply Assures.bind (soundSet_write hname place.1 raw)
  intro _ _
  apply Assures.bind (soundSet_reading (sound_afterRegisterWrite hname raw _ _))
  exact fun _ _ => soundSet_invalidateDependents name

theorem soundSet_setFloatRegister {node : FloatNode} {name : Text} (value : Float)
    (hnode : setting.map.node name = some (.float node))
    (haddressing : node.addressing = some addressing) :
    SoundSet past data fuel answer (setting.map.setFloatRegister node name value addressing)
      fun _ => True := by
  apply Assures.bind (soundSet_locateForWrite name hnode haddressing)
  intro place hname
  apply Assures.bind (Assures.ofExcept fun _ _ => trivial)
  intro raw _
  apply Assures.bind (soundSet_write hname place.1 raw)
  intro _ _
  apply Assures.bind (soundSet_reading (sound_keepFloat hname value))
  exact fun _ _ => soundSet_invalidateDependents name

theorem soundSet_setBoolRegister {node : BooleanNode} {name : Text} (value : Bool)
    (bitfield : BitField) (hnode : setting.map.node name = some (.boolean node))
    (haddressing : node.addressing = some addressing) :
    SoundSet past data fuel answer
      (setting.map.setBoolRegister node name value addressing bitfield) fun _ => True := by
  apply Assures.bind (soundSet_locateForWrite name hnode haddressing)
  intro place hname
  apply Assures.bind (soundSet_reading (sound_freshRaw hname _ place.1 place.2))
  intro bytes _
  apply Assures.bind (Assures.ofExcept fun _ _ => trivial)
  intro raw _
  apply Assures.bind (soundSet_write hname place.1 raw)
  intro _ _
  apply Assures.bind (soundSet_reading (sound_afterRegisterWrite hname raw _ _))
  exact fun _ _ => soundSet_invalidateDependents name

theorem soundSet_setStringRegister {node : StringNode} {name : Text} (value : Text)
    (hnode : setting.map.node name = some (.string node))
    (haddressing : node.addressing = some addressing) :
    SoundSet past data fuel answer (setting.map.setStringRegister name value addressing)
      fun _ => True := by
  apply Assures.bind (soundSet_locateForWrite name hnode haddressing)
  intro place hname
  apply Assures.bind (soundSet_write hname place.1 _)
  intro _ _
  apply Assures.bind (soundSet_invalidateDependents name)
  exact fun _ _ => soundSet_reading (sound_keepStamped hname value _)

theorem soundSet_setEnumRegister {node : EnumNode} {name : Text} (raw : Int64) (selfClearing : Bool)
    (hnode : setting.map.node name = some (.enumeration node))
    (haddressing : node.addressing = some addressing) :
    SoundSet past data fuel answer
      (setting.map.setEnumRegister name raw selfClearing addressing) fun _ => True := by
  apply Assures.bind (soundSet_locateForWrite name hnode haddressing)
  intro place hname
  apply Assures.bind (Assures.ofExcept fun _ _ => trivial)
  intro bytes _
  apply Assures.bind (soundSet_write hname place.1 bytes)
  intro _ _
  apply Assures.bind (soundSet_keep Genuine.clearEntry)
  intro _ _
  apply Assures.bind (soundSet_noteEntry name selfClearing)
  exact fun _ _ => soundSet_invalidateDependents name

section

variable (hanswer : answer.Keeps (portSource past data).Inv)
include hanswer

theorem soundSet_writeConverterRaw (pValue : Text) (raw : Value) :
    SoundSet past data fuel answer (setting.map.writeConverterRaw pValue raw)
      fun _ => True := by
  unfold NodeMap.writeConverterRaw
  split
  · exact Assures.question hanswer _
  · exact Assures.question hanswer _
  · apply Assures.bind (Assures.ofExcept fun _ _ => trivial)
    exact fun _ _ => Assures.question hanswer _
  · exact Assures.fail _

theorem soundSet_setConverter (name : Text) (value : Float) :
    SoundSet past data fuel answer (setting.map.setConverter name value) fun _ => True := by
  apply Assures.bind (soundSet_asking _)
  intro _ _
  apply Assures.bind (Assures.ofExcept fun _ _ => trivial)
  intro node _
  apply Assures.bind (soundSet_asking _)
  intro raw _
  apply Assures.bind (soundSet_writeConverterRaw hanswer _ raw)
  exact fun _ _ => soundSet_invalidateDependents name

theorem soundSet_setIntConverter (name : Text) (value : Int64) :
    SoundSet past data fuel answer (setting.map.setIntConverter name value) fun _ => True := by
  apply Assures.bind (soundSet_asking _)
  intro _ _
  apply Assures.bind (Assures.ofExcept fun _ _ => trivial)
  intro node _
  apply Assures.bind (soundSet_asking _)
  intro raw _
  apply Assures.bind (soundSet_writeConverterRaw hanswer _ raw)
  exact fun _ _ => soundSet_invalidateDependents name

theorem soundSet_setInteger (name : Text) (value : Int64) :
    SoundSet past data fuel answer (setting.map.setInteger name value) fun _ => True := by
  unfold NodeMap.setInteger
  split
  · exact soundSet_setIntConverter hanswer name value
  · apply Assures.bind (Assures.ofExcept fun node hnode => NodeMap.node_of_getIntegerNode hnode)
    intro node hnode
    apply Assures.bind (soundSet_asking _)
    intro _ _
    apply Assures.bind (soundSet_asking _)
    intro _ _
    split
    · apply Assures.bind (soundSet_hold name _)
      exact fun _ _ => soundSet_invalidateDependents name
    · exact Assures.question hanswer _
    · apply Assures.bind (soundSet_asking _)
      intro selected _
      split
      · exact Assures.question hanswer _
      · apply Assures.bind (soundSet_hold name _)
        exact fun _ _ => soundSet_invalidateDependents name
    · exact Assures.fail _
    · rename_i addressing _ _ _ haddressing
      exact soundSet_setIntegerRegister value hnode haddressing

theorem soundSet_setFloat (name : Text) (value : Float) :
    SoundSet past data fuel answer (setting.map.setFloat name value) fun _ => True := by
  unfold NodeMap.setFloat
  split
  · exact soundSet_setConverter hanswer name value
  · apply Assures.bind (Assures.ofExcept fun _ _ => trivial)
    exact fun _ _ => soundSet_setIntConverter hanswer name _
  · apply Assures.bind (Assures.ofExcept fun node hnode => NodeMap.node_of_getFloatNode hnode)
    intro node hnode
    apply Assures.bind (soundSet_asking _)
    intro _ _
    apply Assures.bind (soundSet_asking _)
    intro _ _
    split
    · apply Assures.bind (soundSet_hold name _)
      exact fun _ _ => soundSet_invalidateDependents name
    · exact Assures.question hanswer _
    · apply Assures.bind (soundSet_asking _)
      intro selected _
      split
      · exact Assures.question hanswer _
      · apply Assures.bind (soundSet_hold name _)
        exact fun _ _ => soundSet_invalidateDependents name
    · exact Assures.fail _
    · rename_i addressing _ _ _ haddressing
      exact soundSet_setFloatRegister value hnode haddressing

theorem soundSet_setBool (name : Text) (value : Bool) :
    SoundSet past data fuel answer (setting.map.setBool name value) fun _ => True := by
  apply Assures.bind (Assures.ofExcept fun node hnode => NodeMap.node_of_getBoolNode hnode)
  intro node hnode
  apply Assures.bind (soundSet_asking _)
  intro _ _
  split
  · exact Assures.question hanswer _
  · apply Assures.bind (soundSet_hold name _)
    exact fun _ _ => soundSet_invalidateDependents name
  · exact Assures.fail _
  · rename_i addressing _ haddressing
    split
    · exact Assures.fail _
    · exact soundSet_setBoolRegister value _ hnode haddressing

theorem soundSet_setString (name value : Text) :
    SoundSet past data fuel answer (setting.map.setString name value) fun _ => True := by
  apply Assures.bind (Assures.ofExcept fun node hnode => NodeMap.node_of_getStringNode hnode)
  intro node hnode
  apply Assures.bind (soundSet_asking _)
  intro _ _
  split
  · apply Assures.bind (Assures.question hanswer _)
    exact fun _ _ => soundSet_invalidateDependents name
  · exact Assures.fail _
  · apply Assures.bind (soundSet_hold name _)
    exact fun _ _ => soundSet_invalidateDependents name
  · rename_i addressing _ haddressing
    exact soundSet_setStringRegister value hnode haddressing

theorem soundSet_setter {α : Type} (tell : Tell α) :
    SoundSet past data fuel answer (setting.map.setter α tell) fun _ => True := by
  cases tell with
  | integer name value => exact soundSet_setInteger hanswer name value
  | float name value => exact soundSet_setFloat hanswer name value
  | boolean name value => exact soundSet_setBool hanswer name value
  | string name value => exact soundSet_setString hanswer name value

theorem soundSet_writeEntry {node : EnumNode} {name : Text} (entry : EnumEntryDecl)
    (hnode : setting.map.node name = some (.enumeration node)) :
    SoundSet past data fuel answer (setting.map.writeEntry node name entry)
      fun _ => True := by
  apply Assures.bind (soundSet_asking _)
  intro raw _
  split
  · apply Assures.bind (Assures.question hanswer _)
    intro _ _
    apply Assures.bind (soundSet_keep Genuine.clearEntries)
    intro _ _
    apply Assures.bind (soundSet_noteEntry name _)
    exact fun _ _ => soundSet_invalidateDependents name
  · apply Assures.bind (soundSet_hold name _)
    intro _ _
    apply Assures.bind (soundSet_keep Genuine.clearEntry)
    exact fun _ _ => soundSet_invalidateDependents name
  · exact Assures.fail _
  · rename_i addressing _ haddressing
    exact soundSet_setEnumRegister raw _ hnode haddressing

theorem soundSet_setEnum (name entry : Text) :
    SoundSet past data fuel answer (setting.map.setEnum name entry) fun _ => True := by
  apply Assures.bind (Assures.ofExcept fun node hnode => NodeMap.node_of_getEnumNode hnode)
  intro node hnode
  apply Assures.bind (soundSet_asking _)
  intro _ _
  split
  · exact Assures.fail _
  · apply Assures.bind (soundSet_asking _)
    intro available _
    split
    · exact soundSet_writeEntry hanswer _ hnode
    · exact Assures.fail _

omit hanswer in
theorem soundSet_setRegister (name : Text) (bytes : List UInt8) :
    SoundSet past data fuel answer (setting.map.setRegister name bytes) fun _ => True := by
  apply Assures.bind (Assures.ofExcept fun node hnode => NodeMap.node_of_getRegisterNode hnode)
  intro node hnode
  apply Assures.bind (soundSet_asking _)
  intro _ _
  apply Assures.bind (soundSet_locateForWrite name hnode rfl)
  rintro ⟨address, len⟩ hname
  dsimp only
  split
  · exact Assures.fail _
  · apply Assures.bind (soundSet_write hname address bytes)
    intro _ _
    apply Assures.bind (soundSet_invalidateDependents name)
    exact fun _ _ => soundSet_reading (sound_keepStamped hname bytes _)

theorem soundSet_execCommand (name : Text) :
    SoundSet past data fuel answer (setting.map.execCommand name) fun _ => True := by
  apply Assures.bind (Assures.ofExcept fun node hnode => NodeMap.node_of_getCommandNode hnode)
  intro node hnode
  have hname : OffPorts setting.map name := by
    intro other port kind hon
    obtain rfl := hon.node_eq hnode
    cases hon.registered
  apply Assures.bind (soundSet_asking _)
  intro _ _
  split
  · apply Assures.bind (soundSet_asking _)
    intro value _
    apply Assures.bind (soundSet_asking _)
    intro polls _
    apply Assures.bind (Assures.question hanswer _)
    intro _ _
    apply Assures.bind (soundSet_noteCommand name polls)
    exact fun _ _ => soundSet_invalidateDependents name
  · apply Assures.bind (soundSet_asking _)
    intro value _
    split
    · exact Assures.fail _
    · split
      · exact Assures.fail _
      · apply Assures.bind (Assures.ofExcept fun _ _ => trivial)
        intro bytes _
        apply Assures.bind (soundSet_write hname _ bytes)
        exact fun _ _ => soundSet_invalidateDependents name

omit hanswer in
theorem soundSet_invalidateEach (names : List Text) :
    SoundSet past data fuel answer (NodeMap.invalidateEach names) fun _ => True := by
  induction names with
  | nil => exact Assures.done trivial
  | cons name names ih =>
    apply Assures.bind (soundSet_invalidateDependents name)
    exact fun _ _ => ih

omit hanswer in
theorem soundSet_isDone (name : Text) :
    SoundSet past data fuel answer (setting.map.isDone name) fun _ => True := by
  apply Assures.bind (Assures.ofExcept fun _ _ => trivial)
  intro node _
  split
  · exact Assures.done trivial
  · split
    · exact Assures.done trivial
    · apply Assures.bind (soundSet_asking _)
      intro path _
      split
      · exact Assures.done trivial
      · apply Assures.bind (soundSet_asking _)
        intro expected _
        apply Assures.bind (soundSet_reading (sound_invalidateReach path))
        intro _ _
        apply Assures.bind (soundSet_get (.integer _))
        intro current _
        split
        · apply Assures.bind (soundSet_noteCommand name false)
          intro _ _
          apply Assures.bind (soundSet_invalidateDependents name)
          intro _ _
          apply Assures.bind (soundSet_invalidateEach path)
          exact fun _ _ => Assures.done trivial
        · exact Assures.done trivial

end

theorem set_keeps (past : History setting) (data : PortKind → Option (List UInt8)) (fuel : Nat) :
    (set setting fuel).Keeps (portSource past data).Inv :=
  answers_keeps (fun _ hanswer _ tell => soundSet_setter hanswer tell) fuel

end

end VivaGenicam.Genapi
