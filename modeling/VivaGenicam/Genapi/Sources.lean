import VivaGenicam.Genapi.Setters

/-!
Registers whose bytes are known wherever they are read. A source says which nodes have such
a register, where it is and what it holds, and of which states that is said. What is kept
of a node was read from its register: each step of a getter preserves that.
-/

namespace VivaGenicam.Genapi

open GenapiXml Library.Programs

open Prog (question action fail ofExcept)

/-- A value that reading `node`'s register gives when it holds `raw`; an
enumeration's entry is the one some mapping has for the number read. -/
def ReadsAs (name : Text) (raw : List UInt8) : ∀ {α : Type}, Query α → Node → α → Prop
  | _, .integer _, .integer node, value => NodeMap.decodeInteger node name raw = .ok value
  | _, .float _, .float node, value => NodeMap.decodeFloat node name raw = .ok value
  | _, .boolean _, .boolean node, value =>
    ∃ bitfield, node.bitfield = some bitfield ∧ NodeMap.decodeBool bitfield name raw = .ok value
  | _, .enumeration _, .enumeration _, entry =>
    ∃ (value : Int64) (mapping : EnumMapping), bytesToI64 name raw .signed .big = .ok value ∧
      mapping.byValue.lookup value = some entry
  | _, .string _, .string _, text => text = decodeText raw
  | _, .register _, .register _, bytes => bytes = raw
  | _, _, _, _ => False

/-- The node whose value is its own register's: it delegates to no other. -/
def Node.readsRegister : Node → Prop
  | .integer node => node.value = none ∧ node.pvalue = none ∧ node.indexed = none
  | .float node => node.value = none ∧ node.pvalue = none ∧ node.indexed = none
  | .enumeration node => node.pvalue = none
  | .boolean node => node.pvalue = none ∧ node.bitfield.isSome
  | .string node => node.pvalue = none
  | .register _ => True
  | _ => False

/-- What is kept for a node that reads its own register was read from `FromPort`. -/
structure Genuine (FromPort : List UInt8 → Prop) (name : Text) (node : Node) (c : Caches) :
    Prop where
  integer : ∀ value, c.integer = some value →
    ∃ raw, FromPort raw ∧ ReadsAs name raw (.integer name) node value
  float : ∀ value, c.float = some value →
    ∃ raw, FromPort raw ∧ ReadsAs name raw (.float name) node value
  boolean : ∀ value, c.boolean = some value →
    ∃ raw, FromPort raw ∧ ReadsAs name raw (.boolean name) node value
  entry : node.readsRegister → ∀ entry, c.entry = some entry →
    ∃ raw, FromPort raw ∧ ReadsAs name raw (.enumeration name) node entry
  text : ∀ value stamp, c.text = some (value, stamp) →
    ∃ raw, FromPort raw ∧ ReadsAs name raw (.string name) node value
  bytes : ∀ value stamp, c.bytes = some (value, stamp) →
    ∃ raw, FromPort raw ∧ ReadsAs name raw (.register name) node value

theorem Genuine.empty (FromPort : List UInt8 → Prop) (name : Text) (node : Node) :
    Genuine FromPort name node {} where
  integer := nofun
  float := nofun
  boolean := nofun
  entry := nofun
  text := nofun
  bytes := nofun

theorem Genuine.mono {FromPort FromPort' : List UInt8 → Prop} {name : Text} {node : Node}
    {c : Caches} (h : Genuine FromPort name node c) (hmono : ∀ raw, FromPort raw → FromPort' raw) :
    Genuine FromPort' name node c where
  integer value hvalue := (h.integer value hvalue).imp fun raw => And.imp_left (hmono raw)
  float value hvalue := (h.float value hvalue).imp fun raw => And.imp_left (hmono raw)
  boolean value hvalue := (h.boolean value hvalue).imp fun raw => And.imp_left (hmono raw)
  entry hreads entry hentry := (h.entry hreads entry hentry).imp fun raw => And.imp_left (hmono raw)
  text value stamp hvalue := (h.text value stamp hvalue).imp fun raw => And.imp_left (hmono raw)
  bytes value stamp hvalue := (h.bytes value stamp hvalue).imp fun raw => And.imp_left (hmono raw)

/-- The node a query asks for the value of. -/
def Query.subject {α : Type} : Query α → Option Text
  | .integer name | .float name | .boolean name | .enumeration name | .string name
  | .register name => some name
  | .value _ _ | .limit _ _ _ _ _ | .limitFor _ _ _ _ => none

variable {D : Type}

/-- Nodes with a register, and what the register holds where a read finds it, in the states of a
run in which `Stands` is so. `Seen` has the states that the run may pass through. -/
structure Source (setting : Setting D) where
  Has : Text → Node → Prop
  Holds : Text → List UInt8 → Prop
  At : Text → Location → Prop
  Stands : World D → Prop
  Seen : World D → Prop
  declared : ∀ {name node}, Has name node → setting.map.node name = some node
  registered : ∀ {name node}, Has name node → ∃ addressing, node.addressing = some addressing
  aside : ∀ {w w' : World D}, Stands w → w'.device = w.device → w'.chunks = w.chunks →
    w'.events = w.events → w'.accesses = w.accesses → Stands w'
  did : ∀ {w : World D} (fuel : Nat) {α : Type} (o : Deed α), Seen w →
    Seen (deed setting fuel α o w).2
  read : ∀ {w : World D} {name : Text} {address len : Nat}, Stands w →
    At name (.device address len) → Stands (w.readDevice setting name address len).2 ∧
      ∀ raw, (w.readDevice setting name address len).1 = .ok raw →
        ∀ node, Has name node → Holds name raw
  slice : ∀ {name port : Text} {bytes : List UInt8} {offset : Int64} {len : Nat} {fromEnd : Bool}
    {raw : List UInt8}, At name (.data port bytes offset len fromEnd) →
    slicePortData name port bytes offset len fromEnd = .ok raw →
      ∀ node, Has name node → Holds name raw

namespace Source

variable {setting : Setting D} (src : Source setting)

theorem node_eq {src : Source setting} {name : Text} {node other : Node} (h : src.Has name node)
    (hother : setting.map.node name = some other) : other = node :=
  Option.some.inj (hother.symm.trans (src.declared h))

/-- A value got for `name` was read from its register. -/
def Attests (name : Text) {α : Type} (q : Query α) (value : α) : Prop :=
  ∀ node, src.Has name node → node.readsRegister →
    ∃ raw, src.Holds name raw ∧ ReadsAs name raw q node value

/-- What is kept of the nodes was read from their registers. -/
structure Attested (w : World D) : Prop where
  stands : src.Stands w
  caches : ∀ name node, src.Has name node → Genuine (src.Holds name) name node (w.caches name)

/-- What is said of every state of a run. -/
def Inv (w : World D) : Prop := src.Attested w ∧ src.Seen w

/-- Getters to some depth of calls keep this, and attest what they return. -/
structure Attesting (fuel : Nat) : Prop where
  keeps : (get setting fuel).Keeps src.Inv
  attests : ∀ {α : Type} (q : Query α) (name : Text), q.subject = some name →
    ∀ w, src.Inv w → ∀ value, (get setting fuel α q w).1 = .ok value → src.Attests name q value

/-- Answers that keep this, and let every register be found where it is. -/
structure Answers (answer : Handler Query GenApiError (World D)) : Prop where
  keeps : answer.Keeps src.Inv
  locates : ∀ {name : Text} {node : Node} {addressing : Addressing},
    setting.map.node name = some node → node.addressing = some addressing →
      Assures answer (look setting) src.Inv (setting.map.locate name addressing) (src.At name)

def Locates : Prop := ∀ fuel, src.Attesting fuel → src.Answers (get setting fuel)

/-- The source of no register at all. -/
def nowhere (setting : Setting D) : Source setting where
  Has _ _ := False
  Holds _ _ := False
  At _ _ := True
  Stands _ := True
  Seen _ := True
  declared := False.elim
  registered := False.elim
  aside _ _ _ _ _ := trivial
  did _ _ _ _ := trivial
  read _ _ := ⟨trivial, fun _ _ _ => id⟩
  slice _ _ _ := id

theorem nowhere_inv (w : World D) : (nowhere setting).Inv w :=
  ⟨⟨trivial, fun _ _ => False.elim⟩, trivial⟩

theorem nowhere_answers (setting : Setting D) (answer : Handler Query GenApiError (World D)) :
    (nowhere setting).Answers answer :=
  ⟨fun _ _ _ _ => nowhere_inv _, fun _ _ _ _ => ⟨nowhere_inv _, fun _ _ => trivial⟩⟩

end Source

section

variable {setting : Setting D} {src : Source setting} {w w' : World D}

namespace Source.Attested

theorem aside (h : src.Attested w) (hdevice : w'.device = w.device) (hchunks : w'.chunks = w.chunks)
    (hevents : w'.events = w.events) (hcaches : w'.caches = w.caches)
    (haccesses : w'.accesses = w.accesses) : src.Attested w' where
  stands := src.aside h.stands hdevice hchunks hevents haccesses
  caches := by
    rw [hcaches]
    exact h.caches

theorem setCaches (h : src.Attested w) {name : Text} {c : Caches}
    (hc : ∀ node, src.Has name node → Genuine (src.Holds name) name node c) :
    src.Attested (w.setCaches name c) where
  stands := src.aside h.stands rfl rfl rfl rfl
  caches other node hhas := by
    by_cases hname : other = name
    · subst hname
      simpa [World.setCaches] using hc node hhas
    · simpa [World.setCaches, Function.update_of_ne hname] using h.caches other node hhas

theorem invalidateCache (h : src.Attested w) (name : Text) :
    src.Attested (w.invalidateCache name) :=
  h.setCaches fun _ _ => Genuine.empty ..

theorem now (h : src.Attested w) : src.Attested (w.now setting).2 :=
  h.aside rfl rfl rfl rfl rfl

theorem setSince (h : src.Attested w) (name : Text) (since : Option Nat) :
    src.Attested (w.setSince name since) :=
  h.aside rfl rfl rfl rfl rfl

theorem mayServe (h : src.Attested w) (name : Text) :
    src.Attested (w.mayServe setting name).2 := by
  unfold World.mayServe
  split
  · exact h
  · split
    · exact h
    · exact h
    · exact h
    · split
      · exact h
      · exact h.now

theorem noteRead (h : src.Attested w) (name : Text) :
    src.Attested (w.noteRead setting name) := by
  unfold World.noteRead
  split
  · exact h.now.setSince ..
  · exact h

theorem noteEntry (h : src.Attested w) (name : Text) (selfClearing : Bool) :
    src.Attested (w.noteEntry setting name selfClearing) := by
  unfold World.noteEntry
  split
  · split
    · exact h.now.setSince ..
    · exact h.setSince ..
  · exact h

theorem noteCommand (h : src.Attested w) (name : Text) (running : Bool) :
    src.Attested (w.noteCommand setting name running) := by
  unfold World.noteCommand
  split
  · split
    · exact h.now.setSince ..
    · exact h.setSince ..
  · exact h

theorem invalidateAllOf (h : src.Attested w) (names : List Text) :
    src.Attested (w.invalidateAllOf names) := by
  induction names generalizing w with
  | nil => exact h
  | cons name names ih =>
    apply ih
    exact (h.invalidateCache name).aside rfl rfl rfl rfl rfl

theorem invalidateDependents (h : src.Attested w) (name : Text) :
    src.Attested (w.invalidateDependents setting.map name) := by
  apply invalidateAllOf
  exact h.aside rfl rfl rfl rfl rfl

end Source.Attested

end

section

variable {setting : Setting D} {src : Source setting}
  {answer : Handler Query GenApiError (World D)}

/-- A getter that keeps the invariant and whose value satisfies `post`. -/
abbrev Sound {α : Type} {setting : Setting D} (src : Source setting)
    (answer : Handler Query GenApiError (World D)) (p : Getter α) (post : α → Prop) : Prop :=
  Assures answer (look setting) src.Inv p post

theorem sound_action {α : Type} {o : Look α}
    (h : ∀ {w : World D}, src.Attested w → src.Attested (look setting _ o w).2) :
    Sound src answer (action o) fun _ => True :=
  Assures.action fun _ hw => ⟨⟨h hw.1, src.did 0 (.look o) hw.2⟩, fun _ _ => trivial⟩

theorem sound_mayServe (name : Text) :
    Sound src answer (action (.mayServe name)) fun _ => True :=
  sound_action fun hw => hw.mayServe name

theorem sound_noteRead (name : Text) :
    Sound src answer (action (.noteRead name)) fun _ => True :=
  sound_action fun hw => hw.noteRead name

theorem sound_generation : Sound src answer (action .generation) fun _ => True :=
  sound_action fun hw => hw

theorem sound_held (name : Text) :
    Sound src answer (action (.held name)) fun _ => True :=
  sound_action fun hw => hw

theorem sound_noteEntry (name : Text) (selfClearing : Bool) :
    Sound src answer (action (.noteEntry name selfClearing)) fun _ => True :=
  sound_action fun hw => hw.noteEntry name selfClearing

theorem sound_invalidateCache (name : Text) :
    Sound src answer (action (.invalidateCache name)) fun _ => True :=
  sound_action fun hw => hw.invalidateCache name

theorem sound_selfClearingActive (name : Text) :
    Sound src answer (action (.selfClearingActive name)) fun _ => True :=
  sound_action fun hw => hw

theorem sound_keep {name : Text} {change : Caches → Caches}
    (h : ∀ node, src.Has name node → ∀ c,
      Genuine (src.Holds name) name node c →
        Genuine (src.Holds name) name node (change c)) :
    Sound src answer (action (.keep name change)) fun _ => True :=
  sound_action fun hw => hw.setCaches fun node hhas => h node hhas _ (hw.caches name node hhas)

theorem sound_caches (name : Text) :
    Sound src answer (action (.caches name)) fun c =>
      ∀ node, src.Has name node →
        Genuine (src.Holds name) name node c := by
  apply Assures.action
  intro w hw
  refine ⟨hw, fun c hc => ?_⟩
  cases hc
  exact hw.1.caches name

theorem sound_served {α : Type} {name : Text} {pick : Caches → Option α} :
    Sound src answer (NodeMap.served name pick) fun served =>
      ∀ value, served = some value → ∃ c : Caches, pick c = some value ∧
        ∀ node, src.Has name node →
          Genuine (src.Holds name) name node c := by
  apply Assures.bind (sound_mayServe name)
  intro may _
  split
  · apply Assures.bind (sound_caches name)
    intro c hc
    exact Assures.done fun value hvalue => ⟨c, hvalue, hc⟩
  · exact Assures.done nofun

theorem sound_servedNow {α : Type} {name : Text} {pick : Caches → Option (α × Nat)} :
    Sound src answer (NodeMap.servedNow name pick) fun served =>
      ∀ value, served = some value → ∃ (c : Caches) (stamp : Nat), pick c = some (value, stamp) ∧
        ∀ node, src.Has name node →
          Genuine (src.Holds name) name node c := by
  apply Assures.bind sound_served
  intro served hserved
  split
  · rename_i value stamp
    apply Assures.bind sound_generation
    intro generation _
    apply Assures.done
    intro other hother
    obtain ⟨c, hpick, hc⟩ := hserved _ rfl
    split at hother
    · cases hother
      exact ⟨c, stamp, hpick, hc⟩
    · cases hother
  · exact Assures.done nofun

theorem sound_readLocation {name : Text} {location : Location} (hlocation : src.At name location) :
    Sound src answer (NodeMap.readLocation name location) fun raw =>
      ∀ node, src.Has name node → src.Holds name raw := by
  cases location with
  | device address len =>
    apply Assures.action
    intro w hw
    obtain ⟨hstands, hholds⟩ := src.read hw.1.stands hlocation
    exact ⟨⟨⟨hstands, hw.1.caches⟩, src.did 0 (.look (.read name address len)) hw.2⟩, hholds⟩
  | data port bytes offset len fromEnd =>
    exact Assures.ofExcept fun raw hraw => src.slice hlocation hraw

section

variable {α : Type} {name : Text} {node : Node} {addressing : Addressing}
  (hanswer : src.Answers answer) (hnode : setting.map.node name = some node)
  (haddressing : node.addressing = some addressing) {q : Query α}
include hanswer hnode haddressing

theorem sound_readRegister {pick : Caches → Option α} {decode : List UInt8 → Except GenApiError α}
    {put : Option (α × List UInt8) → Caches → Caches}
    (hdecode : ∀ raw value, decode raw = .ok value → ReadsAs name raw q node value)
    (hpick : ∀ {FromPort c} value, Genuine FromPort name node c → pick c = some value →
      ∃ raw, FromPort raw ∧ ReadsAs name raw q node value)
    (hput : ∀ {FromPort c} kept, Genuine FromPort name node c →
      (∀ value raw, kept = some (value, raw) → FromPort raw ∧ ReadsAs name raw q node value) →
        Genuine FromPort name node (put kept c)) :
    Sound src answer (setting.map.readRegister name addressing pick decode put)
      (src.Attests name q) := by
  apply Assures.bind (hanswer.locates hnode haddressing)
  intro location hlocation
  apply Assures.bind sound_served
  intro served hserved
  split
  · rename_i value
    obtain ⟨c, hc, hgenuine⟩ := hserved value rfl
    apply Assures.done
    intro other hhas _
    obtain rfl := Source.node_eq hhas hnode
    exact hpick value (hgenuine node hhas) hc
  · apply Assures.bind (sound_readLocation hlocation)
    intro raw hraw
    apply Assures.bind (Assures.ofExcept fun value hvalue => hdecode raw value hvalue)
    intro value hvalue
    apply Assures.bind (sound_noteRead name)
    intro _ _
    have hkeep : ∀ other, src.Has name other →
        other = node ∧ src.Holds name raw := by
      intro other hhas
      obtain rfl := Source.node_eq hhas hnode
      exact ⟨rfl, hraw node hhas⟩
    apply Assures.bind (M := fun _ => True)
    · apply sound_keep
      intro other hhas c hc
      obtain ⟨rfl, hfrom⟩ := hkeep other hhas
      apply hput _ hc
      intro kept raw' hkept
      split at hkept
      · cases hkept
        exact ⟨hfrom, hvalue⟩
      · cases hkept
    · intro _ _
      apply Assures.done
      intro other hhas _
      obtain ⟨rfl, hfrom⟩ := hkeep other hhas
      exact ⟨raw, hfrom, hvalue⟩

theorem sound_readStamped {pick : Caches → Option (α × Nat)} {decode : List UInt8 → α}
    {put : Option (α × Nat) → Caches → Caches}
    (hdecode : ∀ raw, ReadsAs name raw q node (decode raw))
    (hpick : ∀ {FromPort c} value stamp, Genuine FromPort name node c →
      pick c = some (value, stamp) → ∃ raw, FromPort raw ∧ ReadsAs name raw q node value)
    (hput : ∀ {FromPort c} kept, Genuine FromPort name node c →
      (∀ value stamp, kept = some (value, stamp) →
        ∃ raw, FromPort raw ∧ ReadsAs name raw q node value) →
        Genuine FromPort name node (put kept c)) :
    Sound src answer (setting.map.readStamped name addressing pick decode put)
      (src.Attests name q) := by
  apply Assures.bind sound_servedNow
  intro served hserved
  split
  · rename_i value
    obtain ⟨c, stamp, hc, hgenuine⟩ := hserved value rfl
    apply Assures.done
    intro other hhas _
    obtain rfl := Source.node_eq hhas hnode
    exact hpick value stamp (hgenuine node hhas) hc
  · apply Assures.bind (hanswer.locates hnode haddressing)
    intro location hlocation
    apply Assures.bind (sound_readLocation hlocation)
    intro raw hraw
    apply Assures.bind (sound_noteRead name)
    intro _ _
    apply Assures.bind sound_generation
    intro generation _
    have hkeep : ∀ other, src.Has name other →
        other = node ∧ src.Holds name raw := by
      intro other hhas
      obtain rfl := Source.node_eq hhas hnode
      exact ⟨rfl, hraw node hhas⟩
    apply Assures.bind (M := fun _ => True)
    · apply sound_keep
      intro other hhas c hc
      obtain ⟨rfl, hfrom⟩ := hkeep other hhas
      apply hput _ hc
      intro value stamp hkept
      split at hkept
      · cases hkept
        exact ⟨raw, hfrom, hdecode raw⟩
      · cases hkept
    · intro _ _
      apply Assures.done
      intro other hhas _
      obtain ⟨rfl, hfrom⟩ := hkeep other hhas
      exact ⟨raw, hfrom, hdecode raw⟩

end

end

end VivaGenicam.Genapi
