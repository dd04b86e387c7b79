import VivaGenicam.Genapi.ReadBack
import VivaGenicam.Library.Committing

/-!
What a call leaves behind on any device. A get writes nothing. A call that writes
looks first, then writes at most once, to a node that may be written, and cannot
fail afterwards: where it fails, nothing is written, held or recorded as changed.
-/

namespace VivaGenicam.Genapi

open GenapiXml Library.Programs

open Prog (action question ofExcept)

/-- The calls that write. -/
inductive UserCall where
  | tell (value : Tell Unit)
  | converter (name : Text) (value : Float)
  | intConverter (name : Text) (value : Int64)
  | enumeration (name entry : Text)
  | register (name : Text) (data : List UInt8)
  | command (name : Text)

def UserCall.program (map : NodeMap) : UserCall → Setter Unit
  | .tell value => map.setter Unit value
  | .converter name value => map.setConverter name value
  | .intConverter name value => map.setIntConverter name value
  | .enumeration name entry => map.setEnum name entry
  | .register name data => map.setRegister name data
  | .command name => map.execCommand name

variable {D : Type}

def UserCall.run (setting : Setting D) (fuel : Nat) (call : UserCall) (w : World D) :
    Outcome GenApiError Unit × World D :=
  Library.Programs.run (set setting fuel) (deed setting fuel) (call.program setting.map) w

def Access.isWrite : Access → Bool
  | .read _ _ _ => false
  | .wrote _ _ _ => true

/-- The writes so far, those that the device refused among them. -/
def World.written (w : World D) : List Access := w.accesses.filter Access.isWrite

/-- A device that reading, and a write it refuses, leaves as it is. -/
def RegisterIo.Passive (io : RegisterIo D) : Prop :=
  (∀ d address len, (io.read d address len).2 = d) ∧
    ∀ d address data, (io.write d address data).1.isOk = false → (io.write d address data).2 = d

/-- Nothing but caches, polling times and the log of accesses differs. -/
structure Kept (io : RegisterIo D) (w w' : World D) : Prop where
  device : io.Passive → w'.device = w.device
  held : w'.held = w.held
  generation : w'.generation = w.generation
  changed : w'.changed = w.changed
  allChanged : w'.allChanged = w.allChanged
  chunks : w'.chunks = w.chunks
  events : w'.events = w.events

structure Looked (io : RegisterIo D) (w w' : World D) : Prop extends Kept io w w' where
  written : w'.written = w.written

/-- Neither its own access mode nor an imposed one keeps the node from being written. -/
def Writable (map : NodeMap) (name : Text) : Prop :=
  (∃ node, map.node name = some node ∧ node.accessMode ≠ some .ro) ∧
    map.imposedAccess name ≠ some .ro

structure Ended (setting : Setting D) (returned : Bool) (w w' : World D) : Prop where
  refused : returned = false → Kept setting.io w w'
  writes : ∃ write : Option Access, w'.written = w.written ++ write.toList ∧
    ∀ access ∈ write, Writable setting.map access.node

def Quietly (w w' : World D) : Prop := w'.accesses = w.accesses

theorem Kept.refl (io : RegisterIo D) (w : World D) : Kept io w w :=
  ⟨fun _ => rfl, rfl, rfl, rfl, rfl, rfl, rfl⟩

variable {io : RegisterIo D} {setting : Setting D} {w mid w' : World D} {returned : Bool}

theorem Kept.trans (h : Kept io w mid) (h' : Kept io mid w') : Kept io w w' :=
  ⟨fun hio => (h'.device hio).trans (h.device hio), h'.held.trans h.held,
    h'.generation.trans h.generation, h'.changed.trans h.changed,
    h'.allChanged.trans h.allChanged, h'.chunks.trans h.chunks, h'.events.trans h.events⟩

theorem Looked.refl (w : World D) : Looked io w w := ⟨.refl io w, rfl⟩

theorem Looked.trans (h : Looked io w mid) (h' : Looked io mid w') : Looked io w w' :=
  ⟨h.toKept.trans h'.toKept, h'.written.trans h.written⟩

theorem Looked.ended (h : Looked setting.io w w') : Ended setting returned w w' :=
  ⟨fun _ => h.toKept, none, by rw [h.written, Option.toList_none, List.append_nil], nofun⟩

theorem Looked.before (h : Looked setting.io w mid) (h' : Ended setting returned mid w') :
    Ended setting returned w w' :=
  ⟨fun hrefused => h.toKept.trans (h'.refused hrefused), h.written ▸ h'.writes⟩

theorem Ended.quietly (h : Ended setting true w mid) (h' : Quietly mid w') :
    Ended setting true w w' := by
  have hsame : w'.written = mid.written := congrArg (List.filter Access.isWrite) h'
  exact ⟨nofun, hsame ▸ h.writes⟩

theorem Looked.aside (w : World D) (caches : Text → Caches) (since : Text → Option Nat)
    (ticks : Nat) : Looked io w { w with caches, since, ticks } :=
  ⟨⟨fun _ => rfl, rfl, rfl, rfl, rfl, rfl, rfl⟩, rfl⟩

theorem look_looked : (look setting).Moves (Looked setting.io) := by
  intro α o w
  cases o with
  | read name address len =>
    refine ⟨⟨fun hio => hio.1 .., rfl, rfl, rfl, rfl, rfl, rfl⟩, ?_⟩
    exact (List.filter_append ..).trans (List.append_nil _)
  | mayServe name =>
    change Looked setting.io w (w.mayServe setting name).2
    unfold World.mayServe
    split
    · exact .aside w ..
    · split
      · exact .aside w ..
      · exact .aside w ..
      · exact .aside w ..
      · split <;> exact .aside w ..
  | noteRead name =>
    change Looked setting.io w (w.noteRead setting name)
    unfold World.noteRead
    split <;> exact .aside w ..
  | noteEntry name selfClearing =>
    change Looked setting.io w (w.noteEntry setting name selfClearing)
    unfold World.noteEntry
    split
    · split <;> exact .aside w ..
    · exact .aside w ..
  | _ => exact .aside w ..

theorem get_looked {α : Type} (setting : Setting D) (fuel : Nat) (q : Query α) (w : World D) :
    Looked setting.io w (get setting fuel α q w).2 :=
  answers_moves (R := Looked setting.io) Looked.refl Looked.trans look_looked fuel α q w

section

variable {fuel : Nat} {answer : Handler Tell GenApiError (World D)} {name : Text} {α β : Type}

theorem reading_looked (p : Getter α) (w : World D) :
    Looked setting.io w (run answer (deed setting fuel) (reading p) w).2 := by
  rw [run_reading]
  exact run_moves (R := Looked setting.io) Looked.refl Looked.trans
    (fun _ q w => get_looked setting fuel q w) look_looked p w

variable (setting fuel answer) in
def Surely (p : Setter α) : Prop := Sure answer (deed setting fuel) Quietly p

variable {p : Setter α} {f : α → Setter β}

theorem surely_then (hp : Surely setting fuel answer p)
    (hf : ∀ a, Surely setting fuel answer (f a)) : Surely setting fuel answer (p >>= f) :=
  Sure.bind (R := Quietly) (fun h h' => Eq.trans h' h) hp hf

theorem surely_action {o : Deed α}
    (h : ∀ w, ∃ a w', deed setting fuel _ o w = (.ok a, w') ∧ Quietly w w') :
    Surely setting fuel answer (action o) := by
  intro w
  rw [run_action]
  exact h w

theorem surely_invalidate : Surely setting fuel answer (action (.invalidateDependents name)) :=
  surely_action fun _ => ⟨(), _, rfl, accesses_invalidateDependents ..⟩

theorem surely_noteCommand {running : Bool} :
    Surely setting fuel answer (action (.noteCommand name running)) := by
  refine surely_action fun w => ⟨(), _, rfl, ?_⟩
  change (w.noteCommand setting name running).accesses = w.accesses
  unfold World.noteCommand
  split
  · split <;> rfl
  · rfl

theorem surely_noteEntry {selfClearing : Bool} :
    Surely setting fuel answer (action (.look (.noteEntry name selfClearing))) := by
  refine surely_action fun w => ⟨(), _, rfl, ?_⟩
  change (w.noteEntry setting name selfClearing).accesses = w.accesses
  unfold World.noteEntry
  split
  · split <;> rfl
  · rfl

theorem surely_keep {change : Caches → Caches} :
    Surely setting fuel answer (action (.look (.keep name change))) :=
  surely_action fun _ => ⟨(), _, rfl, rfl⟩

theorem surely_keepRead {change : Caches → Caches} : Surely setting fuel answer (do
    action (.look (.keep name change))
    action (.look (.noteRead name))) :=
  surely_then surely_keep fun _ =>
    surely_action fun w => ⟨(), _, rfl, (noteRead_same setting w name).2.2⟩

theorem surely_afterRegisterWrite {raw : List UInt8} {readable : Bool}
    {put : Bool → Option (List UInt8) → Caches → Caches} :
    Surely setting fuel answer
      (reading (setting.map.afterRegisterWrite name raw readable put)) := by
  unfold NodeMap.afterRegisterWrite
  split
  · exact surely_keepRead
  · exact surely_keep

theorem surely_keepFloat {value : Float} :
    Surely setting fuel answer (reading (setting.map.keepFloat name value)) := by
  unfold NodeMap.keepFloat
  split
  · exact surely_keepRead
  · exact surely_keep

theorem surely_keepStamped {value : α} {put : Option (α × Nat) → Caches → Caches} :
    Surely setting fuel answer (reading (setting.map.keepStamped name value put)) := by
  unfold NodeMap.keepStamped
  split
  · exact surely_then (surely_action fun _ => ⟨_, _, rfl, rfl⟩) fun _ => surely_keepRead
  · exact surely_keep

variable (setting fuel answer) in
def Ends (p : Setter α) : Prop := Settles answer (deed setting fuel) (Ended setting) p

theorem ends_fail (e : GenApiError) : Ends setting fuel answer (.fail e : Setter α) :=
  fun w => (Looked.refl w).ended

theorem ends_reading {p : Getter α}
    (hf : ∀ a, Gives answer (deed setting fuel) (reading p) a → Ends setting fuel answer (f a)) :
    Ends setting fuel answer (reading p >>= f) :=
  Settles.after (R := Looked setting.io) Looked.ended Looked.before (reading_looked p) hf

theorem ends_ofExcept {r : Except GenApiError α}
    (hf : ∀ a, r = .ok a → Ends setting fuel answer (f a)) :
    Ends setting fuel answer (ofExcept r >>= f) := by
  cases r with
  | ok a => exact hf a rfl
  | error e => exact ends_fail e

theorem ends_get {q : Query α} (hf : ∀ a, Ends setting fuel answer (f a)) :
    Ends setting fuel answer (action (.get q) >>= f) := by
  refine Settles.after (R := Looked setting.io) Looked.ended Looked.before (fun w => ?_)
    fun a _ => hf a
  rw [run_action]
  exact get_looked setting fuel q w

theorem ends_then (hp : Ends setting fuel answer p)
    (hf : ∀ a, Surely setting fuel answer (f a)) : Ends setting fuel answer (p >>= f) :=
  Settles.before (S := Quietly) Ended.quietly hp hf

theorem ends_surely (hp : Surely setting fuel answer p) :
    Ends setting fuel answer p := by
  intro w
  obtain ⟨a, w', hrun, hquiet⟩ := hp w
  rw [hrun]
  have hended : Ended setting true w w := (Looked.refl w).ended
  exact hended.quietly hquiet

theorem surely_hold {change : Held → Held} :
    Surely setting fuel answer (action (.hold name change)) :=
  surely_action fun _ => ⟨(), _, rfl, rfl⟩

theorem ends_hold {change : Held → Held} : Ends setting fuel answer (do
    action (.hold name change)
    action (.invalidateDependents name)) :=
  ends_surely (surely_then surely_hold fun _ => surely_invalidate)

/-- The one write of a call. -/
theorem ends_write (hwritable : Writable setting.map name) {address : Nat} {data : List UInt8} :
    Ends setting fuel answer (action (.write name address data)) := by
  intro w
  rw [run_action]
  refine ⟨fun hrefused => ⟨fun hio => hio.2 _ _ _ ?_, rfl, rfl, rfl, rfl, rfl, rfl⟩,
    some (.wrote name address data), List.filter_append .., fun access hmem => ?_⟩
  · revert hrefused
    change (Except.mapError _ _).isOk = false → _
    cases (setting.io.write w.device address data).1 with
    | ok _ => exact id
    | error _ => exact fun _ => rfl
  · rw [← Option.mem_some.mp hmem]
    exact hwritable

/-- A node that passed the check of what may be written now. -/
theorem writable_of {node : Node} {access : AccessMode} {u : Unit}
    (hnode : setting.map.node name = some node) (hown : node.accessMode = some .ro → access = .ro)
    (h : Gives answer (deed setting fuel) (asking (setting.map.ensureWritableNow name access)) u) :
    Writable setting.map name := by
  obtain ⟨w, w', hrun⟩ := h
  unfold NodeMap.ensureWritableNow at hrun
  split at hrun
  · cases hrun
  · rename_i hallowed
    obtain ⟨haccess, himposed⟩ := not_or.mp hallowed
    exact ⟨⟨node, hnode, fun hro => haccess (hown hro)⟩, himposed⟩

variable {addressing : Addressing}

theorem ends_setIntegerRegister (hwritable : Writable setting.map name) {node : IntegerNode}
    {value : Int64} :
    Ends setting fuel answer (setting.map.setIntegerRegister node name value addressing) :=
  ends_reading fun _ _ => ends_reading fun _ _ => ends_then (ends_write hwritable) fun _ =>
    surely_then surely_afterRegisterWrite fun _ => surely_invalidate

theorem ends_setFloatRegister (hwritable : Writable setting.map name) {node : FloatNode}
    {value : Float} :
    Ends setting fuel answer (setting.map.setFloatRegister node name value addressing) :=
  ends_reading fun _ _ => ends_ofExcept fun _ _ => ends_then (ends_write hwritable) fun _ =>
    surely_then surely_keepFloat fun _ => surely_invalidate

theorem ends_setBoolRegister (hwritable : Writable setting.map name) {node : BooleanNode}
    {value : Bool} {bitfield : BitField} :
    Ends setting fuel answer (setting.map.setBoolRegister node name value addressing bitfield) :=
  ends_reading fun _ _ => ends_reading fun _ _ => ends_ofExcept fun _ _ =>
    ends_then (ends_write hwritable) fun _ =>
      surely_then surely_afterRegisterWrite fun _ => surely_invalidate

theorem ends_setEnumRegister (hwritable : Writable setting.map name) {raw : Int64}
    {selfClearing : Bool} :
    Ends setting fuel answer (setting.map.setEnumRegister name raw selfClearing addressing) :=
  ends_reading fun _ _ => ends_ofExcept fun _ _ => ends_then (ends_write hwritable) fun _ =>
    surely_then surely_keep fun _ => surely_then surely_noteEntry fun _ => surely_invalidate

theorem ends_setRegister (data : List UInt8) :
    Ends setting fuel answer (setting.map.setRegister name data) := by
  refine ends_ofExcept fun node hnode => ends_reading fun _ hallowed => ends_reading fun _ _ => ?_
  have hwritable := writable_of (NodeMap.node_of_getRegisterNode hnode) Option.some.inj hallowed
  dsimp only
  split
  · exact ends_fail _
  · exact ends_then (ends_write hwritable) fun _ =>
      surely_then surely_invalidate fun _ => surely_keepStamped

variable (hanswer : answer.Settles (Ended setting))
include hanswer

theorem ends_question (q : Tell α) : Ends setting fuel answer (question q) := by
  intro w
  rw [run_question]
  exact hanswer _ q w

theorem ends_writeConverterRaw {pValue : Text} {raw : Value} :
    Ends setting fuel answer (setting.map.writeConverterRaw pValue raw) := by
  unfold NodeMap.writeConverterRaw
  split
  · exact ends_question hanswer _
  · exact ends_question hanswer _
  · exact ends_ofExcept fun _ _ => ends_question hanswer _
  · exact ends_fail _

theorem ends_setConverter (value : Float) :
    Ends setting fuel answer (setting.map.setConverter name value) :=
  ends_reading fun _ _ => ends_ofExcept fun _ _ => ends_reading fun _ _ =>
    ends_then (ends_writeConverterRaw hanswer) fun _ => surely_invalidate

theorem ends_setIntConverter (value : Int64) :
    Ends setting fuel answer (setting.map.setIntConverter name value) :=
  ends_reading fun _ _ => ends_ofExcept fun _ _ => ends_reading fun _ _ =>
    ends_then (ends_writeConverterRaw hanswer) fun _ => surely_invalidate

theorem ends_setInteger (value : Int64) :
    Ends setting fuel answer (setting.map.setInteger name value) := by
  unfold NodeMap.setInteger
  split
  · exact ends_setIntConverter hanswer value
  · refine ends_ofExcept fun node hnode => ends_reading fun _ hallowed =>
      ends_reading fun _ _ => ?_
    have hwritable := writable_of (NodeMap.node_of_getIntegerNode hnode) Option.some.inj hallowed
    split
    · exact ends_hold
    · exact ends_question hanswer _
    · refine ends_reading fun entry _ => ?_
      split
      · exact ends_question hanswer _
      · exact ends_hold
    · exact ends_fail _
    · exact ends_setIntegerRegister hwritable

theorem ends_setFloat (value : Float) :
    Ends setting fuel answer (setting.map.setFloat name value) := by
  unfold NodeMap.setFloat
  split
  · exact ends_setConverter hanswer value
  · exact ends_ofExcept fun _ _ => ends_setIntConverter hanswer _
  · refine ends_ofExcept fun node hnode => ends_reading fun _ hallowed =>
      ends_reading fun _ _ => ?_
    have hwritable := writable_of (NodeMap.node_of_getFloatNode hnode) Option.some.inj hallowed
    split
    · exact ends_hold
    · exact ends_question hanswer _
    · refine ends_reading fun entry _ => ?_
      split
      · exact ends_question hanswer _
      · exact ends_hold
    · exact ends_fail _
    · exact ends_setFloatRegister hwritable

theorem ends_setBool (value : Bool) :
    Ends setting fuel answer (setting.map.setBool name value) := by
  refine ends_ofExcept fun node hnode => ends_reading fun _ hallowed => ?_
  have hwritable := writable_of (NodeMap.node_of_getBoolNode hnode) Option.some.inj hallowed
  dsimp only
  split
  · exact ends_question hanswer _
  · exact ends_hold
  · exact ends_fail _
  · split
    · exact ends_fail _
    · exact ends_setBoolRegister hwritable

theorem ends_setString (value : Text) :
    Ends setting fuel answer (setting.map.setString name value) := by
  refine ends_ofExcept fun node hnode => ends_reading fun _ hallowed => ?_
  have hwritable := writable_of (NodeMap.node_of_getStringNode hnode) Option.some.inj hallowed
  split
  · exact ends_then (ends_question hanswer _) fun _ => surely_invalidate
  · exact ends_fail _
  · exact ends_hold
  · exact ends_reading fun _ _ => ends_then (ends_write hwritable) fun _ =>
      surely_then surely_invalidate fun _ => surely_keepStamped

theorem ends_setEnum (entry : Text) :
    Ends setting fuel answer (setting.map.setEnum name entry) := by
  refine ends_ofExcept fun node hnode => ends_reading fun _ hallowed => ?_
  have hwritable := writable_of (NodeMap.node_of_getEnumNode hnode) Option.some.inj hallowed
  split
  · exact ends_fail _
  · refine ends_reading fun available _ => ?_
    split
    · refine ends_reading fun raw _ => ?_
      split
      · exact ends_then (ends_question hanswer _) fun _ => surely_then surely_keep fun _ =>
          surely_then surely_noteEntry fun _ => surely_invalidate
      · exact ends_surely (surely_then surely_hold fun _ => surely_then surely_keep fun _ =>
          surely_invalidate)
      · exact ends_fail _
      · exact ends_setEnumRegister hwritable
    · exact ends_fail _

theorem ends_execCommand : Ends setting fuel answer (setting.map.execCommand name) := by
  refine ends_ofExcept fun node hnode => ends_reading fun _ hallowed => ?_
  have hwritable := writable_of (NodeMap.node_of_getCommandNode hnode) nofun hallowed
  split
  · exact ends_reading fun _ _ => ends_reading fun _ _ =>
      ends_then (ends_question hanswer _) fun _ =>
        surely_then surely_noteCommand fun _ => surely_invalidate
  · refine ends_reading fun value _ => ?_
    split
    · exact ends_fail _
    · split
      · exact ends_fail _
      · exact ends_ofExcept fun _ _ => ends_then (ends_write hwritable) fun _ => surely_invalidate

omit hanswer in
theorem surely_invalidateEach (names : List Text) :
    Surely setting fuel answer (NodeMap.invalidateEach names) := by
  induction names with
  | nil => exact fun w => ⟨(), w, rfl, rfl⟩
  | cons name names ih => exact surely_then surely_invalidate fun _ => ih

omit hanswer in
theorem ends_isDone : Ends setting fuel answer (setting.map.isDone name) := by
  have hpure {value : Bool} : Surely setting fuel answer (pure value) :=
    fun w => ⟨value, w, rfl, rfl⟩
  refine ends_ofExcept fun node _ => ?_
  split
  · exact ends_surely hpure
  · split
    · exact ends_surely hpure
    · refine ends_reading fun path _ => ?_
      split
      · exact ends_surely hpure
      · refine ends_reading fun expected _ => ends_reading fun _ _ => ends_get fun current => ?_
        split
        · exact ends_surely (surely_then surely_noteCommand fun _ =>
            surely_then surely_invalidate fun _ =>
              surely_then (surely_invalidateEach path) fun _ => hpure)
        · exact ends_surely hpure

theorem ends_setter (q : Tell α) : Ends setting fuel answer (setting.map.setter α q) := by
  cases q with
  | integer name value => exact ends_setInteger hanswer value
  | float name value => exact ends_setFloat hanswer value
  | boolean name value => exact ends_setBool hanswer value
  | string name value => exact ends_setString hanswer value

end

theorem set_settles (setting : Setting D) (fuel : Nat) :
    (set setting fuel).Settles (Ended setting) :=
  answers_settles (fun w => (Looked.refl w).ended) (fun _ hanswer _ q => ends_setter hanswer q) fuel

/-- Whatever the device does, a call writes at most once, to a node that may be
written; and a call that fails leaves what is held and the record of changes as they
were, and a passive device too. -/
theorem call_ended (setting : Setting D) (fuel : Nat) (call : UserCall) (w : World D) :
    Ended setting (call.run setting fuel w).1.isOk w (call.run setting fuel w).2 := by
  have hanswer := set_settles setting fuel
  cases call with
  | tell value => exact ends_setter hanswer value w
  | converter name value => exact ends_setConverter hanswer value w
  | intConverter name value => exact ends_setIntConverter hanswer value w
  | enumeration name entry => exact ends_setEnum hanswer entry w
  | register name data => exact ends_setRegister data w
  | command name => exact ends_execCommand hanswer w

theorem accesses_invalidateAllOf (names : List Text) (w : World D) :
    (w.invalidateAllOf names).accesses = w.accesses := by
  induction names generalizing w with
  | nil => rfl
  | cons name names ih => exact ih _

theorem apply_writes (setting : Setting D) (fuel : Nat) (call : Call) (w : World D) :
    ∃ write : Option Access, (call.apply setting fuel w).written = w.written ++ write.toList ∧
      ∀ access ∈ write, Writable setting.map access.node := by
  have hanswer := set_settles setting fuel
  have hquiet {w' : World D} (h : Quietly w w') : ∃ write : Option Access,
      w'.written = w.written ++ write.toList ∧
        ∀ access ∈ write, Writable setting.map access.node := by
    have hended : Ended setting true w w := (Looked.refl w).ended
    exact (hended.quietly h).writes
  have hlooked {w' : World D} (h : Looked setting.io w w') : ∃ write : Option Access,
      w'.written = w.written ++ write.toList ∧
        ∀ access ∈ write, Writable setting.map access.node := by
    have hended : Ended setting true w w' := h.ended
    exact hended.writes
  cases call with
  | attachChunks chunks => exact hquiet (World.accesses_invalidatePorts ..)
  | detachChunks => exact hquiet (World.accesses_invalidatePorts ..)
  | attachEvent eventId bytes => exact hquiet (World.accesses_invalidatePorts ..)
  | detachEvents => exact hquiet (World.accesses_invalidatePorts ..)
  | get α q => exact hlooked (get_looked setting fuel q w)
  | getConverter name => exact hlooked (reading_looked _ w)
  | getIntConverter name => exact hlooked (reading_looked _ w)
  | set tell => exact (hanswer _ tell w).writes
  | setConverter name value => exact (ends_setConverter hanswer value w).writes
  | setIntConverter name value => exact (ends_setIntConverter hanswer value w).writes
  | setEnum name entry => exact (ends_setEnum hanswer entry w).writes
  | setRegister name data => exact (ends_setRegister data w).writes
  | execCommand name => exact (ends_execCommand hanswer w).writes
  | isDone name => exact (ends_isDone w).writes
  | invalidate name => exact hquiet ((accesses_invalidateDependents ..).trans
      (accesses_invalidateAllOf ..))
  | invalidateAll => exact hquiet rfl

/-- The world that some calls lead to, each with fuel of its own. -/
def afterCalls (setting : Setting D) (calls : List (Nat × Call)) (w : World D) : World D :=
  calls.foldl (fun w call => call.2.apply setting call.1 w) w

/-- In a run of any calls the device is written at most once for each of them, and
only on behalf of nodes that may be written. -/
theorem afterCalls_writes (setting : Setting D) (calls : List (Nat × Call)) (w : World D) :
    ∃ writes : List Access, writes.length ≤ calls.length ∧
      (afterCalls setting calls w).written = w.written ++ writes ∧
      ∀ access ∈ writes, Writable setting.map access.node := by
  induction calls generalizing w with
  | nil => exact ⟨[], le_rfl, (List.append_nil _).symm, nofun⟩
  | cons call calls ih =>
    obtain ⟨write, hwrite, hone⟩ := apply_writes setting call.1 call.2 w
    obtain ⟨writes, hlength, hwritten, hall⟩ := ih (call.2.apply setting call.1 w)
    refine ⟨write.toList ++ writes, ?_, ?_, ?_⟩
    · have hle : write.toList.length ≤ 1 := by cases write <;> simp
      rw [List.length_append, List.length_cons]
      omega
    · rw [afterCalls, List.foldl_cons, ← List.append_assoc, ← hwrite]
      exact hwritten
    · intro access hmem
      rcases List.mem_append.mp hmem with hmem | hmem
      · exact hone access (Option.mem_toList.mp hmem)
      · exact hall access hmem

end VivaGenicam.Genapi
