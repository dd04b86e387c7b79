import VivaGenicam.Genapi.PortWrites

/-!
Runs of a node map: gets, sets and commands between attaching and detaching data.
In every run a register on a chunk or event port reads the data attached last, and
attaching or detaching drops everything kept that depends on the port.
-/

namespace VivaGenicam.Genapi

open GenapiXml Library.Programs

def PortKind.isChunk : PortKind → Bool
  | .chunk _ => true
  | _ => false

def PortKind.isEvent : PortKind → Bool
  | .event _ => true
  | _ => false

namespace World

variable {D : Type}

/-- Whatever depends on a port of such a kind is stale. -/
def invalidatePorts (map : NodeMap) (which : PortKind → Bool) (w : World D) : World D :=
  ((map.ports.filter fun port => which port.2).foldl
    (fun w port => w.invalidateDependents map port.1) w).bumpGeneration

/-- One buffer's chunks, in place of all those before. -/
def attachChunks (map : NodeMap) (chunks : List (Nat × List UInt8)) (w : World D) : World D :=
  { w with chunks }.invalidatePorts map PortKind.isChunk

def detachChunks (map : NodeMap) (w : World D) : World D :=
  { w with chunks := [] }.invalidatePorts map PortKind.isChunk

/-- One event's bytes, in place of those with its id. -/
def attachEvent (map : NodeMap) (eventId : Nat) (bytes : List UInt8) (w : World D) : World D :=
  { w with events := Function.update w.events eventId (some bytes) }.invalidatePorts map
    fun kind => kind = PortKind.event eventId

def detachEvents (map : NodeMap) (w : World D) : World D :=
  { w with events := fun _ => none }.invalidatePorts map PortKind.isEvent

/-- `name`'s value is read anew, and what depends on it. -/
def invalidate (map : NodeMap) (name : Text) (w : World D) : World D :=
  (w.bumpGeneration.invalidateAllOf (map.valueReach name)).invalidateDependents map name

def invalidateAll (w : World D) : World D :=
  let w := { w with caches := fun _ => {} }.bumpGeneration
  { w with allChanged := w.generation }

theorem caches_invalidateAllOf (names : List Text) (w : World D) (name : Text) :
    (w.invalidateAllOf names).caches name = if name ∈ names then {} else w.caches name := by
  induction names generalizing w with
  | nil => rfl
  | cons other names ih =>
    change (World.invalidateAllOf ((w.invalidateCache other).noteChanged other) names).caches name = _
    rw [ih]
    by_cases hmem : name ∈ names
    · rw [if_pos hmem, if_pos (List.mem_cons_of_mem other hmem)]
    · rw [if_neg hmem]
      by_cases heq : name = other
      · subst heq
        rw [if_pos List.mem_cons_self]
        exact Function.update_self ..
      · rw [if_neg (by simp [heq, hmem])]
        exact Function.update_of_ne heq ..

variable (map : NodeMap)

theorem caches_invalidateDependents (w : World D) (port name : Text) :
    (w.invalidateDependents map port).caches name =
      if name ∈ map.touchedBy port then {} else w.caches name :=
  caches_invalidateAllOf ..

theorem caches_invalidatePorts (which : PortKind → Bool) (w : World D) (name : Text) :
    (w.invalidatePorts map which).caches name =
      if ∃ port ∈ map.ports, which port.2 ∧ name ∈ map.touchedBy port.1 then {}
      else w.caches name := by
  have hfold : ∀ (ports : List (Text × PortKind)) (w : World D),
      (ports.foldl (fun w port => w.invalidateDependents map port.1) w).caches name =
        if ∃ port ∈ ports, name ∈ map.touchedBy port.1 then {} else w.caches name := by
    intro ports
    induction ports with
    | nil => simp
    | cons port ports ih =>
      intro w
      rw [List.foldl_cons, ih, caches_invalidateDependents]
      by_cases hrest : ∃ port ∈ ports, name ∈ map.touchedBy port.1
      · obtain ⟨other, hother, htouched⟩ := hrest
        rw [if_pos ⟨other, hother, htouched⟩,
          if_pos ⟨other, List.mem_cons_of_mem _ hother, htouched⟩]
      · rw [if_neg hrest]
        simp only [List.exists_mem_cons_iff, hrest, or_false]
  rw [invalidatePorts]
  refine (hfold ..).trans ?_
  simp only [List.mem_filter, and_assoc]

theorem attached_invalidatePorts (which : PortKind → Bool) (w : World D)
    (kind : PortKind) : (w.invalidatePorts map which).attached kind = w.attached kind := by
  have hall : ∀ (names : List Text) (w : World D),
      (w.invalidateAllOf names).attached kind = w.attached kind := by
    intro names
    induction names with
    | nil => exact fun _ => rfl
    | cons name names ih => exact fun w => (ih _).trans (by cases kind <;> rfl)
  have hfold : ∀ (ports : List (Text × PortKind)) (w : World D),
      (ports.foldl (fun w port => w.invalidateDependents map port.1) w).attached kind =
        w.attached kind := by
    intro ports
    induction ports with
    | nil => exact fun _ => rfl
    | cons port ports ih =>
      exact fun w => (ih _).trans ((hall ..).trans (by cases kind <;> rfl))
  refine Eq.trans ?_ (hfold (map.ports.filter fun port => which port.2) w)
  cases kind <;> rfl

theorem accesses_invalidatePorts (which : PortKind → Bool) (w : World D) :
    (w.invalidatePorts map which).accesses = w.accesses := by
  have hall : ∀ (names : List Text) (w : World D),
      (w.invalidateAllOf names).accesses = w.accesses := by
    intro names
    induction names with
    | nil => exact fun _ => rfl
    | cons name names ih => exact fun w => ih _
  have hfold : ∀ (ports : List (Text × PortKind)) (w : World D),
      (ports.foldl (fun w port => w.invalidateDependents map port.1) w).accesses = w.accesses := by
    intro ports
    induction ports with
    | nil => exact fun _ => rfl
    | cons port ports ih => exact fun w => (ih _).trans (hall ..)
  exact hfold ..

end World

inductive Call where
  | attachChunks (chunks : List (Nat × List UInt8))
  | detachChunks
  | attachEvent (eventId : Nat) (bytes : List UInt8)
  | detachEvents
  | get (α : Type) (q : Query α)
  | getConverter (name : Text)
  | getIntConverter (name : Text)
  | set (tell : Tell Unit)
  | setConverter (name : Text) (value : Float)
  | setIntConverter (name : Text) (value : Int64)
  | setEnum (name entry : Text)
  | setRegister (name : Text) (bytes : List UInt8)
  | execCommand (name : Text)
  | isDone (name : Text)
  | invalidate (name : Text)
  | invalidateAll

/-- Whether the call attaches or detaches the data of such a port. -/
def Call.concerns : Call → PortKind → Bool
  | .attachChunks _ | .detachChunks => PortKind.isChunk
  | .attachEvent eventId _ => fun kind => kind = .event eventId
  | .detachEvents => PortKind.isEvent
  | _ => fun _ => false

variable {D : Type}

/-- A setter's own call; what it leaves to others is done to a depth. -/
def perform {α : Type} (setting : Setting D) (fuel : Nat) (p : Setter α) (w : World D) : World D :=
  (run (set setting fuel) (deed setting fuel) p w).2

def Call.apply (setting : Setting D) (fuel : Nat) (w : World D) : Call → World D
  | .attachChunks chunks => w.attachChunks setting.map chunks
  | .detachChunks => w.detachChunks setting.map
  | .attachEvent eventId bytes => w.attachEvent setting.map eventId bytes
  | .detachEvents => w.detachEvents setting.map
  | .get _ q => (Genapi.get setting fuel _ q w).2
  | .getConverter name => perform setting fuel (reading (setting.map.getConverter name)) w
  | .getIntConverter name => perform setting fuel (reading (setting.map.getIntConverter name)) w
  | .set tell => (Genapi.set setting fuel _ tell w).2
  | .setConverter name value => perform setting fuel (setting.map.setConverter name value) w
  | .setIntConverter name value => perform setting fuel (setting.map.setIntConverter name value) w
  | .setEnum name entry => perform setting fuel (setting.map.setEnum name entry) w
  | .setRegister name bytes => perform setting fuel (setting.map.setRegister name bytes) w
  | .execCommand name => perform setting fuel (setting.map.execCommand name) w
  | .isDone name => perform setting fuel (setting.map.isDone name) w
  | .invalidate name => w.invalidate setting.map name
  | .invalidateAll => w.invalidateAll

/-- A world that some calls lead to, on a node map as it was built; each call has
fuel of its own. -/
def Reachable (setting : Setting D) (w : World D) : Prop :=
  ∃ (device : D) (calls : List (Nat × Call)),
    w = calls.foldl (fun w call => call.2.apply setting call.1 w) { device }

/-- The states that calls on a node map lead to, the ones inside a call among them. -/
inductive Passed (setting : Setting D) : World D → Prop
  | start (device : D) : Passed setting { device }
  | did {w : World D} (fuel : Nat) {α : Type} (o : Deed α) (before : Passed setting w) :
      Passed setting (deed setting fuel α o w).2
  | attached {w : World D} (chunks : List (Nat × List UInt8))
      (events : Nat → Option (List UInt8)) (which : PortKind → Bool) (before : Passed setting w) :
      Passed setting ({ w with chunks, events }.invalidatePorts setting.map which)
  | invalidated {w : World D} (name : Text) (before : Passed setting w) :
      Passed setting (w.invalidate setting.map name)
  | invalidatedAll {w : World D} (before : Passed setting w) : Passed setting w.invalidateAll

def history (setting : Setting D) : History setting := ⟨Passed setting, fun fuel _ o h => h.did fuel o⟩

variable {setting : Setting D} {w : World D}

theorem Passed.perform {α : Type} (h : Passed setting w)
    (fuel : Nat) (p : Setter α) : Passed setting (perform setting fuel p w) := by
  have hdeed : (deed setting fuel).Moves fun w w' => Passed setting w → Passed setting w' :=
    fun α o w h => h.did fuel o
  exact run_moves (R := fun w w' => Passed setting w → Passed setting w') (fun _ h => h)
    (fun h h' hw => h' (h hw)) (answers_moves (R := fun w w' => Passed setting w → Passed setting w')
      (fun _ h => h) (fun h h' hw => h' (h hw)) hdeed fuel) hdeed p w h

theorem perform_attested {α : Type} {data : PortKind → Option (List UInt8)}
    {fuel : Nat} {p : Setter α} {post : α → Prop}
    (hp : SoundSet (history setting) data fuel (set setting fuel) p post)
    (hw : (portSource (history setting) data).Inv w) :
    (portSource (history setting) data).Inv (perform setting fuel p w) :=
  (hp w hw).1

/-- The data attached now is the source of what the node map keeps. -/
def Current (setting : Setting D) (w : World D) : Prop :=
  (portSource (history setting) w.attached).Inv w

/-- New data for some kinds of ports: what depends on them is dropped, and the rest
still comes from its port's data. -/
theorem current_invalidatePorts {which : PortKind → Bool}
    (hw : Current setting w) (chunks : List (Nat × List UInt8)) (events : Nat → Option (List UInt8))
    (hsame : ∀ kind, which kind = false → { w with chunks, events }.attached kind = w.attached kind) :
    Current setting ({ w with chunks, events }.invalidatePorts setting.map which) := by
  refine ⟨⟨⟨fun _ => rfl, ?_⟩, ?_⟩, hw.2.attached chunks events which⟩
  · rw [World.accesses_invalidatePorts]
    exact hw.1.stands.2
  · rintro name node ⟨port, kind, hon⟩
    rw [World.caches_invalidatePorts]
    split
    · exact Genuine.empty ..
    · rename_i hnone
      have hkind : which kind = false := by
        rw [Bool.eq_false_iff]
        intro hwhich
        apply hnone
        obtain ⟨before, after, hports, -⟩ := List.lookup_eq_some_iff.mp hon.reached
        obtain ⟨addressing, haddressing⟩ := hon.addressing_eq
        exact ⟨(port, kind), by rw [hports]; simp, hwhich, NodeMap.touched_of_route hon.declared
          haddressing (hon.port_eq hon.declared haddressing) hon.reached hon.attachable⟩
      apply (hw.1.caches name node ⟨port, kind, hon⟩).mono
      intro raw hraw other port' kind' hother
      obtain ⟨rfl, rfl, rfl⟩ := hon.unique hother
      obtain ⟨bytes, offset, len, hdata, hplace, hslice⟩ := hraw node port kind hon
      refine ⟨bytes, offset, len, ?_, hplace, hslice⟩
      rw [World.attached_invalidatePorts, hsame kind hkind]
      exact hdata

theorem current_apply (hw : Current setting w) (fuel : Nat)
    (call : Call) : Current setting (call.apply setting fuel w) := by
  have hkept : ∀ {w' : World D}, (portSource (history setting) w.attached).Inv w' →
      Current setting w' := by
    intro w' h
    unfold Current
    rwa [funext h.1.stands.1]
  cases call with
  | attachChunks chunks =>
    exact current_invalidatePorts hw chunks w.events fun kind hkind => by
      cases kind <;> first | rfl | cases hkind
  | detachChunks =>
    exact current_invalidatePorts hw [] w.events fun kind hkind => by
      cases kind <;> first | rfl | cases hkind
  | attachEvent eventId bytes =>
    refine current_invalidatePorts hw w.chunks _ fun kind hkind => ?_
    cases kind with
    | device => rfl
    | chunk id => rfl
    | event id =>
      have hne : id ≠ eventId := by
        rintro rfl
        simp at hkind
      exact Function.update_of_ne hne ..
  | detachEvents =>
    exact current_invalidatePorts hw w.chunks _ fun kind hkind => by
      cases kind <;> first | rfl | cases hkind
  | get α q => exact hkept (get_keeps _ _ fuel α q w hw)
  | getConverter name =>
    exact hkept (perform_attested (soundSet_reading (sound_getConverter (get_answers _ _ fuel) name)) hw)
  | getIntConverter name =>
    exact hkept (perform_attested (soundSet_reading (sound_getIntConverter (get_answers _ _ fuel) name)) hw)
  | set tell => exact hkept (set_keeps _ _ fuel Unit tell w hw)
  | setConverter name value =>
    exact hkept (perform_attested (soundSet_setConverter (set_keeps _ _ fuel) name value) hw)
  | setIntConverter name value =>
    exact hkept (perform_attested (soundSet_setIntConverter (set_keeps _ _ fuel) name value) hw)
  | setEnum name entry =>
    exact hkept (perform_attested (soundSet_setEnum (set_keeps _ _ fuel) name entry) hw)
  | setRegister name bytes => exact hkept (perform_attested (soundSet_setRegister name bytes) hw)
  | execCommand name =>
    exact hkept (perform_attested (soundSet_execCommand (set_keeps _ _ fuel) name) hw)
  | isDone name => exact hkept (perform_attested (soundSet_isDone name) hw)
  | invalidate name =>
    refine hkept ⟨?_, hw.2.invalidated name⟩
    apply Source.Attested.invalidateDependents
    apply Source.Attested.invalidateAllOf
    exact hw.1.aside rfl rfl rfl rfl rfl
  | invalidateAll =>
    exact ⟨⟨⟨fun _ => rfl, hw.1.stands.2⟩, fun _ _ _ => Genuine.empty ..⟩, hw.2.invalidatedAll⟩

theorem current_of_reachable (h : Reachable setting w) :
    Current setting w := by
  obtain ⟨device, calls, rfl⟩ := h
  have hstep : ∀ (calls : List (Nat × Call)) (w : World D), Current setting w →
      Current setting (calls.foldl (fun w call => call.2.apply setting call.1 w) w) := by
    intro calls
    induction calls with
    | nil => exact fun _ hw => hw
    | cons call calls ih => exact fun w hw => ih _ (current_apply hw call.1 call.2)
  exact hstep calls _
    ⟨⟨⟨fun _ => rfl, nofun⟩, fun _ _ _ => Genuine.empty ..⟩, .start device⟩

theorem caches_of_concerns {setting : Setting D} {w : World D} {fuel : Nat} {call : Call}
    {port : Text} {kind : PortKind} (hport : (port, kind) ∈ setting.map.ports)
    (hconcerns : call.concerns kind) {name : Text}
    (hdepends : Relation.TransGen (fun a b => (a, b) ∈ setting.map.dependents) port name) :
    (call.apply setting fuel w).caches name = {} := by
  have hdropped : ∀ (which : PortKind → Bool) (w : World D), which kind →
      (w.invalidatePorts setting.map which).caches name = {} := by
    intro which w hwhich
    rw [World.caches_invalidatePorts, if_pos]
    exact ⟨(port, kind), hport, hwhich, NodeMap.mem_touchedBy.mpr hdepends⟩
  cases call with
  | attachChunks chunks => exact hdropped _ _ hconcerns
  | detachChunks => exact hdropped _ _ hconcerns
  | attachEvent eventId bytes => exact hdropped _ _ hconcerns
  | detachEvents => exact hdropped _ _ hconcerns
  | _ => cases hconcerns

/-- What is attached after a call that attaches or detaches: the chunks all at once,
the events each under its id. -/
theorem attached_apply (setting : Setting D) (w : World D) (fuel : Nat) (id : Nat) :
    (∀ chunks, ((Call.attachChunks chunks).apply setting fuel w).attached (.chunk id) =
      chunks.lookup id) ∧
    (Call.detachChunks.apply setting fuel w).attached (.chunk id) = none ∧
    (∀ eventId bytes, ((Call.attachEvent eventId bytes).apply setting fuel w).attached (.event id) =
      if id = eventId then some bytes else w.attached (.event id)) ∧
    (Call.detachEvents.apply setting fuel w).attached (.event id) = none := by
  refine ⟨fun chunks => ?_, ?_, fun eventId bytes => ?_, ?_⟩
  · exact World.attached_invalidatePorts ..
  · exact World.attached_invalidatePorts ..
  · rw [Call.apply, World.attachEvent, World.attached_invalidatePorts]
    exact Function.update_apply ..
  · exact World.attached_invalidatePorts ..

end VivaGenicam.Genapi
