import VivaGenicam.Genapi.SourceReads

/-!
Chunk and event ports: a register on one reads the data attached now and nothing else, at
the address and length that its node was resolved to.
-/

namespace VivaGenicam.Genapi

open GenapiXml Library.Programs

open Prog (question action fail ofExcept)

def PortKind.countsFromEnd : PortKind → Bool
  | .chunk _ => true
  | .device | .event _ => false

/-- `name` has a register on a port that holds data. -/
structure OnPort (map : NodeMap) (name : Text) (node : Node) (port : Text) (kind : PortKind) :
    Prop where
  declared : map.node name = some node
  registered : node.addressing.bind (·.port) = some port
  reached : map.ports.lookup port = some kind
  attachable : kind.holdsData

/-- No register on a port is called `name`. -/
def OffPorts (map : NodeMap) (name : Text) : Prop :=
  ∀ node port kind, ¬OnPort map name node port kind

variable {map : NodeMap} {name port : Text} {node other : Node} {kind : PortKind}

theorem OnPort.node_eq
    (h : OnPort map name node port kind) (hother : map.node name = some other) : other = node :=
  Option.some.inj (hother.symm.trans h.declared)

theorem OnPort.port_eq {addressing : Addressing} (h : OnPort map name node port kind)
    (hother : map.node name = some other) (haddressing : other.addressing = some addressing) :
    addressing.port = some port := by
  obtain rfl := h.node_eq hother
  simpa [haddressing] using h.registered

theorem OnPort.unique {port' : Text} {kind' : PortKind} (h : OnPort map name node port kind)
    (h' : OnPort map name other port' kind') : node = other ∧ port = port' ∧ kind = kind' := by
  obtain rfl := h.node_eq h'.declared
  obtain rfl := Option.some.inj (h.registered.symm.trans h'.registered)
  exact ⟨rfl, rfl, Option.some.inj (h.reached.symm.trans h'.reached)⟩

theorem OnPort.addressing_eq
    (h : OnPort map name node port kind) : ∃ addressing, node.addressing = some addressing := by
  cases haddressing : node.addressing with
  | none =>
    have hregistered := h.registered
    rw [haddressing] at hregistered
    cases hregistered
  | some addressing => exact ⟨addressing, rfl⟩

variable {D : Type}

/-- The states that a run passes through; its steps do not lead out of them. -/
structure History (setting : Setting D) where
  Seen : World D → Prop
  did : ∀ {w : World D} (fuel : Nat) {α : Type} (o : Deed α), Seen w →
    Seen (deed setting fuel α o w).2

section

variable {setting : Setting D} (past : History setting)

/-- In some state of the run the node's terms and its length came to this place. -/
def Resolved (name : Text) (offset : Int64) (len : Nat) : Prop :=
  ∃ (node : Node) (addressing : Addressing) (fuel : Nat) (w w' : World D) (address : Nat),
    setting.map.node name = some node ∧ node.addressing = some addressing ∧ past.Seen w ∧
      run (get setting fuel) (look setting) (NodeMap.resolveAddress name addressing).among w =
        (.ok (address, len), w') ∧ offset = .ofNat address

/-- The slice of the data attached to the port at a place that the node was resolved to. -/
def FromData (data : PortKind → Option (List UInt8)) (name port : Text) (kind : PortKind)
    (raw : List UInt8) : Prop :=
  ∃ bytes offset len, data kind = some bytes ∧ Resolved past name offset len ∧
    slicePortData name port bytes offset len kind.countsFromEnd = .ok raw

/-- The device is no place for a register on a port; the port's data is. -/
def LocatedIn (data : PortKind → Option (List UInt8)) (name : Text) : Location → Prop
  | .device _ _ => OffPorts setting.map name
  | .data port bytes offset len fromEnd => ∀ node port' kind,
    OnPort setting.map name node port' kind →
      port = port' ∧ data kind = some bytes ∧ Resolved past name offset len ∧
        fromEnd = kind.countsFromEnd

/-- The attached data, while no register on a port has been looked for on the device. -/
def portSource (data : PortKind → Option (List UInt8)) : Source setting where
  Has name node := ∃ port kind, OnPort setting.map name node port kind
  Holds name raw := ∀ node port kind, OnPort setting.map name node port kind →
    FromData past data name port kind raw
  At := LocatedIn past data
  Stands w := (∀ kind, w.attached kind = data kind) ∧
    ∀ access ∈ w.accesses, OffPorts setting.map access.node
  Seen := past.Seen
  declared := fun ⟨_, _, hon⟩ => hon.declared
  registered := fun ⟨_, _, hon⟩ => hon.addressing_eq
  aside := by
    rintro w w' ⟨hattached, haccesses⟩ - hchunks hevents hlog
    refine ⟨fun kind => ?_, hlog ▸ haccesses⟩
    have hsame : w'.attached kind = w.attached kind := by
      cases kind <;> simp [World.attached, hchunks, hevents]
    exact hsame.trans (hattached kind)
  did := past.did
  read := by
    rintro w name address len ⟨hattached, haccesses⟩ hoff
    refine ⟨⟨hattached, fun access haccess => ?_⟩, ?_⟩
    · rcases List.mem_append.mp haccess with hold | hnew
      · exact haccesses access hold
      · obtain rfl := List.mem_singleton.mp hnew
        exact hoff
    · rintro raw - node ⟨port, kind, hon⟩
      exact absurd hon (hoff node port kind)
  slice := by
    rintro name port bytes offset len fromEnd raw hlocated hraw - - node port' kind hon
    obtain ⟨rfl, hbytes, hresolved, rfl⟩ := hlocated node port' kind hon
    exact ⟨bytes, offset, len, hbytes, hresolved, hraw⟩

end

section

variable {setting : Setting D} {past : History setting} {data : PortKind → Option (List UInt8)}

theorem sound_attached {answer : Handler Query GenApiError (World D)} (kind : PortKind) :
    Sound (portSource past data) answer (action (.attached kind)) fun bytes => bytes = data kind := by
  apply Assures.action
  intro w hw
  refine ⟨hw, fun bytes hbytes => ?_⟩
  cases hbytes
  exact hw.1.stands.1 kind

/-- A register is found on its port's data, or on the device if it is on no port. -/
theorem portSource_locates : (portSource past data).Locates := by
  intro fuel hattesting
  refine ⟨hattesting.keeps, fun {name node addressing} hnode haddressing => ?_⟩
  have hanswer := hattesting.keeps
  have hport (other : Node) (port : Text) (kind : PortKind)
      (hon : OnPort setting.map name other port kind) : addressing.port = some port :=
    hon.port_eq hnode haddressing
  have hresolve : Sound (portSource past data) (get setting fuel)
      (NodeMap.resolveAddress name addressing).among fun place =>
        Resolved past name (.ofNat place.1) place.2 := by
    intro w hw
    refine ⟨(Assures.among hanswer _ w hw).1, fun place hplace => ?_⟩
    exact ⟨node, addressing, fuel, w, _, place.1, hnode, haddressing, hw.2, Prod.ext hplace rfl, rfl⟩
  have hdata (port : Text) (kind : PortKind) (hkind : setting.map.ports.lookup port = some kind)
      (hregistered : addressing.port = some port) : Sound (portSource past data) (get setting fuel)
        (NodeMap.locateData name addressing port kind kind.countsFromEnd)
        (LocatedIn past data name) := by
    apply Assures.bind (sound_attached kind)
    intro attached hattached
    split
    · exact Assures.fail _
    · rename_i bytes
      apply Assures.bind hresolve
      intro place hplace
      apply Assures.done
      intro other port' kind' hon
      have hport' := hport other port' kind' hon
      rw [hregistered] at hport'
      cases hport'
      have hkind' := hon.reached
      rw [hkind] at hkind'
      cases hkind'
      exact ⟨rfl, hattached.symm, hplace, rfl⟩
  apply Assures.bind (Assures.ofExcept fun route hroute => hroute)
  intro route hroute
  have hdevice (hoff : OffPorts setting.map name) : Sound (portSource past data) (get setting fuel)
      ((NodeMap.resolveDeviceAddress name addressing).among >>= fun place =>
        pure (.device place.1 place.2)) (LocatedIn past data name) := by
    apply Assures.bind (Assures.among hanswer _)
    exact fun place _ => Assures.done hoff
  unfold NodeMap.route at hroute
  split at hroute
  · rename_i hnone
    cases hroute
    apply hdevice
    intro other port kind hon
    rw [hport other port kind hon] at hnone
    cases hnone
  · rename_i port hsome
    have hreached (other : Node) (port' : Text) (kind : PortKind)
        (hon : OnPort setting.map name other port' kind) :
        setting.map.ports.lookup port = some kind := by
      have hport' := hport other port' kind hon
      rw [hsome] at hport'
      cases hport'
      exact hon.reached
    split at hroute
    · rename_i hdeclared
      cases hroute
      apply hdevice
      intro other port' kind hon
      have hkind := hreached other port' kind hon
      rw [hdeclared] at hkind
      cases hkind
      exact absurd hon.attachable (by simp [PortKind.holdsData])
    · rename_i chunkId hchunk
      cases hroute
      exact hdata port _ hchunk hsome
    · rename_i eventId hevent
      cases hroute
      exact hdata port _ hevent hsome
    · rename_i hundeclared
      split at hroute
      · cases hroute
        apply hdevice
        intro other port' kind hon
        have hkind := hreached other port' kind hon
        rw [hundeclared] at hkind
        cases hkind
      · cases hroute

theorem get_answers (past : History setting) (data : PortKind → Option (List UInt8)) (fuel : Nat) :
    (portSource past data).Answers (get setting fuel) :=
  portSource_locates fuel (Source.attesting portSource_locates fuel)

theorem get_keeps (past : History setting) (data : PortKind → Option (List UInt8)) (fuel : Nat) :
    (get setting fuel).Keeps (portSource past data).Inv :=
  (get_answers past data fuel).keeps

theorem get_attests {w w' : World D} (hw : (portSource past data).Inv w) {fuel : Nat} {α : Type}
    {q : Query α} {value : α} (h : get setting fuel _ q w = (.ok value, w'))
    (hname : q.subject = some name) : (portSource past data).Attests name q value :=
  (Source.attesting portSource_locates fuel).attests q name hname w hw value (congrArg Prod.fst h)

end

end VivaGenicam.Genapi
