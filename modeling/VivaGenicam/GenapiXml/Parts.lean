import VivaGenicam.GenapiXml.Registered

/-!
The parts of a node that the base elements of a register set one by one. The
parser of a masked register, that of a structure and that of its entries each
keep them in a state of their own; element by element they do the same to a part.
-/

namespace VivaGenicam.GenapiXml

open Library.FoldM

/-- The base elements of a register that say nothing of its addressing. -/
def Element.isBase (e : Element) : Bool :=
  match e.tag with
  | .accessMode | .imposedAccessMode | .cachable | .cacheable | .pollingTime | .pInvalidator
  | .endianness | .endianess | .sign | .visibility | .tooltip | .description | .displayName
  | .streamable | .pIsImplemented | .pIsAvailable | .pIsLocked | .pSelected | .unit
  | .representation => true
  | _ => false

def Element.isPredicate (e : Element) : Bool :=
  match e.tag with
  | .pIsImplemented | .pIsAvailable | .pIsLocked => true
  | _ => false

def Element.invalidator (e : Element) : Option Text :=
  if e.tag = .pInvalidator then e.content.bind nonBlank else none

theorem filterMap_invalidator (e : Element) :
    [e].filterMap Element.invalidator = e.invalidator.toList := by
  cases h : e.invalidator <;> simp [h]

inductive Part where
  | access
  | sign
  | byteOrder
  | visibility
  | description
  | tooltip
  | displayName
  | representation
  | imposedAccess
  | streamable
  | cachable
  | pollingTime
deriving DecidableEq, Repr

variable {e : Element}

namespace Part

abbrev Value : Part → Type
  | .access => AccessMode
  | .sign => Sign
  | .byteOrder => ByteOrder
  | .visibility => Option Visibility
  | .description | .tooltip | .displayName => Option Text
  | .representation => Option Representation
  | .imposedAccess => Option AccessMode
  | .streamable => Bool
  | .cachable => Option CachingMode
  | .pollingTime => Option Nat

def has : Part → Tag → Bool
  | .access, .accessMode | .sign, .sign | .byteOrder, .endianness | .byteOrder, .endianess
  | .visibility, .visibility | .description, .description | .tooltip, .tooltip
  | .displayName, .displayName | .representation, .representation
  | .imposedAccess, .imposedAccessMode | .streamable, .streamable | .cachable, .cachable
  | .cachable, .cacheable | .pollingTime, .pollingTime => true
  | _, _ => false

/-- A part after the text of one of its elements. -/
def set : (part : Part) → Text → part.Value → part.Value
  | .access, text, _ => AccessMode.parse text
  | .sign, text, old => (Sign.parse text).getD old
  | .byteOrder, text, old => (ByteOrder.parse text).getD old
  | .visibility, text, _ => Visibility.parse text
  | .description, text, old | .tooltip, text, old | .displayName, text, old => reference text old
  | .representation, text, _ => Representation.parse text
  | .imposedAccess, text, _ => some (AccessMode.parse text)
  | .streamable, text, _ => trim text = lit "Yes"
  | .cachable, text, _ => some (CachingMode.parse text)
  | .pollingTime, text, _ => parsePollingTime text

def read (part : Part) (value : part.Value) (e : Element) : part.Value :=
  match e.content with
  | some text => if part.has e.tag then part.set text value else value
  | none => value

theorem read_of_not_has {part : Part} (h : part.has e.tag = false)
    (value : part.Value) : part.read value e = value := by
  unfold read
  split
  · rw [if_neg (by simp [h])]
  · rfl

end Part

def IntegerState.part (s : IntegerState) : (part : Part) → part.Value
  | .access => s.access
  | .sign => s.sign
  | .byteOrder => s.byteOrder.getD .little
  | .visibility => s.nodeMeta.visibility
  | .description => s.nodeMeta.description
  | .tooltip => s.nodeMeta.tooltip
  | .displayName => s.nodeMeta.displayName
  | .representation => s.nodeMeta.representation
  | .imposedAccess => s.nodeMeta.imposedAccess
  | .streamable => s.nodeMeta.streamable
  | .cachable => s.nodeMeta.cachable
  | .pollingTime => s.nodeMeta.pollingTimeMs

/-- What base elements leave of an integer register's parser. -/
structure IntegerState.After (elements : List Element) (s s' : IntegerState) : Prop where
  addressing : s'.addressing = s.addressing
  noField : s'.NoField
  part : ∀ part : Part, s'.part part = elements.foldl part.read (s.part part)
  invalidators : s'.invalidators = s.invalidators ++ elements.filterMap Element.invalidator
  ownValue : s'.ownValue = s.ownValue
  predicates : (∀ e ∈ elements, e.isPredicate = false) → s'.predicates = s.predicates
  selected : (∀ e ∈ elements, e.tag ≠ .pSelected) → s'.selected = s.selected
  unit : (∀ e ∈ elements, e.tag ≠ .unit) → s'.unit = s.unit
  byteOrder : s.byteOrder.isSome ∨ (∃ e ∈ elements, Part.byteOrder.has e.tag = true ∧
    (e.content.bind ByteOrder.parse).isSome) → s'.byteOrder.isSome

namespace IntegerState

variable {s : IntegerState}

theorem After.refl (hs : s.NoField) : After [] s s where
  addressing := rfl
  noField := hs
  part _ := rfl
  invalidators := by simp
  ownValue := rfl
  predicates _ := rfl
  selected _ := rfl
  unit _ := rfl
  byteOrder := by simp

theorem After.trans {first second : List Element} {mid s' : IntegerState}
    (h : After first s mid) (h' : After second mid s') : After (first ++ second) s s' where
  addressing := h'.addressing.trans h.addressing
  noField := h'.noField
  part part := by rw [h'.part, h.part, List.foldl_append]
  invalidators := by
    rw [h'.invalidators, h.invalidators, List.filterMap_append, List.append_assoc]
  ownValue := h'.ownValue.trans h.ownValue
  predicates hnone := by
    rw [h'.predicates fun e he => hnone e (by simp [he]),
      h.predicates fun e he => hnone e (by simp [he])]
  selected hnone := by
    rw [h'.selected fun e he => hnone e (by simp [he]),
      h.selected fun e he => hnone e (by simp [he])]
  unit hnone := by
    rw [h'.unit fun e he => hnone e (by simp [he]), h.unit fun e he => hnone e (by simp [he])]
  byteOrder := by
    rintro (hs | ⟨e, he, hread⟩)
    · exact h'.byteOrder (.inl (h.byteOrder (.inl hs)))
    · rcases List.mem_append.mp he with he | he
      · exact h'.byteOrder (.inl (h.byteOrder (.inr ⟨e, he, hread⟩)))
      · exact h'.byteOrder (.inr ⟨e, he, hread⟩)

theorem readOrder_after {text : Text} (hs : s.NoField)
    (horder : e.tag = .endianness ∨ e.tag = .endianess) (hcontent : e.content = some text) :
    After [e] s (s.readByteOrder text) := by
  obtain ⟨tag, attributes, content⟩ := e
  cases hcontent
  cases hparse : ByteOrder.parse text with
  | none =>
    simp only [readByteOrder, hparse]
    rcases horder with h | h
    all_goals
      cases h
      exact {
        addressing := rfl, noField := hs
        part := fun part => by cases part <;> simp [Part.read, Part.has, Part.set, hparse]
        invalidators := by simp [Element.invalidator]
        ownValue := rfl, predicates := fun _ => rfl, selected := fun _ => rfl
        unit := fun _ => rfl
        byteOrder := by simp [hparse] }
  | some order =>
    simp only [readByteOrder, hparse]
    have hfield : NoField
        { s with bitfield := s.bitfield.noteByteOrder order, byteOrder := some order } :=
      ⟨by simp [BitfieldBuilder.noteByteOrder, hs.bitfield], hs.pending, hs.indexed⟩
    rcases horder with h | h
    all_goals
      cases h
      exact {
        addressing := rfl, noField := hfield
        part := fun part => by
          cases part <;> simp [Part.read, Part.has, Part.set, IntegerState.part, hparse]
        invalidators := by simp [Element.invalidator]
        ownValue := rfl, predicates := fun _ => rfl, selected := fun _ => rfl
        unit := fun _ => rfl
        byteOrder := by simp }

theorem readOne_base {name : Text} {e : Element} {s : IntegerState} (hs : s.NoField)
    (hbase : e.isBase = true) (hcontent : e.content.isSome) :
    ∃ s', s.readOne name e = .ok s' ∧ After [e] s s' := by
  obtain ⟨text, htext⟩ := Option.isSome_iff_exists.mp hcontent
  obtain ⟨tag, attributes, content⟩ := e
  cases htext
  cases tag
  case endianness => exact ⟨_, rfl, readOrder_after hs (.inl rfl) rfl⟩
  case endianess => exact ⟨_, rfl, readOrder_after hs (.inr rfl) rfl⟩
  case accessMode | imposedAccessMode | cachable | cacheable | pollingTime | pInvalidator | sign |
      visibility | tooltip | description | displayName | streamable | pIsImplemented |
      pIsAvailable | pIsLocked | pSelected | unit | representation =>
    exact ⟨_, rfl, {
      addressing := rfl, noField := ⟨hs.bitfield, hs.pending, hs.indexed⟩
      part := fun part => by cases part <;> rfl
      invalidators := by
        rw [filterMap_invalidator]
        simp [Element.invalidator, readShared, handlePredicateStart, handleInvalidatorStart,
          appendReference]
      ownValue := rfl
      predicates := by
        simp [Element.isPredicate, readShared, handlePredicateStart, handleInvalidatorStart]
      selected := by simp [readShared, handlePredicateStart, handleInvalidatorStart]
      unit := by simp [readShared, handlePredicateStart, handleInvalidatorStart]
      byteOrder := by
        simp [Part.has, readShared, handlePredicateStart, handleInvalidatorStart] }⟩
  all_goals cases hbase

theorem readAll_base {name : Text} {elements : List Element} {s : IntegerState} (hs : s.NoField)
    (hbase : ∀ e ∈ elements, e.isBase = true ∧ e.content.isSome) :
    ∃ s', elements.foldlM (IntegerState.readOne name) s = .ok s' ∧ After elements s s' := by
  induction elements generalizing s with
  | nil => exact ⟨s, rfl, .refl hs⟩
  | cons e rest ih =>
    obtain ⟨mid, hmid, hafter⟩ := @readOne_base name e s hs (hbase e (by simp)).1
      (hbase e (by simp)).2
    obtain ⟨s', hs', hrest⟩ := ih hafter.noField fun e he => hbase e (by simp [he])
    refine ⟨s', ?_, hafter.trans hrest⟩
    rw [List.foldlM_cons, hmid]
    exact hs'

end IntegerState

/-- The parts of the register, as its entries find them. -/
def StructState.part (t : StructState) : (part : Part) → part.Value
  | .access => t.access
  | .sign => t.sign
  | .byteOrder => t.byteOrder
  | .visibility => t.sharedMeta.visibility
  | .description => t.sharedMeta.description
  | .tooltip => t.sharedMeta.tooltip
  | .displayName => t.sharedMeta.displayName
  | .representation => t.sharedMeta.representation
  | .imposedAccess => t.sharedMeta.imposedAccess
  | .streamable => t.sharedMeta.streamable
  | .cachable => t.cachable
  | .pollingTime => t.pollingTimeMs

/-- What an element of a register leaves of a structure's parser, but for its
addressing. -/
structure StructState.After (e : Element) (t t' : StructState) : Prop where
  part : ∀ part : Part, t'.part part = part.read (t.part part) e
  invalidators : t'.invalidators = t.invalidators ++ e.invalidator.toList
  cachable : t'.sharedMeta.cachable = t.sharedMeta.cachable
  pollingTime : t'.sharedMeta.pollingTimeMs = t.sharedMeta.pollingTimeMs

variable {t : StructState}

namespace StructState

theorem readChild_base (t : StructState) (hbase : e.isBase = true) (hcontent : e.content.isSome) :
    ∃ t', t.readChild (.element e) = .ok t' ∧ t.After e t' ∧
      t'.terms = t.terms ∧ t'.port = t.port ∧ t'.length = t.length := by
  obtain ⟨text, htext⟩ := Option.isSome_iff_exists.mp hcontent
  obtain ⟨tag, attributes, content⟩ := e
  cases htext
  cases tag
  case accessMode | imposedAccessMode | cachable | cacheable | pollingTime | pInvalidator | sign |
      visibility | tooltip | description | displayName | streamable | pIsImplemented |
      pIsAvailable | pIsLocked | pSelected | unit | representation | endianness | endianess =>
    exact ⟨_, rfl, {
      part := fun part => by cases part <;> rfl
      invalidators := by simp [Element.invalidator, appendReference]
      cachable := rfl
      pollingTime := rfl }, rfl, rfl, rfl⟩
  all_goals cases hbase

theorem readChild_addressing {t' : StructState} (haddr : e.isAddressing = true)
    (hcontent : e.content.isSome) (hread : e.ReadByStruct)
    (h : t.readChild (.element e) = .ok t') : t.After e t' := by
  obtain ⟨text, htext⟩ := Option.isSome_iff_exists.mp hcontent
  obtain ⟨tag, attributes, content⟩ := e
  cases htext
  cases tag
  case pLength => cases hread.noPLength rfl
  case address | pIndex | intSwissKnife | length =>
    simp only [readChild, readStart, bind_eq_ok] at h
    obtain ⟨_, _, h⟩ := h
    cases h
    exact {
      part := fun part => by cases part <;> rfl
      invalidators := by simp [Element.invalidator]
      cachable := rfl
      pollingTime := rfl }
  case pAddress | pPort =>
    cases h
    exact {
      part := fun part => by cases part <;> rfl
      invalidators := by simp [Element.invalidator]
      cachable := rfl
      pollingTime := rfl }
  all_goals cases haddr

end StructState

/-- The parts of an entry's node: its own, and what it lacks from the register. -/
def StructEntryState.part (u : StructEntryState) (t : StructState) : (part : Part) → part.Value
  | .access => u.access.getD t.access
  | .sign => u.sign.getD t.sign
  | .byteOrder => u.byteOrder
  | .visibility => u.nodeMeta.visibility.or t.sharedMeta.visibility
  | .description => u.nodeMeta.description.or t.sharedMeta.description
  | .tooltip => u.nodeMeta.tooltip.or t.sharedMeta.tooltip
  | .displayName => u.nodeMeta.displayName.or t.sharedMeta.displayName
  | .representation => u.nodeMeta.representation.or t.sharedMeta.representation
  | .imposedAccess => u.nodeMeta.imposedAccess.or t.sharedMeta.imposedAccess
  | .streamable => u.nodeMeta.streamable || t.sharedMeta.streamable
  | .cachable => (u.nodeMeta.cachable.or t.sharedMeta.cachable).or t.cachable
  | .pollingTime => (u.nodeMeta.pollingTimeMs.or t.sharedMeta.pollingTimeMs).or t.pollingTimeMs

/-- Whether the text of an entry's element is one that its part is set to. -/
def Element.isReadable (e : Element) : Bool :=
  match e.content with
  | none => false
  | some text =>
    match e.tag with
    | .visibility => (Visibility.parse text).isSome
    | .representation => (Representation.parse text).isSome
    | .sign => (Sign.parse text).isSome
    | .endianness | .endianess => (ByteOrder.parse text).isSome
    | .description | .tooltip | .displayName => (nonBlank text).isSome
    | .pollingTime => (parsePollingTime text).isSome
    | _ => true

/-- An entry is streamable under a streamable register whatever it says of it. -/
def Element.saysStreamable (e : Element) : Prop :=
  ∃ text, e.content = some text ∧ trim text = lit "Yes"

/-- What an element of an entry leaves of its parser, whose node is to take
what it lacks from the register `t`. -/
structure StructEntryState.After (t : StructState) (elements : List Element)
    (u u' : StructEntryState) : Prop where
  part : ∀ part : Part, (part = .streamable → t.sharedMeta.streamable = false ∨
    ∀ e ∈ elements, e.tag = .streamable → e.saysStreamable) →
      u'.part t part = elements.foldl part.read (u.part t part)
  invalidators : u'.invalidators = u.invalidators ++ elements.filterMap Element.invalidator
  lsb : u'.lsb = u.lsb
  msb : u'.msb = u.msb
  bit : u'.bit = u.bit

namespace StructEntryState

theorem After.refl (t : StructState) (u : StructEntryState) : After t [] u u where
  part _ _ := rfl
  invalidators := by simp
  lsb := rfl
  msb := rfl
  bit := rfl

theorem After.trans {first second : List Element}
    {u mid u' : StructEntryState} (h : After t first u mid) (h' : After t second mid u') :
    After t (first ++ second) u u' where
  part part hstream := by
    rw [h'.part part fun hpart => (hstream hpart).imp id fun hall e he => hall e (by simp [he]),
      h.part part fun hpart => (hstream hpart).imp id fun hall e he => hall e (by simp [he]),
      List.foldl_append]
  invalidators := by
    rw [h'.invalidators, h.invalidators, List.filterMap_append, List.append_assoc]
  lsb := h'.lsb.trans h.lsb
  msb := h'.msb.trans h.msb
  bit := h'.bit.trans h.bit

def readOne (u : StructEntryState) (e : Element) : Except XmlError StructEntryState :=
  match e.content with
  | some text => readStart e text u
  | none => readEmpty e u

theorem readOne_base {t : StructState} {e : Element} (u : StructEntryState)
    (hbase : e.isBase = true) (hread : e.isReadable = true) :
    ∃ u', u.readOne e = .ok u' ∧ After t [e] u u' := by
  obtain ⟨tag, attributes, content⟩ := e
  cases content with
  | none => cases hread
  | some text =>
    cases tag
    case accessMode | cachable | cacheable | pInvalidator | pIsImplemented |
        pIsAvailable | pIsLocked | pSelected | unit | imposedAccessMode =>
      exact ⟨_, rfl, {
        part := fun part _ => by cases part <;> rfl
        invalidators := by
          rw [filterMap_invalidator]
          simp [Element.invalidator, appendReference]
        lsb := rfl, msb := rfl, bit := rfl }⟩
    case description | tooltip | displayName =>
      exact ⟨_, rfl, {
        part := fun part _ => by
          cases part <;> first | rfl | exact Option.or_assoc
        invalidators := by
          rw [filterMap_invalidator]
          simp [Element.invalidator]
        lsb := rfl, msb := rfl, bit := rfl }⟩
    case visibility | representation | pollingTime | sign | endianness | endianess =>
      obtain ⟨value, hvalue⟩ := Option.isSome_iff_exists.mp hread
      exact ⟨_, rfl, {
        part := fun part _ => by
          cases part <;>
            simp [StructEntryState.part, NodeMetaBuilder.handleOrIgnore,
              NodeMetaBuilder.handleStart, Part.read, Part.has, Part.set, hvalue]
        invalidators := by
          rw [filterMap_invalidator]
          simp [Element.invalidator]
        lsb := rfl, msb := rfl, bit := rfl }⟩
    case streamable =>
      exact ⟨_, rfl, {
        part := fun part hstream => by
          cases part
          case streamable =>
            rcases hstream rfl with h | h
            · simp [StructEntryState.part, NodeMetaBuilder.handleOrIgnore,
                NodeMetaBuilder.handleStart, Part.read, Part.has, Part.set, h]
            · obtain ⟨text', htext, hyes⟩ := h _ (List.mem_singleton_self _) rfl
              cases htext
              simp [StructEntryState.part, NodeMetaBuilder.handleOrIgnore,
                NodeMetaBuilder.handleStart, Part.read, Part.has, Part.set, hyes]
          all_goals rfl
        invalidators := by
          rw [filterMap_invalidator]
          simp [Element.invalidator]
        lsb := rfl, msb := rfl, bit := rfl }⟩
    all_goals cases hbase

theorem readOne_addressing (u : StructEntryState)
    (haddr : e.isAddressing = true) : ∃ u', u.readOne e = .ok u' ∧ After t [e] u u' := by
  obtain ⟨tag, attributes, content⟩ := e
  cases tag
  case address | pAddress | pIndex | intSwissKnife | pPort | length | pLength =>
    cases content with
    | none =>
      exact ⟨_, rfl, {
        part := fun part _ => by cases part <;> rfl
        invalidators := by simp [Element.invalidator]
        lsb := rfl, msb := rfl, bit := rfl }⟩
    | some text =>
      exact ⟨_, rfl, {
        part := fun part _ => by cases part <;> rfl
        invalidators := by simp [Element.invalidator]
        lsb := rfl, msb := rfl, bit := rfl }⟩
  all_goals cases haddr

theorem readAll_base {t : StructState} {elements : List Element} (u : StructEntryState)
    (h : ∀ e ∈ elements, e.isAddressing = true ∨ e.isBase = true ∧ e.isReadable = true) :
    ∃ u', elements.foldlM readOne u = .ok u' ∧ After t elements u u' := by
  induction elements generalizing u with
  | nil => exact ⟨u, rfl, .refl t u⟩
  | cons e rest ih =>
    have hfirst : ∃ mid, u.readOne e = .ok mid ∧ After t [e] u mid := by
      rcases h e (by simp) with haddr | ⟨hbase, hread⟩
      · exact readOne_addressing u haddr
      · exact readOne_base u hbase hread
    obtain ⟨mid, hmid, hafter⟩ := hfirst
    obtain ⟨u', hu', hrest⟩ := ih mid fun e he => h e (by simp [he])
    refine ⟨u', ?_, hafter.trans hrest⟩
    rw [List.foldlM_cons, hmid]
    exact hu'

end StructEntryState

end VivaGenicam.GenapiXml
