import VivaGenicam.GenapiXml.Registers
import VivaGenicam.Library.FoldM

/-!
What one element does to an integer's parser. Every part of the state is read
from the element on its own, so what a list of elements leaves in one part is a
fold over that part alone.
-/

namespace VivaGenicam.GenapiXml

open Library.FoldM

theorem readChildren_append {σ : Type} {start : Element → Text → σ → Except XmlError σ}
    {empty : Element → σ → Except XmlError σ} {init mid : σ} {before : List Element}
    (h : readChildren start empty init before = .ok mid) (after : List Element) :
    readChildren start empty init (before ++ after) = readChildren start empty mid after := by
  simp only [readChildren, List.foldlM_append] at h ⊢
  rw [h]
  rfl

theorem readChildren_append_error {σ : Type} {start : Element → Text → σ → Except XmlError σ}
    {empty : Element → σ → Except XmlError σ} {init : σ} {before : List Element} {err : XmlError}
    (h : readChildren start empty init before = .error err) (after : List Element) :
    readChildren start empty init (before ++ after) = .error err := by
  simp only [readChildren, List.foldlM_append] at h ⊢
  rw [h]
  rfl

def Element.isBit (e : Element) : Bool :=
  match e.tag with
  | .lsb | .lsbMixed | .msb | .msbMixed | .bit | .mask => true
  | _ => false

/-- The addressing after an element, whichever way it is written. -/
def readAddress (name : Text) (e : Element) (a : AddressingBuilder) :
    Except XmlError AddressingBuilder :=
  match e.content with
  | some text => (handleAddressingStart name e text a).map (·.getD a)
  | none => (handleAddressingEmpty e a).map (·.getD a)

def readAccess (e : Element) (text : Text) (access : AccessMode) : AccessMode :=
  match e.tag with
  | .accessMode => AccessMode.parse text
  | _ => access

def readSign (e : Element) (text : Text) (sign : Sign) : Sign :=
  match e.tag with
  | .sign => (Sign.parse text).getD sign
  | _ => sign

def readOrder (e : Element) (text : Text) (order : Option ByteOrder) : Option ByteOrder :=
  match e.tag with
  | .endianness | .endianess | .byteOrder => (ByteOrder.parse text).or order
  | _ => order

def readUnit (e : Element) (text : Text) (unit : Option Text) : Option Text :=
  match e.tag with
  | .unit => reference text unit
  | _ => unit

def readSelected (e : Element) (text : Text) (selected : List Text) : List Text :=
  match e.tag with
  | .pSelected => appendReference text selected
  | _ => selected

def readInvalidators (e : Element) (text : Text) (invalidators : List Text) : List Text :=
  (handleInvalidatorStart e text invalidators).getD invalidators

def readPredicates (e : Element) (text : Text) (predicates : PredicateRefs) : PredicateRefs :=
  (handlePredicateStart e text predicates).getD predicates

/-- The metadata, but for the list of elements read past. -/
def readMeta (e : Element) (text : Text) (nodeMeta : NodeMetaBuilder) : NodeMetaBuilder :=
  { (nodeMeta.handleStart e text).getD nodeMeta with ignored := [] }

/-- The parts of the state that only an `Integer`'s own elements change. -/
structure OwnValue where
  min : Option Int
  max : Option Int
  inc : Option Int
  pvalue : Option Text
  pMax : Option Text
  pMin : Option Text
  pInc : Option Text
  staticValue : Option Int
deriving DecidableEq, Repr

def IntegerState.ownValue (s : IntegerState) : OwnValue where
  min := s.min
  max := s.max
  inc := s.inc
  pvalue := s.pvalue
  pMax := s.pMax
  pMin := s.pMin
  pInc := s.pInc
  staticValue := s.staticValue

/-- An element that gives a value, or its limits. -/
def Element.isValue (e : Element) : Bool :=
  match e.tag with
  | .min | .max | .inc | .pValue | .pMax | .pMin | .pInc | .value => true
  | _ => false

/-- What a start element that places no bits does to a register's parser. -/
structure IntegerState.Reads (name : Text) (e : Element) (text : Text) (s s' : IntegerState) :
    Prop where
  addressing : ∃ r, handleAddressingStart name e text s.addressing = .ok r ∧
    s'.addressing = r.getD s.addressing
  access : s'.access = readAccess e text s.access
  sign : s'.sign = readSign e text s.sign
  byteOrder : s'.byteOrder = readOrder e text s.byteOrder
  bitfield : s'.bitfield =
    { s.bitfield with byteOrder := readOrder e text s.bitfield.byteOrder }
  unit : s'.unit = readUnit e text s.unit
  selected : s'.selected = readSelected e text s.selected
  invalidators : s'.invalidators = readInvalidators e text s.invalidators
  predicates : s'.predicates = readPredicates e text s.predicates
  nodeMeta : { s'.nodeMeta with ignored := [] } = readMeta e text s.nodeMeta
  ownValue : e.isValue = false → s'.ownValue = s.ownValue
  pending : s'.pendingBitLength = s.pendingBitLength
  indexed : s'.indexed = s.indexed

namespace IntegerState

variable {name text : Text} {e : Element} {s s' : IntegerState}

theorem Reads.of_addressing
    (htag : e.tag = .address ∨ e.tag = .pAddress ∨ e.tag = .pIndex ∨ e.tag = .intSwissKnife ∨
      e.tag = .pPort ∨ e.tag = .pLength ∨ e.tag = .length)
    (h : ∃ r, handleAddressingStart name e text s.addressing = .ok r ∧
      s' = { s with addressing := r.getD s.addressing }) : s.Reads name e text s' := by
  obtain ⟨r, hr, rfl⟩ := h
  obtain ⟨tag, attributes, content⟩ := e
  rcases htag with h | h | h | h | h | h | h
  all_goals
    cases h
    exact {
      addressing := ⟨r, hr, rfl⟩, access := rfl, sign := rfl, byteOrder := rfl, bitfield := rfl
      unit := rfl, selected := rfl, invalidators := rfl, predicates := rfl, nodeMeta := rfl
      ownValue := fun _ => rfl, pending := rfl, indexed := rfl }

theorem readAddressing_reads (h : s.readAddressing name e text = .ok s') :
    ∃ r, handleAddressingStart name e text s.addressing = .ok r ∧
      s' = { s with addressing := r.getD s.addressing } := by
  simp only [readAddressing, bind_eq_ok] at h
  obtain ⟨r, hr, h⟩ := h
  cases h
  exact ⟨r, hr, rfl⟩

theorem readLength_reads {name : Text} {attributes : List (String × Text)} {content : Option Text}
    {text : Text} {s s' : IntegerState} (hpending : s.pendingBitLength = false)
    (h : s.readLength name text = .ok s') :
    ∃ r, handleAddressingStart name ⟨.length, attributes, content⟩ text s.addressing = .ok r ∧
      s' = { s with addressing := r.getD s.addressing } := by
  simp only [readLength, bind_eq_ok] at h
  obtain ⟨value, hvalue, h⟩ := h
  rw [if_neg (by simp [hpending])] at h
  split at h
  · rename_i hlt
    cases h
    refine ⟨some (s.addressing.setLength value), ?_, rfl⟩
    simp only [handleAddressingStart, parseLength, hvalue, bind, Except.bind, hlt, if_true]
    rfl
  · cases h

theorem readElement_reads (hbit : e.isBit = false) (hpending : s.pendingBitLength = false)
    (h : s.readElement name e text = .ok s') : s.Reads name e text s' := by
  obtain ⟨tag, attributes, content⟩ := e
  cases tag
  case lsb | lsbMixed | msb | msbMixed | bit | mask => cases hbit
  case address | pAddress | pIndex | intSwissKnife | pPort | pLength =>
    exact .of_addressing (by simp) (readAddressing_reads h)
  case length => exact .of_addressing (by simp) (readLength_reads hpending h)
  case endianness | endianess | byteOrder =>
    cases h
    cases horder : ByteOrder.parse text with
    | none =>
      simp only [readByteOrder, horder]
      exact {
        addressing := ⟨none, rfl, rfl⟩, access := rfl, sign := rfl
        byteOrder := by simp [readOrder, horder], bitfield := by simp [readOrder, horder]
        unit := rfl, selected := rfl, invalidators := rfl, predicates := rfl, nodeMeta := rfl
        ownValue := fun _ => rfl, pending := rfl, indexed := rfl }
    | some order =>
      simp only [readByteOrder, horder]
      exact {
        addressing := ⟨none, rfl, rfl⟩, access := rfl, sign := rfl
        byteOrder := by simp [readOrder, horder]
        bitfield := by simp [readOrder, horder, BitfieldBuilder.noteByteOrder]
        unit := rfl, selected := rfl, invalidators := rfl, predicates := rfl, nodeMeta := rfl
        ownValue := fun _ => rfl, pending := rfl, indexed := rfl }
  case min | max | inc | value =>
    simp only [readElement, bind_eq_ok] at h
    obtain ⟨number, _, h⟩ := h
    cases h
    exact {
      addressing := ⟨none, rfl, rfl⟩, access := rfl, sign := rfl, byteOrder := rfl
      bitfield := rfl, unit := rfl, selected := rfl, invalidators := rfl, predicates := rfl
      nodeMeta := rfl, ownValue := nofun, pending := rfl, indexed := rfl }
  case pMin | pMax | pInc | pValue =>
    cases h
    exact {
      addressing := ⟨none, rfl, rfl⟩, access := rfl, sign := rfl, byteOrder := rfl
      bitfield := rfl, unit := rfl, selected := rfl, invalidators := rfl, predicates := rfl
      nodeMeta := rfl, ownValue := nofun, pending := rfl, indexed := rfl }
  all_goals
    cases h
    exact {
      addressing := ⟨none, rfl, rfl⟩, access := rfl, sign := rfl, byteOrder := rfl
      bitfield := rfl, unit := rfl, selected := rfl, invalidators := rfl, predicates := rfl
      nodeMeta := rfl, ownValue := fun _ => rfl, pending := rfl, indexed := rfl }

/-- An element that neither places bits nor gives a value is refused only for
what it says of the addressing. -/
theorem readElement_ok
    {r : Option AddressingBuilder} (hbit : e.isBit = false) (hvalue : e.isValue = false)
    (hpending : s.pendingBitLength = false)
    (hr : handleAddressingStart name e text s.addressing = .ok r) :
    ∃ s', s.readElement name e text = .ok s' := by
  obtain ⟨tag, attributes, content⟩ := e
  cases tag
  case lsb | lsbMixed | msb | msbMixed | bit | mask => cases hbit
  case min | max | inc | value | pMin | pMax | pInc | pValue => cases hvalue
  case address | pAddress | pIndex | intSwissKnife | pPort | pLength =>
    exact ⟨_, bind_eq_ok.mpr ⟨r, hr, rfl⟩⟩
  case length =>
    simp only [handleAddressingStart, parseLength, bind_eq_ok] at hr
    obtain ⟨len, ⟨value, hvalue, hlen⟩, -⟩ := hr
    split at hlen
    · rename_i hlt
      refine ⟨{ s with addressing := s.addressing.setLength value }, ?_⟩
      apply bind_eq_ok.mpr ⟨value, hvalue, ?_⟩
      rw [if_neg (by simp [hpending]), if_pos hlt]
      rfl
    · cases hlen
  all_goals exact ⟨_, rfl⟩

/-- A parser that has met no bit element. -/
structure NoField (s : IntegerState) : Prop where
  bitfield : s.bitfield = { byteOrder := s.byteOrder }
  pending : s.pendingBitLength = false
  indexed : s.indexed = {}

theorem noField_init (a : AddressingBuilder) : NoField { addressing := a } := ⟨rfl, rfl, rfl⟩

theorem NoField.readByteOrder (hs : s.NoField) (text : Text) :
    (s.readByteOrder text).NoField := by
  unfold IntegerState.readByteOrder
  split
  · exact ⟨by simp [BitfieldBuilder.noteByteOrder, hs.bitfield], hs.pending, hs.indexed⟩
  · exact hs

theorem NoField.readElement
    (hs : s.NoField) (hbit : e.isBit = false) (h : s.readElement name e text = .ok s') :
    s'.NoField := by
  have hreads := readElement_reads hbit hs.pending h
  exact {
    bitfield := by rw [hreads.bitfield, hs.bitfield, hreads.byteOrder]
    pending := hreads.pending.trans hs.pending
    indexed := hreads.indexed.trans hs.indexed }

theorem NoField.readEmpty (hs : s.NoField)
    (hbit : e.isBit = false) (h : s.readEmpty name e = .ok s') : s'.NoField := by
  obtain ⟨tag, attributes, content⟩ := e
  cases tag
  case lsb | lsbMixed | msb | msbMixed | bit | mask => cases hbit
  case pAddress =>
    simp only [IntegerState.readEmpty, bind_eq_ok] at h
    obtain ⟨a, _, h⟩ := h
    cases h
    exact ⟨hs.bitfield, hs.pending, hs.indexed⟩
  case endianness | endianess | byteOrder =>
    cases h
    cases hvalue : attributeValue attributes "Value" with
    | none => exact hs
    | some text => exact hs.readByteOrder text
  all_goals
    cases h
    exact ⟨hs.bitfield, hs.pending, hs.indexed⟩

theorem NoField.readChildren {children : List Element}
    (hs : s.NoField) (hbit : ∀ e ∈ children, e.isBit = false)
    (h : GenapiXml.readChildren (IntegerState.readStart true name) (IntegerState.readEmpty name)
      s children = .ok s') :
    s'.NoField := by
  apply foldlM_preserves children _ hs h
  intro e he s s' hs h
  cases hcontent : e.content with
  | some text =>
    rw [hcontent] at h
    exact hs.readElement (hbit e he) h
  | none =>
    rw [hcontent] at h
    exact hs.readEmpty (hbit e he) h

end IntegerState

end VivaGenicam.GenapiXml
