import VivaGenicam.GenapiXml.Parts

/-!
A structure's entry is the masked register it abbreviates: the register that
has the entry's elements and those of the structure's that the entry lacks. The
address, the length and the port are always the structure's.
-/

namespace VivaGenicam.GenapiXml

open Library.FoldM

/-- What a bit element sets in an entry's parser. -/
inductive EntryBitSet : (StructEntryState → Nat → StructEntryState) → Prop where
  | lsb : EntryBitSet fun u value => { u with lsb := some value }
  | msb : EntryBitSet fun u value => { u with msb := some value }
  | bit : EntryBitSet fun u value => { u with bit := some value }

variable {e : Element}

theorem entryBit_form (hbit : e.isBit = true) (hmask : e.tag ≠ .mask)
    (hcontent : e.content.isSome) :
    ∃ (r : Except XmlError Nat) (f : StructEntryState → Nat → StructEntryState),
      EntryBitSet f ∧ ∀ u : StructEntryState, u.readOne e = r.map (f u) := by
  obtain ⟨text, htext⟩ := Option.isSome_iff_exists.mp hcontent
  obtain ⟨tag, attributes, content⟩ := e
  cases htext
  cases tag
  case mask => exact absurd rfl hmask
  case lsb | lsbMixed =>
    exact ⟨parseU16 text, _, .lsb, fun u => by cases h : parseU16 text <;>
      simp [StructEntryState.readOne, StructEntryState.readStart, h] <;> rfl⟩
  case msb | msbMixed =>
    exact ⟨parseU16 text, _, .msb, fun u => by cases h : parseU16 text <;>
      simp [StructEntryState.readOne, StructEntryState.readStart, h] <;> rfl⟩
  case bit =>
    exact ⟨parseU16 text, _, .bit, fun u => by cases h : parseU16 text <;>
      simp [StructEntryState.readOne, StructEntryState.readStart, h] <;> rfl⟩
  all_goals cases hbit

theorem entryBit_comm {f : StructEntryState → Nat → StructEntryState} (hf : EntryBitSet f)
    (he : e.isAddressing = true ∨ e.isBase = true) (u : StructEntryState)
    (value : Nat) : ∃ u', u.readOne e = .ok u' ∧ (f u value).readOne e = .ok (f u' value) := by
  obtain ⟨tag, attributes, content⟩ := e
  cases content with
  | none =>
    cases hf
    all_goals exact ⟨_, rfl, rfl⟩
  | some text =>
    cases tag
    case lsb | lsbMixed | msb | msbMixed | bit | mask => rcases he with h | h <;> cases h
    all_goals
      cases hf
      all_goals exact ⟨_, rfl, rfl⟩

variable {own : List Element}

theorem entry_partition
    (hown : ∀ e ∈ own, e.isBit = true ∧ e.tag ≠ .mask ∧ e.content.isSome ∨
      e.isBit = false ∧ (e.isAddressing = true ∨ e.isBase = true)) (u : StructEntryState) :
    own.foldlM StructEntryState.readOne u =
      (own.filter (!·.isBit) ++ own.filter (·.isBit)).foldlM StructEntryState.readOne u := by
  apply foldlM_partition
  intro a ha hbit b hb hnotBit u
  obtain ⟨-, hmask, hcontent⟩ := (hown a ha).resolve_right fun h => by simp [hbit] at h
  obtain ⟨-, hkind⟩ := (hown b hb).resolve_left fun h => by simp [hnotBit] at h
  obtain ⟨r, f, hf, hread⟩ := entryBit_form hbit hmask hcontent
  simp only [hread]
  cases r with
  | error err =>
    obtain ⟨u', hu', -⟩ := entryBit_comm hf hkind u 0
    rw [hu']
    rfl
  | ok value =>
    obtain ⟨u', hu', hafter⟩ := entryBit_comm hf hkind u value
    rw [hu']
    exact hafter

/-- What a bit element sets in a masked register's parser. -/
structure MaskedBitSet where
  set : BitfieldBuilder → Nat → BitfieldBuilder
  pending : Bool → Bool
  order : ∀ (b : BitfieldBuilder) (value : Nat) (order : ByteOrder),
    set (b.noteByteOrder order) value = (set b value).noteByteOrder order

def MaskedBitSet.apply (f : MaskedBitSet) (s : IntegerState) (value : Nat) : IntegerState :=
  { s with bitfield := f.set s.bitfield value, pendingBitLength := f.pending s.pendingBitLength }

namespace MaskedBitSet

def lsb : MaskedBitSet where
  set := BitfieldBuilder.noteLsb
  pending := id
  order b value order := by
    have hadmits : (b.noteByteOrder order).admits .lsbMsb = b.admits .lsbMsb := rfl
    unfold BitfieldBuilder.noteLsb
    rw [hadmits]
    split <;> rfl

def msb : MaskedBitSet where
  set := BitfieldBuilder.noteMsb
  pending := id
  order b value order := by
    have hadmits : (b.noteByteOrder order).admits .lsbMsb = b.admits .lsbMsb := rfl
    unfold BitfieldBuilder.noteMsb
    rw [hadmits]
    split <;> rfl

def bit : MaskedBitSet where
  set := BitfieldBuilder.noteBit
  pending := fun _ => true
  order b value order := by
    have hadmits : (b.noteByteOrder order).admits .bitLength = b.admits .bitLength := rfl
    unfold BitfieldBuilder.noteBit
    rw [hadmits]
    split <;> rfl

def mask : MaskedBitSet where
  set := BitfieldBuilder.noteMask
  pending := fun _ => false
  order b value order := by
    have hsource : (b.noteByteOrder order).source = b.source := rfl
    unfold BitfieldBuilder.noteMask
    rw [hsource]
    split <;> rfl

end MaskedBitSet

theorem maskedBit_form {name : Text} {e : Element} (hbit : e.isBit = true)
    (hcontent : e.content.isSome) :
    ∃ (r : Except XmlError Nat) (f : MaskedBitSet),
      ∀ s : IntegerState, s.readOne name e = r.map (f.apply s) := by
  obtain ⟨text, htext⟩ := Option.isSome_iff_exists.mp hcontent
  obtain ⟨tag, attributes, content⟩ := e
  cases htext
  have hbind : ∀ (r : Except XmlError Nat) (f : MaskedBitSet) (s : IntegerState),
      (r >>= fun value => .ok (f.apply s value)) = r.map (f.apply s) := by
    intro r f s
    cases r <;> rfl
  cases tag
  case lsb | lsbMixed => exact ⟨_, .lsb, fun s => hbind _ .lsb s⟩
  case msb | msbMixed => exact ⟨_, .msb, fun s => hbind _ .msb s⟩
  case bit => exact ⟨_, .bit, fun s => hbind _ .bit s⟩
  case mask => exact ⟨_, .mask, fun s => hbind _ .mask s⟩
  all_goals cases hbit

theorem maskedBit_comm {name : Text} {e : Element} (f : MaskedBitSet) (hbase : e.isBase = true)
    (hcontent : e.content.isSome) (s : IntegerState) (value : Nat) :
    ∃ s', s.readOne name e = .ok s' ∧ (f.apply s value).readOne name e = .ok (f.apply s' value) := by
  obtain ⟨text, htext⟩ := Option.isSome_iff_exists.mp hcontent
  obtain ⟨tag, attributes, content⟩ := e
  cases htext
  cases tag
  case endianness | endianess =>
    refine ⟨_, rfl, ?_⟩
    change Except.ok (IntegerState.readByteOrder _ text) = _
    unfold IntegerState.readByteOrder
    cases ByteOrder.parse text with
    | none => rfl
    | some order =>
      simp only [MaskedBitSet.apply, f.order]
  case accessMode | imposedAccessMode | cachable | cacheable | pollingTime | pInvalidator | sign |
      visibility | tooltip | description | displayName | streamable | pIsImplemented |
      pIsAvailable | pIsLocked | pSelected | unit | representation => exact ⟨_, rfl, rfl⟩
  all_goals cases hbase

variable {name : Text}

theorem masked_partition
    (hown : ∀ e ∈ own, e.isBit = true ∧ e.content.isSome ∨
      e.isBit = false ∧ e.isBase = true ∧ e.content.isSome) (s : IntegerState) :
    own.foldlM (IntegerState.readOne name) s =
      (own.filter (!·.isBit) ++ own.filter (·.isBit)).foldlM (IntegerState.readOne name) s := by
  apply foldlM_partition
  intro a ha hbit b hb hnotBit s
  obtain ⟨-, hcontent⟩ := (hown a ha).resolve_right fun h => by simp [hbit] at h
  obtain ⟨-, hbase, hstarted⟩ := (hown b hb).resolve_left fun h => by simp [hnotBit] at h
  obtain ⟨r, f, hread⟩ := @maskedBit_form name a hbit hcontent
  simp only [hread]
  cases r with
  | error err =>
    obtain ⟨s', hs', -⟩ := @maskedBit_comm name b f hbase hstarted s 0
    rw [hs']
    rfl
  | ok value =>
    obtain ⟨s', hs', hafter⟩ := @maskedBit_comm name b f hbase hstarted s value
    rw [hs']
    exact hafter

/-! ## The masked register an entry abbreviates -/

/-- The element a tag spells: two have a second spelling. -/
def Tag.element : Tag → Tag
  | .cacheable => .cachable
  | .endianess => .endianness
  | tag => tag

/-- Whether an element of the register is passed to an entry that has `own`. -/
def Element.passedTo (own : List Element) (e : Element) : Bool :=
  e.isAddressing || !own.any fun o => o.tag.element = e.tag.element

/-- The elements of the masked register that stands for an entry: those of the
structure's register that the entry lacks, then the entry's. The addressing is
the structure's. -/
def abbreviated (shared own : List Element) : List Element :=
  shared.filter (·.passedTo own) ++ own.filter (!·.isAddressing)

/-- An element of a structure's register: one of its addressing that the
structure's parser reads, or a base element. -/
def Element.onRegister (e : Element) : Prop :=
  e.content.isSome ∧ (e.isAddressing = true ∧ e.ReadByStruct ∨ e.isBase = true)

/-- An entry's elements: readable base elements, and the bits of one declaration. -/
structure OnEntry (own : List Element) (decl : BitDecl) : Prop where
  element : ∀ e ∈ own, e.isBit = true ∨ e.isAddressing = true ∨
    e.isBase = true ∧ e.isReadable = true
  bits : EntryBits (own.filter (·.isBit)) decl

theorem Element.base_not_bit (h : e.isBase = true) :
    e.isBit = false ∧ e.isAddressing = false := by
  obtain ⟨tag, attributes, content⟩ := e
  cases tag <;> first | exact ⟨rfl, rfl⟩ | cases h

theorem Element.addressing_not_bit (h : e.isAddressing = true) :
    e.isBit = false := by
  obtain ⟨tag, attributes, content⟩ := e
  cases tag <;> first | rfl | cases h

theorem Element.started_of_readable (h : e.isReadable = true) : e.content.isSome := by
  unfold isReadable at h
  split at h
  · cases h
  · rename_i htext
    rw [htext]
    rfl

theorem Part.has_element (part : Part) {tag tag' : Tag} (h : tag.element = tag'.element) :
    part.has tag = part.has tag' := by
  have hself : ∀ tag : Tag, part.has tag.element = part.has tag := by
    intro tag
    cases tag
    case cacheable | endianess => cases part <;> rfl
    all_goals rfl
  rw [← hself tag, h, hself tag']

variable {part : Part}

theorem Part.set_readable (hread : e.isReadable = true)
    (hhas : part.has e.tag = true) (value value' : part.Value) :
    part.read value e = part.read value' e := by
  obtain ⟨tag, attributes, content⟩ := e
  cases content with
  | none => cases hread
  | some text =>
    simp only [Part.read, hhas, if_true]
    cases part
    case sign =>
      cases tag
      case sign =>
        obtain ⟨sign, hsign⟩ := Option.isSome_iff_exists.mp hread
        simp [Part.set, hsign]
      all_goals cases hhas
    case byteOrder =>
      cases tag
      case endianness | endianess =>
        obtain ⟨order, horder⟩ := Option.isSome_iff_exists.mp hread
        simp [Part.set, horder]
      all_goals cases hhas
    case description =>
      cases tag
      case description =>
        obtain ⟨target, htarget⟩ := Option.isSome_iff_exists.mp hread
        simp [Part.set, reference, htarget]
      all_goals cases hhas
    case tooltip =>
      cases tag
      case tooltip =>
        obtain ⟨target, htarget⟩ := Option.isSome_iff_exists.mp hread
        simp [Part.set, reference, htarget]
      all_goals cases hhas
    case displayName =>
      cases tag
      case displayName =>
        obtain ⟨target, htarget⟩ := Option.isSome_iff_exists.mp hread
        simp [Part.set, reference, htarget]
      all_goals cases hhas
    all_goals rfl

/-- What the parser of a structure and that of the masked register have in
common once the register's elements are read. -/
structure Shares (shared own : List Element) (t : StructState) (s : IntegerState) : Prop where
  holds : t.Holds s.addressing
  noField : s.NoField
  part : ∀ part : Part, (∀ o ∈ own, part.has o.tag = false) → s.part part = t.part part
  invalidators : s.invalidators =
    if own.any (fun o => o.tag = .pInvalidator) then [] else t.invalidators
  ownValue : s.ownValue = IntegerState.ownValue { addressing := {} }
  predicates : (∀ e ∈ shared, e.isPredicate = false) → s.predicates = {}
  selected : (∀ e ∈ shared, e.tag ≠ .pSelected) → s.selected = []
  unit : (∀ e ∈ shared, e.tag ≠ .unit) → s.unit = none
  cachable : t.sharedMeta.cachable = none
  pollingTime : t.sharedMeta.pollingTimeMs = none

theorem shares_init (shared own : List Element) :
    Shares shared own {} { addressing := {} } where
  holds := ⟨rfl, rfl, rfl, rfl⟩
  noField := IntegerState.noField_init {}
  part part _ := by cases part <;> rfl
  invalidators := by simp
  ownValue := rfl
  predicates _ := rfl
  selected _ := rfl
  unit _ := rfl
  cachable := rfl
  pollingTime := rfl

variable {s s' : IntegerState}

theorem readOne_addressing (hs : s.NoField)
    (haddr : e.isAddressing = true) (hcontent : e.content.isSome)
    (h : s.readOne name e = .ok s') : s' = { s with addressing := s'.addressing } := by
  obtain ⟨text, htext⟩ := Option.isSome_iff_exists.mp hcontent
  obtain ⟨tag, attributes, content⟩ := e
  cases htext
  cases tag
  case address | pAddress | pIndex | intSwissKnife | pPort | pLength =>
    obtain ⟨r, -, rfl⟩ := IntegerState.readAddressing_reads h
    rfl
  case length =>
    obtain ⟨r, -, rfl⟩ := @IntegerState.readLength_reads name attributes (some text) text s s'
      hs.pending h
    rfl
  all_goals cases haddr

variable {shared : List Element} {t : StructState}

theorem shares_addressing (h : Shares shared own t s)
    (haddr : e.isAddressing = true) (hcontent : e.content.isSome) (hread : e.ReadByStruct) :
    Agree (Shares shared own) (t.readChild (.element e)) (s.readOne name e) := by
  have hstruct := @StructState.readChild_agrees name e t s.addressing h.holds haddr hread
  have hmasked := @readOne_agrees name e s h.noField haddr
    fun _ hnone => by simp [hnone] at hcontent
  cases hall : readAddress name e s.addressing with
  | error err =>
    rw [hall] at hstruct hmasked
    obtain ⟨err₁, h₁⟩ := agree_error_iff.mp hstruct
    obtain ⟨err₂, h₂⟩ := agree_error_iff.mp hmasked
    rw [h₁, h₂]
    trivial
  | ok a =>
    rw [hall] at hstruct hmasked
    obtain ⟨t', ht', hholds⟩ := agree_ok_iff.mp hstruct
    obtain ⟨s', hs', rfl, hno⟩ := agree_ok_iff.mp hmasked
    have hafter := StructState.readChild_addressing haddr hcontent hread ht'
    have hstay : ∀ part : Part, part.has e.tag = false := by
      intro part
      obtain ⟨tag, attributes, content⟩ := e
      cases tag
      case address | pAddress | pIndex | intSwissKnife | pPort | length | pLength =>
        cases part <;> rfl
      all_goals cases haddr
    have hinvalidator : e.invalidator = none := by
      obtain ⟨tag, attributes, content⟩ := e
      cases tag
      case address | pAddress | pIndex | intSwissKnife | pPort | length | pLength => rfl
      all_goals cases haddr
    have heq := readOne_addressing h.noField haddr hcontent hs'
    rw [ht', hs']
    exact {
      holds := hholds
      noField := hno
      part := fun part hown => by
        rw [hafter.part, Part.read_of_not_has (hstay part), ← h.part part hown, heq]
        cases part <;> rfl
      invalidators := by
        rw [hafter.invalidators, hinvalidator, Option.toList_none, List.append_nil, heq]
        exact h.invalidators
      ownValue := by
        rw [heq]
        exact h.ownValue
      predicates := fun hnone => by
        rw [heq]
        exact h.predicates hnone
      selected := fun hnone => by
        rw [heq]
        exact h.selected hnone
      unit := fun hnone => by
        rw [heq]
        exact h.unit hnone
      cachable := hafter.cachable.trans h.cachable
      pollingTime := hafter.pollingTime.trans h.pollingTime }

theorem Part.not_has_of_dropped {own : List Element} {e : Element} {part : Part}
    (hdropped : e.passedTo own = false) (hown : ∀ o ∈ own, part.has o.tag = false) :
    part.has e.tag = false := by
  simp only [Element.passedTo, Bool.or_eq_false_iff, Bool.not_eq_false', List.any_eq_true,
    decide_eq_true_eq] at hdropped
  obtain ⟨-, o, ho, hsame⟩ := hdropped
  rw [← part.has_element hsame]
  exact hown o ho

theorem Tag.element_pInvalidator {tag : Tag} : tag.element = .pInvalidator ↔ tag = .pInvalidator := by
  cases tag <;> simp [Tag.element]

theorem shares_base (h : Shares shared own t s) (he : e ∈ shared) (hbase : e.isBase = true)
    (hcontent : e.content.isSome) (hpassed : e.passedTo own = true) :
    Agree (Shares shared own) (t.readChild (.element e)) (s.readOne name e) := by
  obtain ⟨t', ht', hafter, hterms, hport, hlength⟩ := t.readChild_base hbase hcontent
  obtain ⟨s', hs', hread⟩ := @IntegerState.readOne_base name e s h.noField hbase hcontent
  rw [ht', hs']
  exact {
    holds := by
      rw [hread.addressing]
      exact ⟨hterms.trans h.holds.terms, hport.trans h.holds.port, hlength.trans h.holds.length,
        h.holds.pLength⟩
    noField := hread.noField
    part := fun part hown => by
      rw [hafter.part, hread.part, h.part part hown]
      rfl
    invalidators := by
      rw [hread.invalidators, hafter.invalidators, filterMap_invalidator, h.invalidators]
      split
      · rename_i hany
        have hother : e.tag ≠ .pInvalidator := by
          intro htag
          obtain ⟨o, ho, hotag⟩ := List.any_eq_true.mp hany
          have hotag : o.tag = .pInvalidator := by simpa using hotag
          simp only [Element.passedTo, (Element.base_not_bit hbase).2, Bool.false_or, Bool.not_eq_true',
            List.any_eq_false, decide_eq_true_eq] at hpassed
          exact hpassed o ho (by rw [hotag, htag])
        simp [Element.invalidator, hother]
      · rfl
    ownValue := hread.ownValue.trans h.ownValue
    predicates := fun hnone => (hread.predicates (by simpa using hnone e he)).trans
      (h.predicates hnone)
    selected := fun hnone => (hread.selected (by simpa using hnone e he)).trans (h.selected hnone)
    unit := fun hnone => (hread.unit (by simpa using hnone e he)).trans (h.unit hnone)
    cachable := hafter.cachable.trans h.cachable
    pollingTime := hafter.pollingTime.trans h.pollingTime }

theorem shares_dropped (h : Shares shared own t s) (hbase : e.isBase = true)
    (hcontent : e.content.isSome) (hdropped : e.passedTo own = false) :
    ∃ t', t.readChild (.element e) = .ok t' ∧ Shares shared own t' s := by
  obtain ⟨t', ht', hafter, hterms, hport, hlength⟩ := t.readChild_base hbase hcontent
  refine ⟨t', ht', ?_⟩
  exact {
    holds := ⟨hterms.trans h.holds.terms, hport.trans h.holds.port, hlength.trans h.holds.length,
      h.holds.pLength⟩
    noField := h.noField
    part := fun part hown => by
      rw [hafter.part, Part.read_of_not_has (Part.not_has_of_dropped hdropped hown)]
      exact h.part part hown
    invalidators := by
      rw [hafter.invalidators, h.invalidators]
      split
      · rfl
      · rename_i hany
        have hother : e.tag ≠ .pInvalidator := by
          intro htag
          simp only [Element.passedTo, Bool.or_eq_false_iff, Bool.not_eq_false', List.any_eq_true,
            decide_eq_true_eq] at hdropped
          obtain ⟨-, o, ho, hsame⟩ := hdropped
          rw [htag] at hsame
          refine hany (List.any_eq_true.mpr ⟨o, ho, ?_⟩)
          simpa using Tag.element_pInvalidator.mp hsame
        simp [Element.invalidator, hother]
    ownValue := h.ownValue
    predicates := h.predicates
    selected := h.selected
    unit := h.unit
    cachable := hafter.cachable.trans h.cachable
    pollingTime := hafter.pollingTime.trans h.pollingTime }

/-- The parsers agree over the register's elements, where the masked register
has only those its entry lacks. -/
theorem read_shared {name : Text} {shared : List Element} (own : List Element)
    (hshared : ∀ e ∈ shared, e.onRegister) :
    Agree (Shares shared own) ((shared.map StructChild.element).foldlM StructState.readChild {})
      ((shared.filter (·.passedTo own)).foldlM (IntegerState.readOne name)
        { addressing := {} }) := by
  rw [List.foldlM_map]
  refine foldlM_agree_filter (·.passedTo own) shared ?_ ?_ (shares_init shared own)
  · intro e he hpassed t s h
    obtain ⟨hcontent, ⟨haddr, hread⟩ | hbase⟩ := hshared e he
    · exact shares_addressing h haddr hcontent hread
    · exact shares_base h he hbase hcontent hpassed
  · intro e he hdropped t s h
    obtain ⟨hcontent, ⟨haddr, -⟩ | hbase⟩ := hshared e he
    · simp [Element.passedTo, haddr] at hdropped
    · exact shares_dropped h hbase hcontent hdropped

theorem readChild_after {t' : StructState} (he : e.onRegister)
    (h : t.readChild (.element e) = .ok t') : t.After e t' := by
  obtain ⟨hcontent, ⟨haddr, hread⟩ | hbase⟩ := he
  · exact StructState.readChild_addressing haddr hcontent hread h
  · obtain ⟨t₁, ht₁, hafter, -⟩ := t.readChild_base hbase hcontent
    cases ht₁.symm.trans h
    exact hafter

theorem shared_invalidators (hshared : ∀ e ∈ shared, e.onRegister)
    (h : (shared.map StructChild.element).foldlM StructState.readChild {} = .ok t) :
    t.invalidators = shared.filterMap Element.invalidator := by
  rw [List.foldlM_map] at h
  have hview := @foldlM_view _ _ _ _ (fun _ => True) StructState.invalidators
    (fun found (e : Element) => found ++ e.invalidator.toList) _ shared (fun _ _ _ _ _ _ => trivial)
    (fun e he t t' _ ht => (readChild_after (hshared e he) ht).invalidators) _ _ trivial h
  have hfold : ∀ (elements : List Element) (found : List Text),
      elements.foldl (fun found e => found ++ e.invalidator.toList) found =
        found ++ elements.filterMap Element.invalidator := by
    intro elements
    induction elements with
    | nil => simp
    | cons e rest ih =>
      intro found
      rw [List.foldl_cons, ih, List.append_assoc]
      cases hinv : e.invalidator <;> simp [hinv]
  rw [hview, hfold]
  rfl

theorem shared_not_streamable (hshared : ∀ e ∈ shared, e.onRegister)
    (hno : ∀ e ∈ shared, e.tag = .streamable → ¬e.saysStreamable)
    (h : (shared.map StructChild.element).foldlM StructState.readChild {} = .ok t) :
    t.sharedMeta.streamable = false := by
  rw [List.foldlM_map] at h
  apply foldlM_preserves (P := fun t => StructState.part t .streamable = false) shared ?_ rfl h
  intro e he t t' ht hstep
  rw [(readChild_after (hshared e he) hstep).part]
  cases hhas : Part.streamable.has e.tag with
  | false => rw [Part.read_of_not_has hhas, ht]
  | true =>
    have htag : e.tag = .streamable := by
      obtain ⟨tag, attributes, content⟩ := e
      cases tag <;> first | rfl | cases hhas
    obtain ⟨text, htext⟩ := Option.isSome_iff_exists.mp (hshared e he).1
    have hnot : ¬trim text = lit "Yes" := fun hyes => hno e he htag ⟨text, htext, hyes⟩
    simp [Part.read, htext, hhas, Part.set, hnot]

theorem Part.has_base (h : part.has e.tag = true) :
    e.isBase = true := by
  obtain ⟨tag, attributes, content⟩ := e
  cases tag <;> first | rfl | (cases part <;> cases h)

/-- Whatever of an entry's elements is left out, its base elements apart, its
parts are those its elements give. -/
theorem Part.foldl_filter (p : Element → Bool)
    (hbase : ∀ e ∈ own, e.isBase = true → p e = true) (value : part.Value) :
    (own.filter p).foldl part.read value = own.foldl part.read value := by
  apply foldl_of_ignored
  intro e he hp value
  apply Part.read_of_not_has
  cases hhas : part.has e.tag with
  | false => rfl
  | true => simp [hbase e he (Part.has_base hhas)] at hp

theorem invalidators_filter (p : Element → Bool) (hbase : ∀ e ∈ own, e.isBase = true → p e = true) :
    (own.filter p).filterMap Element.invalidator = own.filterMap Element.invalidator := by
  rw [List.filterMap_filter]
  apply List.filterMap_congr
  intro e he
  cases hp : p e with
  | true => simp
  | false =>
    have hnot : e.tag ≠ .pInvalidator := by
      intro htag
      have hisBase : e.isBase = true := by simp [Element.isBase, htag]
      simp [hbase e he hisBase] at hp
    simp [Element.invalidator, hnot]

variable {decl : BitDecl}

theorem parts_agree {u : StructEntryState} (hshares : Shares shared own t s)
    (hown : OnEntry own decl)
    (hmasked : IntegerState.After (own.filter fun e => !e.isAddressing && !e.isBit) s s')
    (hentry : StructEntryState.After t (own.filter (!·.isBit)) { byteOrder := t.byteOrder } u)
    (part : Part) (hstream : part = .streamable → t.sharedMeta.streamable = false ∨
      ∀ e ∈ own, e.tag = .streamable → e.saysStreamable) :
    u.part t part = s'.part part := by
  have hstart : StructEntryState.part { byteOrder := t.byteOrder } t part = t.part part := by
    cases part
    case cachable => simp [StructEntryState.part, StructState.part, hshares.cachable]
    case pollingTime => simp [StructEntryState.part, StructState.part, hshares.pollingTime]
    all_goals simp [StructEntryState.part, StructState.part]
  rw [hmasked.part, hentry.part part fun h => (hstream h).imp id fun hall e he =>
    hall e (List.mem_of_mem_filter he), hstart]
  rw [Part.foldl_filter _ fun e _ hbase => by simp [Element.base_not_bit hbase],
    Part.foldl_filter _ fun e _ hbase => by simp [Element.base_not_bit hbase]]
  by_cases hhas : ∃ o ∈ own, part.has o.tag = true
  · obtain ⟨o, ho, hset⟩ := hhas
    have hread : o.isReadable = true := by
      have hbase := Part.has_base hset
      rcases hown.element o ho with h | h | h
      · simp [Element.base_not_bit hbase] at h
      · simp [Element.base_not_bit hbase] at h
      · exact h.2
    exact foldl_forgets own ho (Part.set_readable hread hset) _ _
  · rw [hshares.part part fun o ho => by
      cases h : part.has o.tag with
      | false => rfl
      | true => exact absurd ⟨o, ho, h⟩ hhas]

variable {bits : List Element}

theorem entry_withinWidths (h : EntryBits bits decl)
    (order : ByteOrder) (total : Nat) : decl.WithinWidths order total ↔ total < 2 ^ 32 := by
  have hfirst : decl.span.1 < 2 ^ 16 := by
    have hbelow := h.below
    cases decl with
    | range lsb msb => exact lt_of_le_of_lt (min_le_left _ _) hbelow.1
    | bit index => exact hbelow
    | mask value => exact absurd rfl h.noMask
  have hoffset : (decl.field order total).bitOffset = decl.span.1 := by
    cases decl with
    | range lsb msb => cases order <;> rfl
    | bit index => cases order <;> rfl
    | mask value => exact absurd rfl h.noMask
  unfold BitDecl.WithinWidths
  rw [hoffset]
  exact ⟨fun h => h.1, fun h => ⟨h, hfirst, hfirst⟩⟩

theorem entry_consecutive (h : EntryBits bits decl) :
    decl.Consecutive := by
  cases decl with
  | range lsb msb => exact BitDecl.consecutive_range lsb msb
  | bit index => exact BitDecl.consecutive_bit index
  | mask value => exact absurd rfl h.noMask

theorem EntryBits.not_mask (h : EntryBits bits decl)
    (he : e ∈ bits) : e.tag ≠ .mask := by
  obtain ⟨hdeclares, hmask, -, -⟩ := h
  cases hdeclares with
  | lsbMsb hl hm _ _ | msbLsb hl hm _ _ =>
    rcases List.mem_cons.mp he with rfl | he
    · rcases hl with h | h <;> rcases hm with h' | h' <;> simp_all
    · rw [List.mem_singleton.mp he]
      rcases hl with h | h <;> rcases hm with h' | h' <;> simp_all
  | bit htag _ =>
    rw [List.mem_singleton.mp he, htag]
    simp
  | mask _ _ => exact absurd rfl hmask

theorem OnEntry.partition (h : OnEntry own decl)
    (he : e ∈ own) : e.isBit = true ∧ e.tag ≠ .mask ∧ e.content.isSome ∨
      e.isBit = false ∧ (e.isAddressing = true ∨ e.isBase = true ∧ e.isReadable = true) := by
  rcases h.element e he with hbit | haddr | hbase
  · have hmem : e ∈ own.filter (·.isBit) := List.mem_filter.mpr ⟨he, hbit⟩
    exact .inl ⟨hbit, h.bits.not_mask hmem, h.bits.started e hmem⟩
  · exact .inr ⟨Element.addressing_not_bit haddr, .inl haddr⟩
  · exact .inr ⟨(Element.base_not_bit hbase.1).1, .inr hbase⟩

theorem parseStructEntry_own {data : StructEntryData} (hown : OnEntry own decl)
    (h : parseStructEntry [("Name", name)] own t.byteOrder = .ok data) :
    nonBlank name = some data.name ∧ ∃ u : StructEntryState,
      StructEntryState.After t (own.filter (!·.isBit)) { byteOrder := t.byteOrder } u ∧
        (decl.span.2 ≤ 64 → ∀ total, data = {
          name := data.name, bitfield := decl.field u.byteOrder total
          access := u.access, sign := u.sign, nodeMeta := u.nodeMeta
          invalidators := u.invalidators }) := by
  simp only [parseStructEntry, attributeValueRequired, attributeValue_name] at h
  cases hname : nonBlank name with
  | none =>
    rw [hname] at h
    cases h
  | some n =>
    rw [hname] at h
    change (own.foldlM StructEntryState.readOne _ >>= fun s => _) = _ at h
    rw [entry_partition fun e he => (hown.partition he).imp id fun h => ⟨h.1, h.2.imp id (·.1)⟩,
      List.foldlM_append] at h
    obtain ⟨u, hu, hafter⟩ := @StructEntryState.readAll_base t
      (own.filter (!·.isBit)) { byteOrder := t.byteOrder } fun e he => by
        obtain ⟨hmem, hbit⟩ := List.mem_filter.mp he
        rcases hown.partition hmem with hb | hb
        · simp [hb.1] at hbit
        · exact hb.2
    rw [hu] at h
    obtain ⟨u', hu', h⟩ := bind_eq_ok.mp h
    obtain ⟨bf, hbf, h⟩ := bind_eq_ok.mp h
    cases h
    refine ⟨rfl, u, hafter, fun hwidth total => ?_⟩
    obtain ⟨u'', hread, hfield, heq⟩ :=
      read_entryBits hown.bits hwidth total n u hafter.bit
    cases hu'.symm.trans hread
    cases hfield.symm.trans hbf
    rw [heq]

/-- The node of an entry is that of a masked register, apart from the range of
its values and the elements read past. What an entry's parser does not read
(its predicates, selected features and unit) is compared where there is none. -/
structure Abbreviates (shared own : List Element) (node d : IntegerDecl) : Prop where
  name : node.name = d.name
  addressing : node.addressing = d.addressing
  len : node.len = d.len
  access : node.access = d.access
  sign : node.sign = d.sign
  bitfield : node.bitfield = d.bitfield
  byteOrder : (∃ e ∈ shared ++ own, Part.byteOrder.has e.tag = true ∧
    (e.content.bind ByteOrder.parse).isSome) → node.byteOrder = d.byteOrder
  nodeMeta : { node.nodeMeta with ignored := [], streamable := false } =
    { d.nodeMeta with ignored := ([] : List Tag), streamable := false }
  streamable : (∀ e ∈ shared, e.tag = .streamable → ¬e.saysStreamable) ∨
    (∀ e ∈ own, e.tag = .streamable → e.saysStreamable) →
      node.nodeMeta.streamable = d.nodeMeta.streamable
  value : node.inc = d.inc ∧ node.pvalue = d.pvalue ∧ node.pMax = d.pMax ∧ node.pMin = d.pMin ∧
    node.pInc = d.pInc ∧ node.value = d.value ∧ node.indexed = d.indexed
  invalidators : node.invalidators = StructState.joinInvalidators
    (shared.filterMap Element.invalidator) (own.filterMap Element.invalidator)
  invalidators_shared : (∀ e ∈ own, e.tag ≠ .pInvalidator) → node.invalidators = d.invalidators
  predicates : (∀ e ∈ shared ++ own, e.isPredicate = false) → node.predicates = d.predicates
  selected : (∀ e ∈ shared ++ own, e.tag ≠ .pSelected) → node.selected = d.selected
  unit : (∀ e ∈ shared ++ own, e.tag ≠ .unit) → node.unit = d.unit

theorem readOne_keeps_order
    (hbit : e.isBit = false) (hcontent : e.content.isSome) (h : s.readOne name e = .ok s')
    (hs : s.byteOrder.isSome) : s'.byteOrder.isSome := by
  obtain ⟨text, htext⟩ := Option.isSome_iff_exists.mp hcontent
  obtain ⟨tag, attributes, content⟩ := e
  cases htext
  cases tag
  case lsb | lsbMixed | msb | msbMixed | bit | mask => cases hbit
  case address | pAddress | pIndex | intSwissKnife | pPort | pLength =>
    obtain ⟨r, -, rfl⟩ := IntegerState.readAddressing_reads h
    exact hs
  case length =>
    obtain ⟨value, -, h⟩ := bind_eq_ok.mp h
    split at h
    · split at h
      · cases h
        exact hs
      · cases h
    · split at h
      · cases h
        exact hs
      · cases h
  case min | max | inc | value =>
    obtain ⟨value, -, h⟩ := bind_eq_ok.mp h
    cases h
    exact hs
  case endianness | endianess | byteOrder =>
    cases h
    unfold IntegerState.readByteOrder
    split
    · rfl
    · exact hs
  all_goals
    cases h
    exact hs

theorem readOne_sets_order
    (hhas : Part.byteOrder.has e.tag = true) (hparse : (e.content.bind ByteOrder.parse).isSome)
    (h : s.readOne name e = .ok s') : s'.byteOrder.isSome := by
  obtain ⟨tag, attributes, content⟩ := e
  cases content with
  | none => cases hparse
  | some text =>
    have hsome : (ByteOrder.parse text).isSome := hparse
    obtain ⟨order, horder⟩ := Option.isSome_iff_exists.mp hsome
    cases tag
    case endianness | endianess =>
      cases h
      simp [IntegerState.readByteOrder, horder]
    all_goals cases hhas

theorem read_abbreviated {name : Text} {shared own : List Element} {decl : BitDecl}
    {t : StructState} (hshared : ∀ e ∈ shared, e.onRegister) (hown : OnEntry own decl)
    (ht : (shared.map StructChild.element).foldlM StructState.readChild {} = .ok t) :
    ∃ s s', Shares shared own t s ∧
      IntegerState.After (own.filter fun e => !e.isAddressing && !e.isBit) s s' ∧
      (shared.filter (·.passedTo own) ++ own.filter fun e => !e.isAddressing && !e.isBit).foldlM
        (IntegerState.readOne name) { addressing := {} } = .ok s' ∧
      ((∃ e ∈ shared ++ own, Part.byteOrder.has e.tag = true ∧
        (e.content.bind ByteOrder.parse).isSome) → s'.byteOrder.isSome) := by
  have hagree := @read_shared name shared own hshared
  rw [ht] at hagree
  cases hs : (shared.filter (·.passedTo own)).foldlM (IntegerState.readOne name)
      { addressing := {} } with
  | error err =>
    rw [hs] at hagree
    exact hagree.elim
  | ok s =>
    rw [hs] at hagree
    have hshares : Shares shared own t s := hagree
    have hbase : ∀ e ∈ own.filter fun e => !e.isAddressing && !e.isBit,
        e.isBase = true ∧ e.isReadable = true := by
      intro e he
      obtain ⟨hmem, hkeep⟩ := List.mem_filter.mp he
      simp only [Bool.and_eq_true, Bool.not_eq_true'] at hkeep
      rcases hown.element e hmem with h | h | h
      · simp [hkeep.2] at h
      · simp [hkeep.1] at h
      · exact h
    obtain ⟨s', hs', hafter⟩ := @IntegerState.readAll_base name _ s hshares.noField
      fun e he => ⟨(hbase e he).1, Element.started_of_readable (hbase e he).2⟩
    refine ⟨s, s', hshares, hafter, ?_, ?_⟩
    · rw [List.foldlM_append, hs]
      exact hs'
    · rintro ⟨e, he, hhas, hparse⟩
      have hisBase := Part.has_base hhas
      apply hafter.byteOrder
      by_cases hdeclared : ∃ o ∈ own, Part.byteOrder.has o.tag = true
      · obtain ⟨o, ho, hset⟩ := hdeclared
        have hmem : o ∈ own.filter fun e => !e.isAddressing && !e.isBit :=
          List.mem_filter.mpr ⟨ho, by simp [Element.base_not_bit (Part.has_base hset)]⟩
        refine .inr ⟨o, hmem, hset, ?_⟩
        have hread := (hbase o hmem).2
        obtain ⟨tag, attributes, content⟩ := o
        cases content with
        | none => cases hread
        | some text =>
          cases tag
          case endianness | endianess => exact hread
          all_goals cases hset
      · left
        have hmem : e ∈ shared := by
          rcases List.mem_append.mp he with h | h
          · exact h
          · exact absurd ⟨e, h, hhas⟩ hdeclared
        have hpassed : e.passedTo own = true := by
          cases hp : e.passedTo own with
          | true => rfl
          | false =>
            have hnot := @Part.not_has_of_dropped _ _ .byteOrder hp fun o ho => by
              cases h : Part.byteOrder.has o.tag with
              | false => rfl
              | true => exact absurd ⟨o, ho, h⟩ hdeclared
            rw [hhas] at hnot
            cases hnot
        apply foldlM_establishes (P := fun s => IntegerState.byteOrder s |>.isSome) _
          (List.mem_filter.mpr ⟨hmem, hpassed⟩) ?_ ?_ hs
        · exact fun s s' h => readOne_sets_order hhas hparse h
        · intro b hb s s' hsome h
          obtain ⟨hcontent, hkind⟩ := hshared b (List.mem_of_mem_filter hb)
          refine readOne_keeps_order ?_ hcontent h hsome
          rcases hkind with ⟨haddr, -⟩ | hbase
          · exact Element.addressing_not_bit haddr
          · exact (Element.base_not_bit hbase).1

theorem parse_abbreviated (hown : OnEntry own decl) :
    parseInteger (lit "MaskedIntReg") [("Name", name)] (abbreviated shared own) =
      parseInteger (lit "MaskedIntReg") [("Name", name)]
        ((shared.filter (·.passedTo own) ++
          own.filter fun e => !e.isAddressing && !e.isBit) ++ own.filter (·.isBit)) := by
  cases hname : nonBlank name with
  | none => simp only [parseInteger, attributeValueRequired, attributeValue_name, hname, bind,
      Except.bind]
  | some n =>
    rw [parseInteger_register (by decide) hname, parseInteger_register (by decide) hname]
    refine congrArg (· >>= _) ?_
    change (abbreviated shared own).foldlM (IntegerState.readOne n) _ =
      ((shared.filter _ ++ _) ++ _).foldlM (IntegerState.readOne n) _
    have hbits : (own.filter (!·.isAddressing)).filter (·.isBit) = own.filter (·.isBit) := by
      rw [List.filter_filter]
      apply List.filter_congr
      intro e _
      cases hbit : e.isBit with
      | false => rfl
      | true =>
        cases haddr : e.isAddressing with
        | false => rfl
        | true => simp [Element.addressing_not_bit haddr] at hbit
    have hbase : (own.filter (!·.isAddressing)).filter (!·.isBit) =
        own.filter fun e => !e.isAddressing && !e.isBit := by
      rw [List.filter_filter]
      exact List.filter_congr fun e _ => Bool.and_comm _ _
    rw [abbreviated, List.append_assoc, List.foldlM_append, List.foldlM_append]
    refine congrArg (_ >>= ·) (funext fun s => ?_)
    rw [masked_partition ?_ s, hbits, hbase]
    intro e he
    obtain ⟨hmem, hkeep⟩ := List.mem_filter.mp he
    rcases hown.partition hmem with h | ⟨hbit, haddr | h⟩
    · exact .inl ⟨h.1, h.2.2⟩
    · simp [haddr] at hkeep
    · exact .inr ⟨hbit, h.1, Element.started_of_readable h.2⟩

theorem node_abbreviates {data : StructEntryData} (hshared : ∀ e ∈ shared, e.onRegister)
    (hown : OnEntry own decl)
    (ht : (shared.map StructChild.element).foldlM StructState.readChild {} = .ok t)
    (hterms : t.terms ≠ []) (hdata : parseStructEntry [("Name", name)] own t.byteOrder = .ok data) :
    ((∃ d, parseInteger (lit "MaskedIntReg") [("Name", name)] (abbreviated shared own) = .ok d) ↔
      decl.Fits (t.length * 8) ∧ t.length < 2 ^ 29) ∧
    ∀ d, parseInteger (lit "MaskedIntReg") [("Name", name)] (abbreviated shared own) = .ok d →
      Abbreviates shared own
        (t.node { terms := t.terms, len := t.length, port := t.port, pLength := none } data) d := by
  obtain ⟨hname, u, hentry, hfield⟩ := parseStructEntry_own hown hdata
  obtain ⟨s, s', hshares, hafter, hread, horder⟩ :=
    @read_abbreviated data.name shared own decl t hshared hown ht
  have hconsecutive := entry_consecutive hown.bits
  have hholds := hshares.holds
  rw [← hafter.addressing] at hholds
  have hfinal : s'.addressing.finalize data.name (some 4) =
      .ok { terms := t.terms, len := t.length, port := t.port, pLength := none } := by
    rw [hholds.terms, hholds.length, hholds.port]
    have hne : s'.addressing.terms ≠ [] := hholds.terms ▸ hterms
    unfold AddressingBuilder.finalize
    rw [hholds.pLength]
    cases s'.addressing.length <;> simp [hne]
  have hnoBits : ∀ e ∈ shared.filter (·.passedTo own) ++
      own.filter fun e => !e.isAddressing && !e.isBit, e.isBit = false := by
    intro e he
    rcases List.mem_append.mp he with h | h
    · obtain ⟨-, ⟨haddr, -⟩ | hbase⟩ := hshared e (List.mem_of_mem_filter h)
      · exact Element.addressing_not_bit haddr
      · exact (Element.base_not_bit hbase).1
    · have hkeep := List.of_mem_filter h
      simp only [Bool.and_eq_true, Bool.not_eq_true'] at hkeep
      exact hkeep.2
  rw [parse_abbreviated hown]
  have hparse := fun d => parseMasked_ok (d := d) hname hnoBits hread hfinal hown.bits.declares
    hconsecutive
  simp only [entry_withinWidths hown.bits] at hparse
  refine ⟨⟨?_, ?_⟩, ?_⟩
  · rintro ⟨d, hd⟩
    obtain ⟨hfits, hlen, -⟩ := (hparse d).mp hd
    exact ⟨hfits, by omega⟩
  · rintro ⟨hfits, hlen⟩
    exact ⟨_, (hparse _).mpr ⟨hfits, by omega, rfl⟩⟩
  · intro d hd
    obtain ⟨hfits, -, rfl⟩ := (hparse d).mp hd
    have hwidth := ((BitDecl.fits_iff hconsecutive _).mp hfits).2.1
    have heq := hfield hwidth (t.length * 8)
    have hparts := fun part hstream => parts_agree hshares hown hafter hentry part hstream
    have hplain := fun (part : Part) (hne : part ≠ .streamable) =>
      hparts part fun h => absurd h hne
    have howned := hafter.ownValue.trans hshares.ownValue
    have hinvalidators := hentry.invalidators
    rw [invalidators_filter _ fun e _ hbase => by simp [Element.base_not_bit hbase]]
      at hinvalidators
    rw [heq]
    exact {
      name := rfl
      addressing := rfl
      len := rfl
      access := hplain .access (by decide)
      sign := hplain .sign (by decide)
      bitfield := congrArg (fun order => some (decl.field order (t.length * 8)))
        (hplain .byteOrder (by decide))
      byteOrder := fun hdeclares => by
        obtain ⟨order, horder⟩ := Option.isSome_iff_exists.mp (horder hdeclares)
        have hsame : u.byteOrder = s'.byteOrder.getD .little := hplain .byteOrder (by decide)
        have hnode : (decl.field u.byteOrder (t.length * 8)).byteOrder = u.byteOrder := by
          cases decl <;> rfl
        change (decl.field u.byteOrder (t.length * 8)).byteOrder = s'.byteOrder.getD .big
        rw [hnode, hsame, horder]
        rfl
      nodeMeta := by
        have hvisibility : u.nodeMeta.visibility.or t.sharedMeta.visibility =
            s'.nodeMeta.visibility := hplain .visibility (by decide)
        have hdescription : u.nodeMeta.description.or t.sharedMeta.description =
            s'.nodeMeta.description := hplain .description (by decide)
        have htooltip : u.nodeMeta.tooltip.or t.sharedMeta.tooltip = s'.nodeMeta.tooltip :=
          hplain .tooltip (by decide)
        have hdisplay : u.nodeMeta.displayName.or t.sharedMeta.displayName =
            s'.nodeMeta.displayName := hplain .displayName (by decide)
        have hrepresentation : u.nodeMeta.representation.or t.sharedMeta.representation =
            s'.nodeMeta.representation := hplain .representation (by decide)
        have himposed : u.nodeMeta.imposedAccess.or t.sharedMeta.imposedAccess =
            s'.nodeMeta.imposedAccess := hplain .imposedAccess (by decide)
        have hcachable : (u.nodeMeta.cachable.or t.sharedMeta.cachable).or t.cachable =
            s'.nodeMeta.cachable := hplain .cachable (by decide)
        have hpolling : (u.nodeMeta.pollingTimeMs.or t.sharedMeta.pollingTimeMs).or
            t.pollingTimeMs = s'.nodeMeta.pollingTimeMs := hplain .pollingTime (by decide)
        simp only [StructState.node, NodeMetaBuilder.build, NodeMetaBuilder.inherit, hvisibility,
          hdescription, htooltip, hdisplay, hrepresentation, himposed, hcachable, hpolling]
      streamable := fun hcond => hparts .streamable fun _ =>
        hcond.imp (fun hno => shared_not_streamable hshared hno ht) id
      value := by
        simp only [IntegerState.ownValue, OwnValue.mk.injEq] at howned
        obtain ⟨-, -, hinc, hpvalue, hpMax, hpMin, hpInc, hvalue⟩ := howned
        exact ⟨hinc.symm, hpvalue.symm, hpMax.symm, hpMin.symm, hpInc.symm, hvalue.symm, rfl⟩
      invalidators := by
        simp only [StructState.node, hinvalidators, shared_invalidators hshared ht]
        rfl
      invalidators_shared := fun hnone => by
        have hany : own.any (fun o => o.tag = .pInvalidator) = false := by
          simpa using hnone
        have hempty : own.filterMap Element.invalidator = [] :=
          List.filterMap_eq_nil_iff.mpr fun e he => by simp [Element.invalidator, hnone e he]
        have hmasked := hafter.invalidators
        rw [invalidators_filter _ fun e _ hbase => by simp [Element.base_not_bit hbase], hempty,
          List.append_nil, hshares.invalidators, if_neg (by simp [hany])] at hmasked
        simp only [StructState.node, hinvalidators, hempty, hmasked]
        rfl
      predicates := fun hnone => ((hafter.predicates fun e he => hnone e (by
        simp [List.mem_of_mem_filter he])).trans
          (hshares.predicates fun e he => hnone e (by simp [he]))).symm
      selected := fun hnone => ((hafter.selected fun e he => hnone e (by
        simp [List.mem_of_mem_filter he])).trans
          (hshares.selected fun e he => hnone e (by simp [he]))).symm
      unit := fun hnone => ((hafter.unit fun e he => hnone e (by
        simp [List.mem_of_mem_filter he])).trans
          (hshares.unit fun e he => hnone e (by simp [he]))).symm }

/-- The children of a structure: its register's elements, then its entries. -/
def structChildren (shared : List Element) (entries : List (Text × List Element)) :
    List StructChild :=
  shared.map StructChild.element ++ entries.map fun entry => .entry [("Name", entry.1)] entry.2

theorem read_entries {entries : List (Text × List Element)} {t' : StructState}
    (h : (entries.map fun entry => StructChild.entry [("Name", entry.1)] entry.2).foldlM
      StructState.readChild t = .ok t') :
    ∃ datas, List.Forall₂ (fun entry data =>
      parseStructEntry [("Name", entry.1)] entry.2 t.byteOrder = .ok data) entries datas ∧
        t' = { t with entries := t.entries ++ datas } := by
  induction entries generalizing t with
  | nil =>
    cases h
    exact ⟨[], .nil, by simp⟩
  | cons entry rest ih =>
    rw [List.map_cons, List.foldlM_cons] at h
    obtain ⟨mid, hmid, h⟩ := bind_eq_ok.mp h
    obtain ⟨data, hdata, hmid⟩ := bind_eq_ok.mp hmid
    cases hmid
    obtain ⟨datas, hall, rfl⟩ := ih h
    exact ⟨data :: datas, .cons hdata hall, by simp⟩

/-- The node of each entry of a structure is the one of the masked register it
abbreviates, which is accepted when the entry's bits fit the register. -/
theorem struct_entry_is_masked_register {shared : List Element}
    {entries : List (Text × List Element)} {nodes : List IntegerDecl}
    (hshared : ∀ e ∈ shared, e.onRegister)
    (h : parseStructReg (structChildren shared entries) = .ok nodes) :
    List.Forall₂ (fun entry node => ∀ decl : BitDecl, OnEntry entry.2 decl →
      ((∃ d, parseInteger (lit "MaskedIntReg") [("Name", entry.1)]
          (abbreviated shared entry.2) = .ok d) ↔
        decl.Fits (node.len * 8) ∧ node.len < 2 ^ 29) ∧
      ∀ d, parseInteger (lit "MaskedIntReg") [("Name", entry.1)]
          (abbreviated shared entry.2) = .ok d →
        Abbreviates shared entry.2 node d) entries nodes := by
  obtain ⟨t', ht', hnodes⟩ := bind_eq_ok.mp h
  rw [structChildren, List.foldlM_append] at ht'
  obtain ⟨t, ht, hentries⟩ := bind_eq_ok.mp ht'
  obtain ⟨datas, hall, rfl⟩ := read_entries hentries
  have hnone : t.entries = [] := elements_entries ht
  unfold StructState.declare at hnodes
  split at hnodes
  · cases hnodes
  · rename_i hterms
    cases hnodes
    simp only [hnone, List.nil_append]
    rw [List.forall₂_map_right_iff]
    refine hall.imp fun entry data hdata decl hown => ?_
    exact node_abbreviates hshared hown ht hterms hdata

/-- The elements of a register that gives its entries caching, byte order and visibility. -/
def sharedExample : List Element :=
  [⟨.address, [], some (lit "0x10")⟩, ⟨.length, [], some (lit "4")⟩,
    ⟨.endianess, [], some (lit "BigEndian")⟩, ⟨.cachable, [], some (lit "NoCache")⟩,
    ⟨.visibility, [], some (lit "Guru")⟩, ⟨.sign, [], some (lit "Unsigned")⟩]

/-- An entry with a sign of its own, between its bits. -/
def ownExample : List Element :=
  [⟨.lsb, [], some (lit "7")⟩, ⟨.sign, [], some (lit "Signed")⟩, ⟨.msb, [], some (lit "0")⟩]

theorem struct_entry_is_masked_register_inherited :
    ∃ node d, parseStructReg (structChildren sharedExample [(lit "Top", ownExample)]) =
        .ok [node] ∧
      parseInteger (lit "MaskedIntReg") [("Name", lit "Top")]
        (abbreviated sharedExample ownExample) = .ok d ∧
      node.sign = d.sign ∧ node.bitfield = d.bitfield ∧
        node.nodeMeta.visibility = d.nodeMeta.visibility := by
  have hsome : (parseStructReg (structChildren sharedExample [(lit "Top", ownExample)])).toOption.map
      (·.map IntegerDecl.len) = some [4] := by decide +kernel
  cases hnodes : parseStructReg (structChildren sharedExample [(lit "Top", ownExample)]) with
  | error err =>
    rw [hnodes] at hsome
    cases hsome
  | ok nodes =>
    have hrun := @struct_entry_is_masked_register sharedExample [(lit "Top", ownExample)] nodes
      ?_ hnodes
    · rw [hnodes] at hsome
      cases hrun with
      | cons hfirst hrest =>
        rename_i node rest
        cases hrest
        have hlens : some [node.len] = some [4] := hsome
        have hlen : node.len = 4 := by simpa using hlens
        obtain ⟨hiff, hsame⟩ := hfirst (.range 7 0) {
          element := by decide
          bits := {
            declares := .lsbMsb (.inl rfl) (.inl rfl) ⟨lit "7", rfl, by decide⟩
              ⟨lit "0", rfl, by decide⟩
            noMask := by decide
            started := by decide
            below := ⟨by decide, by decide⟩ } }
        rw [hlen] at hiff
        obtain ⟨d, hd⟩ := hiff.mpr ⟨⟨by decide, by decide, by decide⟩, by decide⟩
        have habbreviates := hsame d hd
        have hvisibility := congrArg NodeMeta.visibility habbreviates.nodeMeta
        exact ⟨node, d, rfl, hd, habbreviates.sign, habbreviates.bitfield, hvisibility⟩
    · intro e he
      simp only [sharedExample, List.mem_cons, List.not_mem_nil, or_false] at he
      rcases he with rfl | rfl | rfl | rfl | rfl | rfl
      · exact ⟨rfl, .inl ⟨rfl, ⟨by simp, by simp⟩⟩⟩
      · refine ⟨rfl, .inl ⟨rfl, ⟨by simp, ?_⟩⟩⟩
        rintro - text value htext hvalue
        cases htext
        have hfour : parseU64 (lit "4") = .ok 4 := by decide
        cases hfour.symm.trans hvalue
        decide
      all_goals exact ⟨rfl, .inr rfl⟩

/-- An entry's invalidators join its register's, and a masked register that has
the entry's own has no others. -/
theorem invalidators_joined :
    (parseStructReg (structChildren
      [⟨.address, [], some (lit "0x10")⟩, ⟨.length, [], some (lit "4")⟩,
        ⟨.pInvalidator, [], some (lit "Shared")⟩]
      [(lit "Bit", [⟨.bit, [], some (lit "0")⟩, ⟨.pInvalidator, [], some (lit "Own")⟩])])).map
        (·.map IntegerDecl.invalidators) = .ok [[lit "Shared", lit "Own"]] ∧
      (parseInteger (lit "MaskedIntReg") [("Name", lit "Bit")] (abbreviated
        [⟨.address, [], some (lit "0x10")⟩, ⟨.length, [], some (lit "4")⟩,
          ⟨.pInvalidator, [], some (lit "Shared")⟩]
        [⟨.bit, [], some (lit "0")⟩, ⟨.pInvalidator, [], some (lit "Own")⟩])).map
          IntegerDecl.invalidators = .ok [lit "Own"] :=
  ⟨by decide +kernel, by decide +kernel⟩

end VivaGenicam.GenapiXml
