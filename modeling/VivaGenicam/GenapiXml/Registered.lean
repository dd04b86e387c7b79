import VivaGenicam.GenapiXml.DeclaredBits

/-!
The register an element yields. The six parsers of registers read the elements
that say where a register lies; each is compared with the fold of the shared
handlers over these elements.
-/

namespace VivaGenicam.GenapiXml

open Library.FoldM

/-- The elements that say where a register lies and how long it is. -/
def Element.isAddressing (e : Element) : Bool :=
  match e.tag with
  | .address | .pAddress | .pIndex | .intSwissKnife | .pPort | .length | .pLength => true
  | _ => false

/-- An element that adds a term to the address, unless it is refused. -/
def Element.givesTerm (e : Element) : Bool :=
  match e.content, e.tag with
  | some _, .address | some _, .intSwissKnife => true
  | some text, .pAddress | some text, .pIndex => (nonBlank text).isSome
  | none, .pAddress | none, .pIndex => ((attributeValue e.attributes "Name").bind nonBlank).isSome
  | _, _ => false

/-- What the shared handlers read of a register's elements. -/
def readAddresses (name : Text) (elements : List Element) : Except XmlError AddressingBuilder :=
  elements.foldlM (fun a e => readAddress name e a) {}

/-- The register a builder stands for, if it has an address. -/
def AddressingBuilder.located (a : AddressingBuilder) (defaultLen : Nat) : Option Addressing :=
  if a.terms = [] then none
  else some {
    terms := a.terms, len := a.length.getD (if a.pLength.isSome then 0 else defaultLen)
    port := a.port, pLength := a.pLength }

theorem finalize_toOption (a : AddressingBuilder) (name : Text) (defaultLen : Nat) :
    (a.finalize name (some defaultLen)).toOption = a.located defaultLen := by
  unfold AddressingBuilder.finalize AddressingBuilder.located
  cases hlength : a.length with
  | some len =>
    simp only [Option.some_or, Option.getD_some]
    split <;> rfl
  | none =>
    cases hp : a.pLength with
    | some node =>
      simp only [Option.isSome_some, if_true, Option.none_or, Option.getD_none]
      split <;> rfl
    | none =>
      simp only [Option.isSome_none, Bool.false_eq_true, if_false, Option.none_or,
        Option.getD_none]
      split <;> rfl

/-- A self-closed index names no node: only the shared handler reads one that does. -/
def Element.readByInteger (e : Element) : Prop :=
  e.tag = .pIndex → e.content = none → attributeValue e.attributes "Name" = none

theorem readOne_agrees {name : Text} {e : Element} {s : IntegerState} (hs : s.NoField)
    (haddr : e.isAddressing = true) (hread : e.readByInteger) :
    Agree (fun s' a' => s'.addressing = a' ∧ s'.NoField) (s.readOne name e)
      (readAddress name e s.addressing) := by
  have hbit : e.isBit = false := by
    obtain ⟨tag, attributes, content⟩ := e
    cases tag <;> first | rfl | cases haddr
  have hvalue : e.isValue = false := by
    obtain ⟨tag, attributes, content⟩ := e
    cases tag <;> first | rfl | cases haddr
  unfold IntegerState.readOne readAddress
  cases hcontent : e.content with
  | some text =>
    change Agree _ (s.readElement name e text) _
    dsimp only
    cases hstart : handleAddressingStart name e text s.addressing with
    | ok r =>
      obtain ⟨s', hs'⟩ := IntegerState.readElement_ok hbit hvalue hs.pending hstart
      have hreads := IntegerState.readElement_reads hbit hs.pending hs'
      obtain ⟨r', hr', haddressing⟩ := hreads.addressing
      cases hstart.symm.trans hr'
      rw [hs']
      exact ⟨haddressing, hs.readElement hbit hs'⟩
    | error err =>
      cases hs' : s.readElement name e text with
      | error err' => trivial
      | ok s' =>
        obtain ⟨r', hr', -⟩ := (IntegerState.readElement_reads hbit hs.pending hs').addressing
        cases hstart.symm.trans hr'
  | none =>
    dsimp only
    obtain ⟨tag, attributes, content⟩ := e
    cases tag
    case pAddress => exact ⟨rfl, hs.bitfield, hs.pending, hs.indexed⟩
    case pIndex =>
      have hname : attributeValue attributes "Name" = none := hread rfl hcontent
      simp only [handleAddressingEmpty, hname]
      exact ⟨rfl, hs.bitfield, hs.pending, hs.indexed⟩
    case address | intSwissKnife | pPort | length | pLength =>
      exact ⟨rfl, hs.bitfield, hs.pending, hs.indexed⟩
    all_goals cases haddr

theorem readChildren_agrees {name : Text} {elements : List Element} {s : IntegerState}
    (hs : s.NoField) (haddr : ∀ e ∈ elements, e.isAddressing = true)
    (hread : ∀ e ∈ elements, e.readByInteger) :
    Agree (fun s' a' => s'.addressing = a' ∧ s'.NoField)
      (readChildren (IntegerState.readStart true name) (IntegerState.readEmpty name) s elements)
      (elements.foldlM (fun a e => readAddress name e a) s.addressing) := by
  apply foldlM_agree elements _ ⟨rfl, hs⟩
  rintro e he s a ⟨rfl, hs⟩
  exact readOne_agrees hs (haddr e he) (hread e he)

theorem declare_noField {s : IntegerState} (hs : s.NoField) (name : Text) :
    ∃ d, s.declare name = .ok d ∧ d.addressing = s.addressing.located 4 := by
  have hplace : ∃ r, s.place name s.addressing = .ok r ∧ r.1 = s.addressing.located 4 := by
    rw [← finalize_toOption s.addressing name 4]
    unfold IntegerState.place
    cases s.addressing.finalize name (some 4) with
    | ok addr =>
      simp only [hs.bitfield, BitfieldBuilder.isDeclared, Option.isSome_none, Bool.false_eq_true,
        and_false, if_false]
      exact ⟨_, rfl, rfl⟩
    | error err => exact ⟨_, rfl, rfl⟩
  obtain ⟨r, hr, haddr⟩ := hplace
  exact ⟨_, (declare_ok hs.indexed).mpr ⟨r, hr, rfl⟩, haddr⟩

variable {name n : Text} {elements : List Element}

theorem intReg_register (hname : nonBlank name = some n)
    (haddr : ∀ e ∈ elements, e.isAddressing = true) (hread : ∀ e ∈ elements, e.readByInteger) :
    (parseInteger (lit "IntReg") [("Name", name)] elements).toOption.bind (·.addressing) =
      (readAddresses n elements).toOption.bind (·.located 4) := by
  have hagree := @readChildren_agrees n elements _ (IntegerState.noField_init {}) haddr hread
  change Agree _ _ (readAddresses n elements) at hagree
  rw [parseInteger_register (by decide) hname]
  cases hall : readAddresses n elements with
  | error err =>
    rw [hall] at hagree
    obtain ⟨err', herr⟩ := agree_error_iff.mp hagree
    rw [herr]
    rfl
  | ok a =>
    rw [hall] at hagree
    obtain ⟨s, hs, rfl, hno⟩ := agree_ok_iff.mp hagree
    obtain ⟨d, hd, haddressing⟩ := declare_noField hno n
    rw [hs]
    change (s.declare n).toOption.bind _ = _
    rw [hd]
    exact haddressing

/-- The bit elements that stand after the addressing: bit 0 of the register. -/
def bitZero : List Element := [⟨.lsb, [], some (lit "0")⟩, ⟨.msb, [], some (lit "0")⟩]

theorem declares_bitZero : Declares bitZero (.range 0 0) :=
  .lsbMsb (.inl rfl) (.inl rfl) ⟨lit "0", rfl, by decide⟩ ⟨lit "0", rfl, by decide⟩

theorem bitZero_fits (order : ByteOrder) (len : Nat) :
    (BitDecl.range 0 0).Fits (len * 8) ∧ (BitDecl.range 0 0).WithinWidths order (len * 8) ↔
      0 < len ∧ len < 2 ^ 29 := by
  rw [BitDecl.fits_iff (BitDecl.consecutive_range 0 0)]
  unfold BitDecl.WithinWidths
  have hoffset : (BitDecl.field order (len * 8) (.range 0 0)).bitOffset = 0 := by
    cases order <;> rfl
  rw [hoffset]
  simp only [BitDecl.span, Nat.min_self, Nat.max_self]
  omega

theorem declare_bitZero {s : IntegerState} {order : Option ByteOrder} (name : Text)
    (hindexed : s.indexed = {}) (hbuilder : s.bitfield = (BitDecl.range 0 0).builder order) :
    (s.declare name).toOption.bind (·.addressing) =
      (s.addressing.located 4).filter fun addr => 0 < addr.len ∧ addr.len < 2 ^ 29 := by
  rw [← finalize_toOption s.addressing name 4]
  cases hfinal : s.addressing.finalize name (some 4) with
  | error err =>
    have hplace : s.place name s.addressing =
        .ok (none, 4, (s.bitfield.finish name 4).toOption.join) := by
      rw [IntegerState.place, hfinal]
    rw [(declare_ok hindexed).mpr ⟨_, hplace, rfl⟩]
    rfl
  | ok addr =>
    have hplace := @place_ok s name order (.range 0 0) s.addressing addr
    have hfits := bitZero_fits (order.getD .little) addr.len
    change _ = (some addr).filter _
    simp only [Option.filter_some, decide_eq_true_eq]
    by_cases hlen : 0 < addr.len ∧ addr.len < 2 ^ 29
    · have hr := (hplace hfinal hbuilder (BitDecl.consecutive_range 0 0)).mpr
        ⟨(hfits.mpr hlen).1, (hfits.mpr hlen).2, rfl⟩
      rw [(declare_ok hindexed).mpr ⟨_, hr, rfl⟩, if_pos hlen]
      rfl
    · rw [if_neg hlen]
      cases hdeclare : s.declare name with
      | error err => rfl
      | ok d =>
        obtain ⟨r, hr, -⟩ := (declare_ok hindexed).mp hdeclare
        obtain ⟨hfit, hwidths, -⟩ :=
          (hplace hfinal hbuilder (BitDecl.consecutive_range 0 0)).mp hr
        exact absurd (hfits.mp ⟨hfit, hwidths⟩) hlen

/-- A masked register of bit 0 is refused where an integer register would have
no bytes, or too many to count their bits. -/
theorem maskedIntReg_register
    (hname : nonBlank name = some n) (haddr : ∀ e ∈ elements, e.isAddressing = true)
    (hread : ∀ e ∈ elements, e.readByInteger) :
    (parseInteger (lit "MaskedIntReg") [("Name", name)] (elements ++ bitZero)).toOption.bind
        (·.addressing) =
      ((readAddresses n elements).toOption.bind (·.located 4)).filter
        fun addr => 0 < addr.len ∧ addr.len < 2 ^ 29 := by
  have hagree := @readChildren_agrees n elements _ (IntegerState.noField_init {}) haddr hread
  change Agree _ _ (readAddresses n elements) at hagree
  rw [parseInteger_register (by decide) hname]
  cases hall : readAddresses n elements with
  | error err =>
    rw [hall] at hagree
    obtain ⟨err', herr⟩ := agree_error_iff.mp hagree
    rw [readChildren_append_error herr]
    rfl
  | ok a =>
    rw [hall] at hagree
    obtain ⟨s, hs, rfl, hno⟩ := agree_ok_iff.mp hagree
    obtain ⟨pending, hbits⟩ := @read_declaration n s _ _ hno declares_bitZero
    rw [readChildren_append hs, (hbits _).mpr ⟨⟨by decide, by decide⟩, rfl⟩]
    exact declare_bitZero n hno.indexed rfl

variable {F : Type}

/-- The parser of a float register passes over a `pLength`. -/
def Element.readByFloat (e : Element) : Prop := e.tag = .pLength → e.content = none

theorem FloatState.readAddressing_agrees (s : FloatState F) (name : Text) (e : Element)
    (text : Text) :
    Agree (fun s' a' => s'.addressing = a' ∧ s'.indexed = s.indexed) (s.readAddressing name e text)
      ((handleAddressingStart name e text s.addressing).map (·.getD s.addressing)) := by
  unfold FloatState.readAddressing
  cases handleAddressingStart name e text s.addressing with
  | error err => trivial
  | ok r =>
    cases r with
    | none => exact ⟨rfl, rfl⟩
    | some a => exact ⟨rfl, rfl⟩

theorem FloatState.readEmpty_agrees (s : FloatState F) (e : Element) :
    Agree (fun s' a' => s'.addressing = a' ∧ s'.indexed = s.indexed) (s.readEmpty e)
      ((handleAddressingEmpty e s.addressing).map (·.getD s.addressing)) := by
  unfold FloatState.readEmpty
  cases handleAddressingEmpty e s.addressing with
  | error err => trivial
  | ok r =>
    cases r with
    | none => exact ⟨rfl, rfl⟩
    | some a => exact ⟨rfl, rfl⟩

theorem floatReg_register (floats : Floats F)
    (hname : nonBlank name = some n) (haddr : ∀ e ∈ elements, e.isAddressing = true)
    (hread : ∀ e ∈ elements, e.readByFloat) :
    (parseFloat floats (lit "FloatReg") [("Name", name)] elements).toOption.bind (·.addressing) =
      (readAddresses n elements).toOption.bind (·.located 8) := by
  have hagree : Agree (fun (s : FloatState F) a => s.addressing = a ∧ s.indexed = {})
      (readChildren (FloatState.readStart floats true n) FloatState.readEmpty { addressing := {} }
        elements) (readAddresses n elements) := by
    refine foldlM_agree elements ?_ ⟨rfl, rfl⟩
    rintro e he s a ⟨rfl, hindexed⟩
    have himp : ∀ (s' : FloatState F) (a' : AddressingBuilder),
        s'.addressing = a' ∧ s'.indexed = s.indexed → s'.addressing = a' ∧ s'.indexed = {} :=
      fun _ _ h => ⟨h.1, h.2.trans hindexed⟩
    unfold readAddress
    cases hcontent : e.content with
    | none => exact (s.readEmpty_agrees e).mono himp
    | some text =>
      have hlength := hread e he
      have hmine := haddr e he
      have hagree := (s.readAddressing_agrees n e text).mono himp
      obtain ⟨tag, attributes, content⟩ := e
      cases tag
      case pLength => cases (hlength rfl).symm.trans hcontent
      case address | pAddress | pIndex | intSwissKnife | pPort | length => exact hagree
      all_goals cases hmine
  have hparse : parseFloat floats (lit "FloatReg") [("Name", name)] elements =
      readChildren (FloatState.readStart floats true n) FloatState.readEmpty { addressing := {} }
        elements >>= fun s => s.declare true n := by
    simp only [parseFloat, attributeValueRequired, attributeValue_name, hname]
    rfl
  rw [hparse]
  cases hall : readAddresses n elements with
  | error err =>
    rw [hall] at hagree
    obtain ⟨err', herr⟩ := agree_error_iff.mp hagree
    rw [herr]
    rfl
  | ok a =>
    rw [hall] at hagree
    obtain ⟨s, hs, rfl, hindexed⟩ := agree_ok_iff.mp hagree
    rw [hs]
    have hfinish : s.indexed.finish n s.addressing = .ok (none, s.addressing) := by
      rw [hindexed]
      rfl
    change (s.declare true n).toOption.bind _ = _
    simp only [FloatState.declare, hfinish]
    exact finalize_toOption s.addressing n 8

theorem RegisterState.readOne_agrees {name : Text} {e : Element} (s : RegisterState)
    (haddr : e.isAddressing = true) :
    Agree (fun s' a' => RegisterState.addressing s' = a')
      (match e.content with
        | some text => s.readStart name e text
        | none => s.readEmpty e) (readAddress name e s.addressing) := by
  unfold readAddress
  cases e.content with
  | none =>
    dsimp only
    unfold RegisterState.readEmpty
    cases handleAddressingEmpty e s.addressing with
    | error err => trivial
    | ok r => cases r <;> rfl
  | some text =>
    have hstart : s.readStart name e text =
        handleAddressingStart name e text s.addressing >>= fun r =>
          r.elim (pure (s.readShared e text)) fun addressing => pure { s with addressing } := by
      obtain ⟨tag, attributes, content⟩ := e
      cases tag
      case accessMode => cases haddr
      all_goals
        refine congrArg (handleAddressingStart name _ text s.addressing >>= ·) (funext fun r => ?_)
        cases r with
        | none => rfl
        | some addressing => rfl
    dsimp only
    rw [hstart]
    cases handleAddressingStart name e text s.addressing with
    | error err => trivial
    | ok r =>
      cases r with
      | some a => rfl
      | none =>
        change (s.readShared e text).addressing = s.addressing
        unfold RegisterState.readShared
        split
        · rfl
        · split <;> rfl

theorem register_register
    (hname : nonBlank name = some n) (haddr : ∀ e ∈ elements, e.isAddressing = true) :
    (parseRegister [("Name", name)] elements).toOption.map (·.addressing) =
      (readAddresses n elements).toOption.map (·.build) := by
  have hagree : Agree (fun s a => RegisterState.addressing s = a)
      (readChildren (RegisterState.readStart n) RegisterState.readEmpty {} elements)
      (readAddresses n elements) := by
    refine foldlM_agree elements ?_ rfl
    rintro e he s a rfl
    exact s.readOne_agrees (haddr e he)
  simp only [parseRegister, attributeValueRequired, attributeValue_name, hname]
  change (readChildren _ _ _ _ >>= _).toOption.map _ = _
  cases hall : readAddresses n elements with
  | error err =>
    rw [hall] at hagree
    obtain ⟨err', herr⟩ := agree_error_iff.mp hagree
    rw [herr]
    rfl
  | ok a =>
    rw [hall] at hagree
    obtain ⟨s, hs, rfl⟩ := agree_ok_iff.mp hagree
    rw [hs]
    rfl

theorem stringReg_register
    (hname : nonBlank name = some n) (haddr : ∀ e ∈ elements, e.isAddressing = true) :
    (parseString (lit "StringReg") [("Name", name)] elements).toOption.bind (·.addressing) =
      (readAddresses n elements).toOption.map (·.build) := by
  have hagree : Agree (fun (s : StringState) a => s.register.addressing = a)
      (readChildren (StringState.readStart true n) (StringState.readEmpty true)
        { register := { access := .ro } } elements) (readAddresses n elements) := by
    refine foldlM_agree elements ?_ rfl
    rintro e he s a rfl
    have hregister := @RegisterState.readOne_agrees n e s.register (haddr e he)
    have hstart : ∀ text, s.readStart true n e text =
        (s.register.readStart n e text).map fun register => { s with register } := by
      intro text
      simp only [StringState.readStart, not_true_eq_false, and_false, if_false]
      cases s.register.readStart n e text <;> rfl
    have hempty : s.readEmpty true e =
        (s.register.readEmpty e).map fun register => { s with register } := by
      simp only [StringState.readEmpty, not_true_eq_false, and_false, if_false]
      cases s.register.readEmpty e <;> rfl
    cases hcontent : e.content with
    | some text =>
      simp only [hcontent, hstart] at hregister ⊢
      revert hregister
      cases s.register.readStart n e text <;> cases readAddress n e s.register.addressing <;>
        exact id
    | none =>
      simp only [hcontent, hempty] at hregister ⊢
      revert hregister
      cases s.register.readEmpty e <;> cases readAddress n e s.register.addressing <;> exact id
  have hparse : parseString (lit "StringReg") [("Name", name)] elements =
      readChildren (StringState.readStart true n) (StringState.readEmpty true)
        { register := { access := .ro } } elements >>= fun s => s.declare true n := by
    simp only [parseString, attributeValueRequired, attributeValue_name, hname]
    rfl
  rw [hparse]
  cases hall : readAddresses n elements with
  | error err =>
    rw [hall] at hagree
    obtain ⟨err', herr⟩ := agree_error_iff.mp hagree
    rw [herr]
    rfl
  | ok a =>
    rw [hall] at hagree
    obtain ⟨s, hs, rfl⟩ := agree_ok_iff.mp hagree
    rw [hs]
    rfl

/-- A structure's parser passes over a `pLength` and keeps 32 bits of a length. -/
structure Element.ReadByStruct (e : Element) : Prop where
  noPLength : e.tag = .pLength → e.content = none
  length : e.tag = .length → ∀ text value, e.content = some text → parseU64 text = .ok value →
    value < 2 ^ 32

/-- The structure's parser holds what the builder does. -/
structure StructState.Holds (t : StructState) (a : AddressingBuilder) : Prop where
  terms : t.terms = a.terms
  port : t.port = a.port
  length : t.length = a.length.getD 4
  pLength : a.pLength = none

theorem StructState.readChild_agrees {name : Text} {e : Element} {t : StructState}
    {a : AddressingBuilder} (h : t.Holds a) (haddr : e.isAddressing = true)
    (hread : e.ReadByStruct) :
    Agree StructState.Holds (t.readChild (.element e)) (readAddress name e a) := by
  obtain ⟨hterms, hport, hlength, hp⟩ := h
  obtain ⟨hnoP, hwide⟩ := hread
  obtain ⟨tag, attributes, content⟩ := e
  cases content with
  | none =>
    cases tag
    case pAddress =>
      simp only [readChild, readEmpty, readAddress, handleAddressingEmpty]
      cases (attributeValue attributes "Name").bind nonBlank with
      | none => exact ⟨by simp [hterms], hport, hlength, hp⟩
      | some target =>
        exact ⟨by simp [hterms, AddressingBuilder.pushPAddress], hport, hlength, hp⟩
    case pIndex =>
      simp only [readChild, readEmpty, readAddress, handleAddressingEmpty]
      cases (attributeValue attributes "Name").bind nonBlank with
      | none => exact ⟨hterms, hport, hlength, hp⟩
      | some target =>
        dsimp only
        cases indexOffset ⟨.pIndex, attributes, none⟩ with
        | error err => trivial
        | ok offset =>
          exact ⟨by simp [hterms, AddressingBuilder.pushIndex], hport, hlength, hp⟩
    case address | intSwissKnife | pPort | length | pLength =>
      exact ⟨hterms, hport, hlength, hp⟩
    all_goals cases haddr
  | some text =>
    cases tag
    case address =>
      simp only [readChild, readStart, readAddress, handleAddressingStart]
      cases parseAddress text with
      | error err => trivial
      | ok address =>
        exact ⟨by simp [hterms, AddressingBuilder.pushFixedAddress], hport, hlength, hp⟩
    case pAddress =>
      simp only [readChild, readStart, readAddress, handleAddressingStart]
      cases nonBlank text with
      | none => exact ⟨by simp [hterms], hport, hlength, hp⟩
      | some target =>
        exact ⟨by simp [hterms, AddressingBuilder.pushPAddress], hport, hlength, hp⟩
    case pIndex =>
      simp only [readChild, readStart, readAddress, handleAddressingStart]
      cases indexOffset ⟨.pIndex, attributes, some text⟩ with
      | error err => trivial
      | ok offset =>
        cases nonBlank text with
        | none => exact ⟨by simp [hterms], hport, hlength, hp⟩
        | some target =>
          exact ⟨by simp [hterms, AddressingBuilder.pushIndex], hport, hlength, hp⟩
    case intSwissKnife =>
      simp only [readChild, readStart, readAddress, handleAddressingStart]
      cases embeddedKnifeName ⟨.intSwissKnife, attributes, some text⟩ with
      | error err => trivial
      | ok knife =>
        exact ⟨by simp [hterms, AddressingBuilder.pushPAddress], hport, hlength, hp⟩
    case pPort =>
      simp only [readChild, readStart, readAddress, handleAddressingStart, reference]
      cases nonBlank text with
      | none => exact ⟨hterms, hport, hlength, hp⟩
      | some target => exact ⟨hterms, rfl, hlength, hp⟩
    case length =>
      simp only [readChild, readStart, readAddress, handleAddressingStart, parseLength]
      cases hvalue : parseU64 text with
      | error err => trivial
      | ok value =>
        have hlt := hwide rfl text value rfl hvalue
        simp only [bind, Except.bind, hlt, if_true]
        exact ⟨hterms, hport, Nat.mod_eq_of_lt hlt, hp⟩
    case pLength => cases hnoP rfl
    all_goals cases haddr

theorem structReg_reads {name : Text} {elements : List Element}
    (haddr : ∀ e ∈ elements, e.isAddressing = true) (hread : ∀ e ∈ elements, e.ReadByStruct) :
    Agree StructState.Holds ((elements.map StructChild.element).foldlM StructState.readChild {})
      (readAddresses name elements) := by
  rw [List.foldlM_map]
  refine foldlM_agree elements ?_ ⟨rfl, rfl, rfl, rfl⟩
  intro e he t a h
  exact StructState.readChild_agrees h (haddr e he) (hread e he)

theorem structReg_register
    (hname : nonBlank name = some n) (haddr : ∀ e ∈ elements, e.isAddressing = true)
    (hread : ∀ e ∈ elements, e.ReadByStruct) :
    (parseStructReg (elements.map StructChild.element ++
        [.entry [("Name", name)] bitZero])).toOption.bind
        (fun nodes => nodes.head?.bind (·.addressing)) =
      (readAddresses n elements).toOption.bind (·.located 4) := by
  have hagree := @structReg_reads n elements haddr hread
  simp only [parseStructReg, List.foldlM_append]
  cases hall : readAddresses n elements with
  | error err =>
    rw [hall] at hagree
    obtain ⟨err', herr⟩ := agree_error_iff.mp hagree
    rw [herr]
    rfl
  | ok a =>
    rw [hall] at hagree
    obtain ⟨t, ht, hterms, hport, hlength, hp⟩ := agree_ok_iff.mp hagree
    have hentry : EntryBits bitZero (.range 0 0) :=
      ⟨declares_bitZero, by decide, by decide, ⟨by decide, by decide⟩⟩
    have hempty : t.entries = [] := elements_entries ht
    have hchild : t.readChild (.entry [("Name", name)] bitZero) = .ok { t with
        entries := [{ name := n, bitfield := BitDecl.field t.byteOrder 8 (.range 0 0)
                      access := none, sign := none, nodeMeta := {}, invalidators := [] }] } := by
      simp only [StructState.readChild, parseStructEntry_ok hname hentry (by decide) 8, hempty]
      rfl
    simp only [ht, bind, Except.bind, List.foldlM_cons, hchild, List.foldlM_nil]
    simp only [pure, Except.pure, StructState.declare]
    change _ = a.located 4
    unfold AddressingBuilder.located
    rw [← hterms]
    by_cases hnone : t.terms = []
    · rw [if_pos hnone, if_pos hnone]
      rfl
    · rw [if_neg hnone, if_neg hnone, hp, ← hport]
      change some (Addressing.mk t.terms t.length t.port none) = _
      rw [hlength]
      rfl

end VivaGenicam.GenapiXml
