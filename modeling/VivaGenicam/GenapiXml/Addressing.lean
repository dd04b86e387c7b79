import VivaGenicam.GenapiXml.Registered

/-!
Register addressing means the same on every register element: any two kinds of
register whose parsers read all the addressing elements of a document yield the
same register, or neither yields one.
-/

namespace VivaGenicam.GenapiXml

open Library.FoldM

/-- What an addressing element adds to the builder, unless it is refused. -/
structure Element.Adds (e : Element) (a a' : AddressingBuilder) : Prop where
  terms : a'.terms.length = a.terms.length + e.givesTerm.toNat
  length : a'.length.isSome = (a.length.isSome || (e.tag = .length ∧ e.content.isSome))
  pLength : a'.pLength.isSome = (a.pLength.isSome || (e.tag = .pLength ∧ e.content.isSome))

variable {name : Text} {a : AddressingBuilder}

theorem readAddress_adds {e : Element} {a' : AddressingBuilder}
    (h : readAddress name e a = .ok a') : e.Adds a a' := by
  obtain ⟨tag, attributes, content⟩ := e
  cases content with
  | none =>
    cases tag
    case pAddress =>
      simp only [readAddress, handleAddressingEmpty] at h
      cases hname : (attributeValue attributes "Name").bind nonBlank with
      | none =>
        rw [hname] at h
        cases h
        exact ⟨by simp [Element.givesTerm, hname], by simp, by simp⟩
      | some target =>
        rw [hname] at h
        cases h
        exact ⟨by simp [Element.givesTerm, hname, AddressingBuilder.pushPAddress],
          by simp [AddressingBuilder.pushPAddress], by simp [AddressingBuilder.pushPAddress]⟩
    case pIndex =>
      simp only [readAddress, handleAddressingEmpty] at h
      cases hname : (attributeValue attributes "Name").bind nonBlank with
      | none =>
        rw [hname] at h
        cases h
        exact ⟨by simp [Element.givesTerm, hname], by simp, by simp⟩
      | some target =>
        rw [hname] at h
        dsimp only at h
        cases hoffset : indexOffset ⟨.pIndex, attributes, none⟩ with
        | error err =>
          rw [hoffset] at h
          cases h
        | ok offset =>
          rw [hoffset] at h
          cases h
          exact ⟨by simp [Element.givesTerm, hname, AddressingBuilder.pushIndex],
            by simp [AddressingBuilder.pushIndex], by simp [AddressingBuilder.pushIndex]⟩
    all_goals
      cases h
      exact ⟨by simp [Element.givesTerm], by simp, by simp⟩
  | some text =>
    cases tag
    case address =>
      simp only [readAddress, handleAddressingStart] at h
      cases hvalue : parseAddress text with
      | error err =>
        rw [hvalue] at h
        cases h
      | ok value =>
        rw [hvalue] at h
        cases h
        exact ⟨by simp [Element.givesTerm, AddressingBuilder.pushFixedAddress],
          by simp [AddressingBuilder.pushFixedAddress],
          by simp [AddressingBuilder.pushFixedAddress]⟩
    case pAddress =>
      simp only [readAddress, handleAddressingStart] at h
      cases hname : nonBlank text with
      | none =>
        rw [hname] at h
        cases h
        exact ⟨by simp [Element.givesTerm, hname], by simp, by simp⟩
      | some target =>
        rw [hname] at h
        cases h
        exact ⟨by simp [Element.givesTerm, hname, AddressingBuilder.pushPAddress],
          by simp [AddressingBuilder.pushPAddress], by simp [AddressingBuilder.pushPAddress]⟩
    case pIndex =>
      simp only [readAddress, handleAddressingStart] at h
      cases hoffset : indexOffset ⟨.pIndex, attributes, some text⟩ with
      | error err =>
        rw [hoffset] at h
        cases h
      | ok offset =>
        rw [hoffset] at h
        cases hname : nonBlank text with
        | none =>
          rw [hname] at h
          cases h
          exact ⟨by simp [Element.givesTerm, hname], by simp, by simp⟩
        | some target =>
          rw [hname] at h
          cases h
          exact ⟨by simp [Element.givesTerm, hname, AddressingBuilder.pushIndex],
            by simp [AddressingBuilder.pushIndex], by simp [AddressingBuilder.pushIndex]⟩
    case intSwissKnife =>
      simp only [readAddress, handleAddressingStart] at h
      cases hknife : embeddedKnifeName ⟨.intSwissKnife, attributes, some text⟩ with
      | error err =>
        rw [hknife] at h
        cases h
      | ok knife =>
        rw [hknife] at h
        cases h
        exact ⟨by simp [Element.givesTerm, AddressingBuilder.pushPAddress],
          by simp [AddressingBuilder.pushPAddress], by simp [AddressingBuilder.pushPAddress]⟩
    case pPort =>
      simp only [readAddress, handleAddressingStart] at h
      cases hname : nonBlank text with
      | none =>
        rw [hname] at h
        cases h
        exact ⟨by simp [Element.givesTerm], by simp, by simp⟩
      | some target =>
        rw [hname] at h
        cases h
        exact ⟨by simp [Element.givesTerm, AddressingBuilder.setPort],
          by simp [AddressingBuilder.setPort], by simp [AddressingBuilder.setPort]⟩
    case length =>
      simp only [readAddress, handleAddressingStart] at h
      cases hlen : parseLength name text with
      | error err =>
        rw [hlen] at h
        cases h
      | ok len =>
        rw [hlen] at h
        cases h
        exact ⟨by simp [Element.givesTerm, AddressingBuilder.setLength],
          by simp [AddressingBuilder.setLength], by simp [AddressingBuilder.setLength]⟩
    case pLength =>
      simp only [readAddress, handleAddressingStart] at h
      cases hname : nonBlank text with
      | none =>
        rw [hname] at h
        cases h
      | some target =>
        rw [hname] at h
        cases h
        exact ⟨by simp [Element.givesTerm, AddressingBuilder.setPLength],
          by simp [AddressingBuilder.setPLength], by simp [AddressingBuilder.setPLength]⟩
    all_goals
      cases h
      exact ⟨by simp [Element.givesTerm], by simp, by simp⟩

variable {elements : List Element}

theorem terms_ne_nil (h : readAddresses name elements = .ok a) {e : Element} (he : e ∈ elements)
    (hterm : e.givesTerm = true) : a.terms ≠ [] := by
  apply foldlM_establishes (P := fun a => a.terms ≠ []) elements he ?_ ?_ h
  · intro s s' hs
    have hadds := (readAddress_adds hs).terms
    rw [hterm, Bool.toNat_true] at hadds
    exact List.ne_nil_of_length_pos (by omega)
  · intro b _ s s' hs hb
    have hadds := (readAddress_adds hb).terms
    exact List.ne_nil_of_length_pos (by have := List.length_pos_iff.mpr hs; omega)

theorem terms_eq_nil
    (h : readAddresses name elements = .ok a) (hterm : ∀ e ∈ elements, e.givesTerm = false) :
    a.terms = [] := by
  apply foldlM_preserves (P := fun a => AddressingBuilder.terms a = []) elements ?_ rfl h
  intro e he s s' hs hstep
  have hadds := (readAddress_adds hstep).terms
  rw [hterm e he, Bool.toNat_false, hs] at hadds
  exact List.eq_nil_of_length_eq_zero hadds

/-- A length or the node of one is declared, by an element with content. -/
def DeclaresLength (elements : List Element) : Prop :=
  ∃ e ∈ elements, (e.tag = .length ∨ e.tag = .pLength) ∧ e.content.isSome

theorem length_declared
    (h : readAddresses name elements = .ok a) (hdeclared : DeclaresLength elements) :
    a.length.isSome ∨ a.pLength.isSome := by
  obtain ⟨e, he, htag, hcontent⟩ := hdeclared
  apply foldlM_establishes (P := fun a => a.length.isSome ∨ a.pLength.isSome) elements he ?_ ?_ h
  · intro s s' hs
    have hadds := readAddress_adds hs
    rw [hadds.length, hadds.pLength]
    rcases htag with htag | htag
    · exact .inl (by simp [htag, hcontent])
    · exact .inr (by simp [htag, hcontent])
  · intro b _ s s' hs hb
    have hadds := readAddress_adds hb
    rw [hadds.length, hadds.pLength]
    rcases hs with hs | hs
    · exact .inl (by simp [hs])
    · exact .inr (by simp [hs])

theorem length_refused {name : Text} {elements : List Element} {e : Element} {text : Text}
    {value : Nat} (he : e ∈ elements) (htag : e.tag = .length) (hcontent : e.content = some text)
    (hvalue : parseU64 text = .ok value) (hlarge : 2 ^ 32 ≤ value) :
    ∃ err, readAddresses name elements = .error err := by
  cases h : readAddresses name elements with
  | error err => exact ⟨err, rfl⟩
  | ok a =>
    refine absurd (foldlM_establishes (P := fun _ => False) elements he ?_ (fun _ _ _ _ h _ => h) h)
      id
    intro s s' hs
    obtain ⟨tag, attributes, content⟩ := e
    cases htag
    cases hcontent
    simp only [readAddress, handleAddressingStart, parseLength, hvalue, bind, Except.bind] at hs
    rw [if_neg (by omega)] at hs
    cases hs

inductive RegisterKind where
  | intReg
  | maskedIntReg
  | floatReg
  | register
  | stringReg
  | structReg
deriving DecidableEq, Repr

namespace RegisterKind

variable {F : Type}

/-- The register an element of a kind yields for its addressing elements. A
masked register and a structure's entry also declare bit 0, after them. -/
def yields (floats : Floats F) (name : Text) (elements : List Element) :
    RegisterKind → Option Addressing
  | .intReg =>
    (parseInteger (lit "IntReg") [("Name", name)] elements).toOption.bind (·.addressing)
  | .maskedIntReg =>
    (parseInteger (lit "MaskedIntReg") [("Name", name)] (elements ++ bitZero)).toOption.bind
      (·.addressing)
  | .floatReg =>
    (parseFloat floats (lit "FloatReg") [("Name", name)] elements).toOption.bind (·.addressing)
  | .register => (parseRegister [("Name", name)] elements).toOption.map (·.addressing)
  | .stringReg =>
    (parseString (lit "StringReg") [("Name", name)] elements).toOption.bind (·.addressing)
  | .structReg =>
    (parseStructReg (elements.map StructChild.element ++
      [.entry [("Name", name)] bitZero])).toOption.bind
        fun nodes => nodes.head?.bind (·.addressing)

/-- The length of a register that declares none. -/
def defaultLen : RegisterKind → Nat
  | .intReg | .maskedIntReg | .structReg => 4
  | .floatReg => 8
  | .register | .stringReg => 0

/-- The documents whose addressing elements a kind's parser reads. An integer
register passes over a self-closed `pIndex` that names a node, a float register
and a structure over a `pLength`; a structure keeps 32 bits of a length; a
register and a string without an address element are put at address 0. -/
def Reads (elements : List Element) : RegisterKind → Prop
  | .intReg | .maskedIntReg => ∀ e ∈ elements, e.readByInteger
  | .floatReg => ∀ e ∈ elements, e.readByFloat
  | .register | .stringReg => ∃ e ∈ elements, e.givesTerm = true
  | .structReg => ∀ e ∈ elements, e.ReadByStruct

theorem yields_eq (floats : Floats F) {name n : Text} {elements : List Element}
    (hname : nonBlank name = some n) (haddr : ∀ e ∈ elements, e.isAddressing = true)
    {kind : RegisterKind} (hreads : kind.Reads elements) (hkind : kind ≠ .maskedIntReg) :
    kind.yields floats name elements =
      (readAddresses n elements).toOption.bind (·.located kind.defaultLen) := by
  have hbuilt : (∃ e ∈ elements, e.givesTerm = true) →
      (readAddresses n elements).toOption.map (·.build) =
        (readAddresses n elements).toOption.bind (·.located 0) := by
    rintro ⟨e, he, hterm⟩
    cases hall : readAddresses n elements with
    | error err => rfl
    | ok a =>
      have hne := terms_ne_nil hall he hterm
      change some a.build = a.located 0
      unfold AddressingBuilder.located AddressingBuilder.build
      simp only [hne, if_false, ite_self]
  cases kind with
  | intReg => exact intReg_register hname haddr hreads
  | maskedIntReg => exact absurd rfl hkind
  | floatReg => exact floatReg_register floats hname haddr hreads
  | register => exact (register_register hname haddr).trans (hbuilt hreads)
  | stringReg => exact (stringReg_register hname haddr).trans (hbuilt hreads)
  | structReg => exact structReg_register hname haddr hreads

end RegisterKind

/-- The same register, as far as its length is declared, or none at all. -/
def SameRegister (elements : List Element) : Option Addressing → Option Addressing → Prop
  | none, none => True
  | some a, some b => a.terms = b.terms ∧ a.port = b.port ∧ a.pLength = b.pLength ∧
      (DeclaresLength elements → a.len = b.len)
  | _, _ => False

theorem located_same {name : Text} {elements : List Element} (first second : Nat) :
    SameRegister elements ((readAddresses name elements).toOption.bind (·.located first))
      ((readAddresses name elements).toOption.bind (·.located second)) := by
  cases hall : readAddresses name elements with
  | error err => trivial
  | ok a =>
    change SameRegister elements (a.located first) (a.located second)
    unfold AddressingBuilder.located
    split
    · trivial
    · refine ⟨rfl, rfl, rfl, fun hdeclared => ?_⟩
      dsimp only
      rcases length_declared hall hdeclared with h | h
      · obtain ⟨len, hlen⟩ := Option.isSome_iff_exists.mp h
        rw [hlen]
        rfl
      · rw [h]
        rfl

/-- Any two kinds of register whose parsers read all the addressing elements of
a document yield the same register or none; only a masked register may be
refused alone, for a register without bytes or with 2^29 of them or more. None
of them yields a register without an address element or for a length that 32
bits do not hold. -/
theorem addressing_agrees {F : Type} (floats : Floats F) {name n : Text}
    (hname : nonBlank name = some n) (elements : List Element)
    (haddr : ∀ e ∈ elements, e.isAddressing = true) :
    (∀ first second : RegisterKind, first.Reads elements → second.Reads elements →
      first ≠ .maskedIntReg → second ≠ .maskedIntReg →
        SameRegister elements (first.yields floats name elements)
          (second.yields floats name elements)) ∧
    (∀ kind : RegisterKind, kind.Reads elements → RegisterKind.maskedIntReg.Reads elements →
      kind ≠ .maskedIntReg →
        SameRegister elements (RegisterKind.maskedIntReg.yields floats name elements)
          (kind.yields floats name elements) ∨
        RegisterKind.maskedIntReg.yields floats name elements = none ∧
          ∃ a, RegisterKind.intReg.yields floats name elements = some a ∧
            (a.len = 0 ∨ 2 ^ 29 ≤ a.len)) ∧
    (∀ kind : RegisterKind, kind.Reads elements →
      (∀ e ∈ elements, e.givesTerm = false) → kind.yields floats name elements = none) ∧
    (∀ kind : RegisterKind, kind.Reads elements →
      (∃ e ∈ elements, e.tag = .length ∧ ∃ text value, e.content = some text ∧
        parseU64 text = .ok value ∧ 2 ^ 32 ≤ value) →
        kind.yields floats name elements = none) := by
  have hmasked : RegisterKind.maskedIntReg.Reads elements →
      RegisterKind.maskedIntReg.yields floats name elements =
        ((readAddresses n elements).toOption.bind (·.located 4)).filter
          fun addr => 0 < addr.len ∧ addr.len < 2 ^ 29 :=
    fun hreads => maskedIntReg_register hname haddr hreads
  have hnone : ∀ kind : RegisterKind, kind.Reads elements →
      (∀ len, (readAddresses n elements).toOption.bind (·.located len) = none) →
        kind.yields floats name elements = none := by
    intro kind hreads hnone
    by_cases hkind : kind = .maskedIntReg
    · subst hkind
      rw [hmasked hreads, hnone]
      rfl
    · rw [RegisterKind.yields_eq floats hname haddr hreads hkind, hnone]
  refine ⟨?_, ?_, ?_, ?_⟩
  · intro first second hfirst hsecond hne hne'
    rw [RegisterKind.yields_eq floats hname haddr hfirst hne,
      RegisterKind.yields_eq floats hname haddr hsecond hne']
    exact located_same first.defaultLen second.defaultLen
  · intro kind hkind hreads hne
    have hint :=
      @RegisterKind.yields_eq F floats name n elements hname haddr .intReg hreads (by decide)
    rw [hmasked hreads, RegisterKind.yields_eq floats hname haddr hkind hne, hint]
    have hsame := @located_same n elements 4 kind.defaultLen
    change _ ∨ _ ∧ ∃ a, (readAddresses n elements).toOption.bind (·.located 4) = some a ∧ _
    cases hlocated : (readAddresses n elements).toOption.bind (·.located 4) with
    | none =>
      rw [hlocated] at hsame
      exact .inl hsame
    | some a =>
      rw [hlocated] at hsame
      simp only [Option.filter_some, decide_eq_true_eq]
      by_cases hlen : 0 < a.len ∧ a.len < 2 ^ 29
      · rw [if_pos hlen]
        exact .inl hsame
      · rw [if_neg hlen]
        exact .inr ⟨rfl, a, rfl, by omega⟩
  · intro kind hreads hterm
    apply hnone kind hreads
    intro len
    cases hall : readAddresses n elements with
    | error err => rfl
    | ok a =>
      have hnil := terms_eq_nil hall hterm
      change a.located len = none
      unfold AddressingBuilder.located
      rw [if_pos hnil]
  · rintro kind hreads ⟨e, he, htag, text, value, hcontent, hvalue, hlarge⟩
    apply hnone kind hreads
    intro len
    obtain ⟨err, herr⟩ := @length_refused n elements e text value he htag hcontent hvalue hlarge
    rw [herr]
    rfl

/-- Float text none of the elements below has. -/
def noFloats : Floats Unit where
  parse := fun _ => none
  isZero := fun _ => false
  millionths := fun _ => 0

theorem addressing_agrees_indexed :
    SameRegister
      [⟨.address, [], some (lit "0x10")⟩, ⟨.pIndex, [("Offset", lit "4")], some (lit "Selector")⟩,
        ⟨.length, [], some (lit "8")⟩]
      (RegisterKind.intReg.yields noFloats (lit "Gain")
        [⟨.address, [], some (lit "0x10")⟩,
          ⟨.pIndex, [("Offset", lit "4")], some (lit "Selector")⟩, ⟨.length, [], some (lit "8")⟩])
      (RegisterKind.floatReg.yields noFloats (lit "Gain")
        [⟨.address, [], some (lit "0x10")⟩,
          ⟨.pIndex, [("Offset", lit "4")], some (lit "Selector")⟩,
          ⟨.length, [], some (lit "8")⟩]) :=
  (@addressing_agrees Unit noFloats (lit "Gain") (lit "Gain") (by decide) _ (by decide)).1
    .intReg .floatReg (by simp [RegisterKind.Reads, Element.readByInteger])
    (by simp [RegisterKind.Reads, Element.readByFloat]) (by decide) (by decide)

/-- A masked register of 2^29 bytes is refused where an integer register is not;
a float register drops the node its length comes from; a structure keeps 32 bits
of its length; and a raw register without an address is put at address 0. -/
theorem registers_disagree :
    (RegisterKind.intReg.yields noFloats (lit "R")
        [⟨.address, [], some (lit "0")⟩, ⟨.length, [], some (lit "0x20000000")⟩] =
      some { terms := [.fixed 0], len := 2 ^ 29, port := none, pLength := none } ∧
    RegisterKind.maskedIntReg.yields noFloats (lit "R")
        [⟨.address, [], some (lit "0")⟩, ⟨.length, [], some (lit "0x20000000")⟩] = none) ∧
    (RegisterKind.intReg.yields noFloats (lit "R")
        [⟨.address, [], some (lit "0")⟩, ⟨.pLength, [], some (lit "L")⟩] =
      some { terms := [.fixed 0], len := 0, port := none, pLength := some (lit "L") } ∧
    RegisterKind.floatReg.yields noFloats (lit "R")
        [⟨.address, [], some (lit "0")⟩, ⟨.pLength, [], some (lit "L")⟩] =
      some { terms := [.fixed 0], len := 8, port := none, pLength := none }) ∧
    RegisterKind.structReg.yields noFloats (lit "R")
        [⟨.address, [], some (lit "0")⟩, ⟨.length, [], some (lit "0x100000004")⟩] =
      some { terms := [.fixed 0], len := 4, port := none, pLength := none } ∧
    RegisterKind.register.yields noFloats (lit "R") [⟨.length, [], some (lit "4")⟩] =
      some { terms := [.fixed 0], len := 4, port := none, pLength := none } :=
  ⟨⟨by decide +kernel, by decide +kernel⟩, ⟨by decide +kernel, by decide +kernel⟩,
    by decide +kernel, by decide +kernel⟩

end VivaGenicam.GenapiXml
