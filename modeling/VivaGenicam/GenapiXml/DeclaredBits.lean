import VivaGenicam.GenapiXml.BitFields

/-!
A declared bit field denotes the document's bits. A masked register is accepted
when its bits fit it and the widths they are counted in, and its field then
selects them; a structure's entry that declares the same bits has the same
field.
-/

namespace VivaGenicam.GenapiXml

open Library.FoldM Library.Bits Genapi

/-- The number an element gives: its text, or its `Value` when it closes itself. -/
def Element.numberText (e : Element) : Option Text :=
  match e.content with
  | some text => some text
  | none => attributeValue e.attributes "Value"

def Element.Gives (e : Element) (value : Nat) : Prop :=
  ∃ text, e.numberText = some text ∧ parseU64 text = .ok value

def Element.isLsb (e : Element) : Prop := e.tag = .lsb ∨ e.tag = .lsbMixed

def Element.isMsb (e : Element) : Prop := e.tag = .msb ∨ e.tag = .msbMixed

/-- The elements of one declaration. -/
inductive Declares : List Element → BitDecl → Prop where
  | lsbMsb {lsb msb : Element} {l m : Nat} (hlsb : lsb.isLsb) (hmsb : msb.isMsb)
      (hl : lsb.Gives l) (hm : msb.Gives m) : Declares [lsb, msb] (.range l m)
  | msbLsb {lsb msb : Element} {l m : Nat} (hlsb : lsb.isLsb) (hmsb : msb.isMsb)
      (hl : lsb.Gives l) (hm : msb.Gives m) : Declares [msb, lsb] (.range l m)
  | bit {bit : Element} {index : Nat} (hbit : bit.tag = .bit) (hindex : bit.Gives index) :
      Declares [bit] (.bit index)
  | mask {mask : Element} {value : Nat} (hmask : mask.tag = .mask) (hvalue : mask.Gives value) :
      Declares [mask] (.mask value)

/-- Every bit index of a declaration is below `bound`. -/
def BitDecl.Below (bound : Nat) : BitDecl → Prop
  | .range lsb msb => lsb < bound ∧ msb < bound
  | .bit index => index < bound
  | .mask _ => True

def IntegerState.readOne (name : Text) (s : IntegerState) (e : Element) :
    Except XmlError IntegerState :=
  match e.content with
  | some text => readStart true name e text s
  | none => readEmpty name e s

theorem readChildren_cons (name : Text) (s : IntegerState) (e : Element) (rest : List Element) :
    readChildren (IntegerState.readStart true name) (IntegerState.readEmpty name) s (e :: rest) =
      s.readOne name e >>= fun s' =>
        readChildren (IntegerState.readStart true name) (IntegerState.readEmpty name) s' rest := by
  simp only [readChildren, List.foldlM_cons]
  rfl

variable {name text : Text} {e : Element}

theorem readOne_of_isBit (s : IntegerState)
    (hbit : e.isBit = true) (htext : e.numberText = some text) :
    s.readOne name e = s.readElement name e text := by
  obtain ⟨tag, attributes, content⟩ := e
  cases content with
  | some given =>
    cases htext
    rfl
  | none =>
    simp only [Element.numberText] at htext
    cases tag
    case lsb | lsbMixed | msb | msbMixed | bit | mask =>
      simp only [IntegerState.readOne, IntegerState.readEmpty, htext]
      rfl
    all_goals cases hbit

variable {value : Nat}

theorem parseBitIndex_eq_ok {problem : String} {index : Nat} (h : parseU64 text = .ok value) :
    parseBitIndex name text problem = .ok index ↔ value < 2 ^ 32 ∧ index = value := by
  simp only [parseBitIndex, h, bind, Except.bind]
  split
  · rename_i hlt
    simp only [hlt, true_and]
    constructor
    · intro h
      cases h
      rfl
    · rintro rfl
      rfl
  · rename_i hge
    simp only [hge, false_and, iff_false]
    exact nofun

variable {s' : IntegerState}

theorem readIndex_eq_ok {problem : String}
    {next : Nat → IntegerState} (h : parseU64 text = .ok value) :
    (parseBitIndex name text problem >>= fun index => pure (next index)) = .ok s' ↔
      value < 2 ^ 32 ∧ s' = next value := by
  rw [bind_eq_ok]
  constructor
  · rintro ⟨index, hindex, hend⟩
    obtain ⟨hlt, rfl⟩ := (parseBitIndex_eq_ok h).mp hindex
    cases hend
    exact ⟨hlt, rfl⟩
  · rintro ⟨hlt, rfl⟩
    exact ⟨value, (parseBitIndex_eq_ok h).mpr ⟨hlt, rfl⟩, rfl⟩

variable {s : IntegerState}

theorem readOne_lsb (htag : e.isLsb) (hvalue : e.Gives value) :
    s.readOne name e = .ok s' ↔
      value < 2 ^ 32 ∧ s' = { s with bitfield := s.bitfield.noteLsb value } := by
  obtain ⟨text, htext, hparse⟩ := hvalue
  obtain ⟨tag, attributes, content⟩ := e
  rcases htag with h | h
  all_goals
    cases h
    rw [readOne_of_isBit s rfl htext]
    exact readIndex_eq_ok hparse

theorem readOne_msb (htag : e.isMsb) (hvalue : e.Gives value) :
    s.readOne name e = .ok s' ↔
      value < 2 ^ 32 ∧ s' = { s with bitfield := s.bitfield.noteMsb value } := by
  obtain ⟨text, htext, hparse⟩ := hvalue
  obtain ⟨tag, attributes, content⟩ := e
  rcases htag with h | h
  all_goals
    cases h
    rw [readOne_of_isBit s rfl htext]
    exact readIndex_eq_ok hparse

theorem readOne_bit (htag : e.tag = .bit) (hvalue : e.Gives value) :
    s.readOne name e = .ok s' ↔ value < 2 ^ 32 ∧
      s' = { s with bitfield := s.bitfield.noteBit value, pendingBitLength := true } := by
  obtain ⟨text, htext, hparse⟩ := hvalue
  obtain ⟨tag, attributes, content⟩ := e
  cases htag
  rw [readOne_of_isBit s rfl htext]
  exact readIndex_eq_ok hparse

theorem readOne_mask (htag : e.tag = .mask) (hvalue : e.Gives value) :
    s.readOne name e = .ok s' ↔
      s' = { s with bitfield := s.bitfield.noteMask value, pendingBitLength := false } := by
  obtain ⟨text, htext, hparse⟩ := hvalue
  obtain ⟨tag, attributes, content⟩ := e
  cases htag
  rw [readOne_of_isBit s rfl htext]
  change (parseU64 text >>= fun mask => _) = _ ↔ _
  rw [hparse]
  constructor
  · intro h
    cases h
    rfl
  · rintro rfl
    rfl

/-- What a declaration does to a parser that has met no bits: it is refused for
an index of more than 32 bits, and otherwise held as it stands. -/
theorem read_declaration {name : Text} {s : IntegerState} {bits : List Element} {decl : BitDecl}
    (hs : s.NoField) (h : Declares bits decl) :
    (∃ pending, ∀ s',
      readChildren (IntegerState.readStart true name) (IntegerState.readEmpty name) s bits =
        .ok s' ↔ decl.Below (2 ^ 32) ∧
          s' = { s with bitfield := decl.builder s.byteOrder, pendingBitLength := pending }) := by
  have hfield := hs.bitfield
  cases h with
  | lsbMsb hlsb hmsb hl hm =>
    refine ⟨s.pendingBitLength, fun s' => ?_⟩
    rw [readChildren_cons, bind_eq_ok]
    simp only [readOne_lsb hlsb hl]
    constructor
    · rintro ⟨mid, ⟨hlt, rfl⟩, hrest⟩
      rw [readChildren_cons, bind_eq_ok] at hrest
      obtain ⟨last, hlast, hend⟩ := hrest
      obtain ⟨hlt', rfl⟩ := (readOne_msb hmsb hm).mp hlast
      cases hend
      refine ⟨⟨hlt, hlt'⟩, ?_⟩
      rw [hfield]
      rfl
    · rintro ⟨⟨hlt, hlt'⟩, rfl⟩
      refine ⟨_, ⟨hlt, rfl⟩, ?_⟩
      rw [readChildren_cons, bind_eq_ok]
      refine ⟨_, (readOne_msb hmsb hm).mpr ⟨hlt', rfl⟩, ?_⟩
      rw [hfield]
      rfl
  | msbLsb hlsb hmsb hl hm =>
    refine ⟨s.pendingBitLength, fun s' => ?_⟩
    rw [readChildren_cons, bind_eq_ok]
    simp only [readOne_msb hmsb hm]
    constructor
    · rintro ⟨mid, ⟨hlt, rfl⟩, hrest⟩
      rw [readChildren_cons, bind_eq_ok] at hrest
      obtain ⟨last, hlast, hend⟩ := hrest
      obtain ⟨hlt', rfl⟩ := (readOne_lsb hlsb hl).mp hlast
      cases hend
      refine ⟨⟨hlt', hlt⟩, ?_⟩
      rw [hfield]
      rfl
    · rintro ⟨⟨hlt, hlt'⟩, rfl⟩
      refine ⟨_, ⟨hlt', rfl⟩, ?_⟩
      rw [readChildren_cons, bind_eq_ok]
      refine ⟨_, (readOne_lsb hlsb hl).mpr ⟨hlt, rfl⟩, ?_⟩
      rw [hfield]
      rfl
  | bit hbit hindex =>
    refine ⟨true, fun s' => ?_⟩
    rw [readChildren_cons, bind_eq_ok]
    simp only [readOne_bit hbit hindex]
    constructor
    · rintro ⟨mid, ⟨hlt, rfl⟩, hend⟩
      cases hend
      refine ⟨hlt, ?_⟩
      rw [hfield]
      rfl
    · rintro ⟨hlt, rfl⟩
      refine ⟨_, ⟨hlt, rfl⟩, ?_⟩
      rw [hfield]
      rfl
  | mask hmask hvalue =>
    refine ⟨false, fun s' => ?_⟩
    rw [readChildren_cons, bind_eq_ok]
    simp only [readOne_mask hmask hvalue]
    constructor
    · rintro ⟨mid, rfl, hend⟩
      cases hend
      refine ⟨trivial, ?_⟩
      rw [hfield]
      rfl
    · rintro ⟨-, rfl⟩
      refine ⟨_, rfl, ?_⟩
      rw [hfield]
      rfl

theorem attributeValue_name (name : Text) :
    attributeValue [("Name", name)] "Name" = nonBlank name := rfl

theorem parseInteger_register {nodeName n : Text} (hnode : nodeName ≠ lit "Integer")
    (hname : nonBlank name = some n) (children : List Element) :
    parseInteger nodeName [("Name", name)] children =
      readChildren (IntegerState.readStart true n) (IntegerState.readEmpty n)
        { addressing := {} } children >>= fun s => s.declare n := by
  have hregister : decide (nodeName ≠ lit "Integer") = true := by simp [hnode]
  simp only [parseInteger, attributeValueRequired, attributeValue_name, hname, hregister,
    attributeAddressing]
  rfl

/-- What a masked register's parser has read before its bit elements: a length,
a byte order and an address, and no bits. -/
structure MaskedHeader (name : Text) (before : List Element) (len : Nat) (order : ByteOrder)
    (s : IntegerState) : Prop where
  noBits : ∀ e ∈ before, e.isBit = false
  reads : readChildren (IntegerState.readStart true name) (IntegerState.readEmpty name)
    { addressing := {} } before = .ok s
  terms : s.addressing.terms ≠ []
  length : s.addressing.length = some len
  byteOrder : s.byteOrder = some order

theorem finalize_eq {a : AddressingBuilder} (node : Text) {len : Nat} (defaultLen : Option Nat)
    (hterms : a.terms ≠ []) (hlength : a.length = some len) :
    a.finalize node defaultLen =
      .ok { terms := a.terms, len, port := a.port, pLength := a.pLength } := by
  simp only [AddressingBuilder.finalize, hlength, Option.some_or, hterms, if_false]

theorem place_ok {s : IntegerState} {name : Text} {order : Option ByteOrder} {decl : BitDecl}
    {a : AddressingBuilder} {addr : Addressing} {r : Option Addressing × Nat × Option BitField}
    (hfinal : a.finalize name (some 4) = .ok addr) (hbuilder : s.bitfield = decl.builder order)
    (hconsecutive : decl.Consecutive) :
    s.place name a = .ok r ↔
      decl.Fits (addr.len * 8) ∧ decl.WithinWidths (order.getD .little) (addr.len * 8) ∧
        r = (some addr, addr.len, some (decl.field (order.getD .little) (addr.len * 8))) := by
  rw [IntegerState.place, hfinal]
  dsimp only
  split
  · rename_i hzero
    simp only [reduceCtorEq, false_iff]
    intro h
    obtain ⟨hpos, -, hinside⟩ := (BitDecl.fits_iff hconsecutive _).mp h.1
    omega
  · rw [map_eq_ok, hbuilder]
    constructor
    · rintro ⟨bf, hfinish, rfl⟩
      obtain ⟨hfits, hwidths, rfl⟩ := (finish_ok_iff name order _ hconsecutive).mp hfinish
      exact ⟨hfits, hwidths, rfl⟩
    · rintro ⟨hfits, hwidths, rfl⟩
      exact ⟨_, (finish_ok_iff name order _ hconsecutive).mpr ⟨hfits, hwidths, rfl⟩, rfl⟩

theorem declare_ok {d : IntegerDecl} (hindexed : s.indexed = {}) :
    s.declare name = .ok d ↔ ∃ r, s.place name s.addressing = .ok r ∧ d = {
      name, nodeMeta := s.nodeMeta.build, addressing := r.1, len := r.2.1, access := s.access
      min := s.min, max := s.max, inc := s.inc, unit := s.unit
      bitfield := r.2.2, sign := s.sign, byteOrder := s.byteOrder.getD .big
      selected := s.selected, pvalue := s.pvalue, pMax := s.pMax, pMin := s.pMin
      pInc := s.pInc, value := s.staticValue, indexed := none
      predicates := s.predicates, invalidators := s.invalidators } := by
  have hfinish : s.indexed.finish name s.addressing = .ok (none, s.addressing) := by
    rw [hindexed]
    rfl
  simp only [IntegerState.declare, hfinish]
  change (s.place name s.addressing >>= fun r => _) = _ ↔ _
  rw [bind_eq_ok]
  constructor
  · rintro ⟨r, hr, h⟩
    cases h
    exact ⟨r, hr, rfl⟩
  · rintro ⟨r, hr, rfl⟩
    exact ⟨r, hr, rfl⟩

/-- The node of a masked register: there is one exactly when the declaration
fits, and its field is the declaration's. -/
theorem parseMasked_ok {n : Text} {before bits : List Element} {decl : BitDecl}
    {addr : Addressing} {d : IntegerDecl} (hname : nonBlank name = some n)
    (hnoBits : ∀ e ∈ before, e.isBit = false)
    (hreads : readChildren (IntegerState.readStart true n) (IntegerState.readEmpty n)
      { addressing := {} } before = .ok s)
    (hfinal : s.addressing.finalize n (some 4) = .ok addr) (hdecl : Declares bits decl)
    (hconsecutive : decl.Consecutive) :
    parseInteger (lit "MaskedIntReg") [("Name", name)] (before ++ bits) = .ok d ↔
      decl.Fits (addr.len * 8) ∧ decl.WithinWidths (s.byteOrder.getD .little) (addr.len * 8) ∧
        d = {
          name := n, nodeMeta := s.nodeMeta.build, addressing := some addr, len := addr.len
          access := s.access, min := s.min, max := s.max, inc := s.inc, unit := s.unit
          bitfield := some (decl.field (s.byteOrder.getD .little) (addr.len * 8))
          sign := s.sign, byteOrder := s.byteOrder.getD .big
          selected := s.selected, pvalue := s.pvalue, pMax := s.pMax, pMin := s.pMin
          pInc := s.pInc, value := s.staticValue, indexed := none
          predicates := s.predicates, invalidators := s.invalidators } := by
  have hs := (IntegerState.noField_init {}).readChildren hnoBits hreads
  obtain ⟨pending, hbits⟩ := read_declaration hs hdecl
  rw [parseInteger_register (by decide) hname]
  rw [readChildren_append hreads, bind_eq_ok]
  constructor
  · rintro ⟨s', hs', hdeclare⟩
    obtain ⟨-, rfl⟩ := (hbits s').mp hs'
    obtain ⟨r, hplace, rfl⟩ := (declare_ok (by exact hs.indexed)).mp hdeclare
    obtain ⟨hfits, hwidths, rfl⟩ := (place_ok hfinal rfl hconsecutive).mp hplace
    exact ⟨hfits, hwidths, rfl⟩
  · rintro ⟨hfits, hwidths, rfl⟩
    have hbelow : decl.Below (2 ^ 32) := by
      have hinside := hfits.2.2
      have htotal := hwidths.1
      cases decl with
      | range lsb msb =>
        have hlow := hinside (min lsb msb) (List.mem_range'_1.mpr ⟨by omega, by omega⟩)
        have hhigh := hinside (max lsb msb) (List.mem_range'_1.mpr ⟨by omega, by omega⟩)
        exact ⟨by omega, by omega⟩
      | bit index => exact (hinside index (by simp [BitDecl.indices])).trans htotal
      | mask value => trivial
    refine ⟨_, (hbits _).mpr ⟨hbelow, rfl⟩, ?_⟩
    apply (declare_ok (by exact hs.indexed)).mpr
    exact ⟨_, (place_ok hfinal rfl hconsecutive).mpr ⟨hfits, hwidths, rfl⟩, rfl⟩

/-- What a structure's parser has read before an entry. -/
structure StructHeader (before : List Element) (len : Nat) (order : ByteOrder) (t : StructState) :
    Prop where
  reads : (before.map StructChild.element).foldlM StructState.readChild {} = .ok t
  terms : t.terms ≠ []
  length : t.length = len
  byteOrder : t.byteOrder = order

variable {t t' : StructState}

theorem readStart_entries
    (h : t.readStart e text = .ok t') : t'.entries = t.entries := by
  obtain ⟨tag, attributes, content⟩ := e
  cases tag
  case address | pIndex | intSwissKnife | length =>
    simp only [StructState.readStart, bind_eq_ok] at h
    obtain ⟨_, _, h⟩ := h
    cases h
    rfl
  all_goals
    cases h
    rfl

theorem readEmpty_entries (h : t.readEmpty e = .ok t') :
    t'.entries = t.entries := by
  obtain ⟨tag, attributes, content⟩ := e
  cases tag
  case pIndex =>
    simp only [StructState.readEmpty] at h
    split at h
    · rw [bind_eq_ok] at h
      obtain ⟨_, _, h⟩ := h
      cases h
      rfl
    · cases h
      rfl
  all_goals
    cases h
    rfl

theorem elements_entries {elements : List Element}
    (h : (elements.map StructChild.element).foldlM StructState.readChild t = .ok t') :
    t'.entries = t.entries := by
  refine foldlM_preserves (P := fun u => u.entries = t.entries) _ ?_ rfl h
  intro child hchild u u' hu h
  obtain ⟨e, -, rfl⟩ := List.mem_map.mp hchild
  simp only [StructState.readChild] at h
  split at h
  · rw [readStart_entries h, hu]
  · rw [readEmpty_entries h, hu]

theorem parseU16_ok (h : parseU64 text = .ok value)
    (hlt : value < 2 ^ 16) : parseU16 text = .ok value := by
  simp only [parseU16, h, Except.map, Nat.mod_eq_of_lt hlt]

theorem entry_lsb {s : StructEntryState} (htag : e.isLsb)
    (hstarted : e.content.isSome) (hvalue : e.Gives value) (hlt : value < 2 ^ 16) :
    ∃ text, e.content = some text ∧ s.readStart e text = .ok { s with lsb := some value } := by
  obtain ⟨text, htext, hparse⟩ := hvalue
  obtain ⟨tag, attributes, content⟩ := e
  cases content with
  | none => cases hstarted
  | some given =>
    cases htext
    refine ⟨text, rfl, ?_⟩
    rcases htag with h | h
    all_goals
      cases h
      simp only [StructEntryState.readStart, parseU16_ok hparse hlt]
      rfl

theorem entry_msb {s : StructEntryState} (htag : e.isMsb)
    (hstarted : e.content.isSome) (hvalue : e.Gives value) (hlt : value < 2 ^ 16) :
    ∃ text, e.content = some text ∧ s.readStart e text = .ok { s with msb := some value } := by
  obtain ⟨text, htext, hparse⟩ := hvalue
  obtain ⟨tag, attributes, content⟩ := e
  cases content with
  | none => cases hstarted
  | some given =>
    cases htext
    refine ⟨text, rfl, ?_⟩
    rcases htag with h | h
    all_goals
      cases h
      simp only [StructEntryState.readStart, parseU16_ok hparse hlt]
      rfl

theorem entry_bit {s : StructEntryState} (htag : e.tag = .bit)
    (hstarted : e.content.isSome) (hvalue : e.Gives value) (hlt : value < 2 ^ 16) :
    ∃ text, e.content = some text ∧ s.readStart e text = .ok { s with bit := some value } := by
  obtain ⟨text, htext, hparse⟩ := hvalue
  obtain ⟨tag, attributes, content⟩ := e
  cases content with
  | none => cases hstarted
  | some given =>
    cases htext
    cases htag
    refine ⟨text, rfl, ?_⟩
    simp only [StructEntryState.readStart, parseU16_ok hparse hlt]
    rfl

/-- A declaration a structure's entry can make: `LSB` and `MSB` or `Bit`, in
elements with content, of indices that 16 bits hold. -/
structure EntryBits (bits : List Element) (decl : BitDecl) : Prop where
  declares : Declares bits decl
  noMask : decl.source ≠ .mask
  started : ∀ e ∈ bits, e.content.isSome
  below : decl.Below (2 ^ 16)

theorem read_entryBits {bits : List Element} {decl : BitDecl} (h : EntryBits bits decl)
    (hwidth : decl.span.2 ≤ 64) (total : Nat) (name : Text) (s : StructEntryState)
    (hbit : s.bit = none) :
    ∃ s', readChildren StructEntryState.readStart StructEntryState.readEmpty s bits = .ok s' ∧
      s'.field name = .ok (decl.field s.byteOrder total) ∧
      s' = { s with lsb := s'.lsb, msb := s'.msb, bit := s'.bit } := by
  obtain ⟨hdeclares, hmask, hstarted, hbelow⟩ := h
  cases hdeclares with
  | @lsbMsb lsb msb l m hl hm hgl hgm =>
    obtain ⟨textL, hcL, hrL⟩ := entry_lsb (s := s) hl (hstarted _ (by simp)) hgl hbelow.1
    obtain ⟨textM, hcM, hrM⟩ := entry_msb (s := { s with lsb := some _ }) hm
      (hstarted _ (by simp)) hgm hbelow.2
    refine ⟨{ s with lsb := some l, msb := some m }, ?_, ?_, rfl⟩
    · simp only [readChildren, List.foldlM_cons, hcL, hrL, hcM]
      change (StructEntryState.readStart _ _ _ >>= _) = _
      rw [hrM]
      rfl
    · simp only [BitDecl.span] at hwidth
      simp only [StructEntryState.field, hbit, BitDecl.field, BitDecl.source, BitDecl.span]
      rw [Nat.mod_eq_of_lt (by omega)]
      cases s.byteOrder <;> rfl
  | @msbLsb lsb msb l m hl hm hgl hgm =>
    obtain ⟨textM, hcM, hrM⟩ := entry_msb (s := s) hm (hstarted _ (by simp)) hgm hbelow.2
    obtain ⟨textL, hcL, hrL⟩ := entry_lsb (s := { s with msb := some _ }) hl
      (hstarted _ (by simp)) hgl hbelow.1
    refine ⟨{ s with lsb := some l, msb := some m }, ?_, ?_, rfl⟩
    · simp only [readChildren, List.foldlM_cons, hcM, hrM, hcL]
      change (StructEntryState.readStart _ _ _ >>= _) = _
      rw [hrL]
      rfl
    · simp only [BitDecl.span] at hwidth
      simp only [StructEntryState.field, hbit, BitDecl.field, BitDecl.source, BitDecl.span]
      rw [Nat.mod_eq_of_lt (by omega)]
      cases s.byteOrder <;> rfl
  | @bit bit index htag hgives =>
    obtain ⟨text, hc, hr⟩ := entry_bit (s := s) htag (hstarted _ (by simp)) hgives hbelow
    refine ⟨{ s with bit := some index }, ?_, ?_, rfl⟩
    · simp only [readChildren, List.foldlM_cons, hc, hr]
      rfl
    · simp only [StructEntryState.field, BitDecl.field, BitDecl.source, BitDecl.span]
      cases s.byteOrder <;> rfl
  | mask htag hgives => exact absurd rfl hmask

theorem parseStructEntry_ok {name n : Text} {bits : List Element} {decl : BitDecl}
    {order : ByteOrder} (hname : nonBlank name = some n) (h : EntryBits bits decl)
    (hwidth : decl.span.2 ≤ 64) (total : Nat) :
    parseStructEntry [("Name", name)] bits order = .ok {
      name := n, bitfield := decl.field order total, access := none, sign := none
      nodeMeta := {}, invalidators := [] } := by
  obtain ⟨s', hread, hfield, hs'⟩ :=
    read_entryBits h hwidth total n { byteOrder := order } rfl
  simp only [parseStructEntry, attributeValueRequired, attributeValue_name, hname, hread]
  change (s'.field n >>= _) = _
  rw [hfield, hs']
  rfl

/-- A declaration of consecutive bits on a masked register is accepted exactly
when it names 1 to 64 bits inside the register, at places the widths of the
field's numbers reach, and the field built then selects exactly these bits of
any payload of up to eight bytes. A structure's entry that declares the same
bits has the same field. -/
theorem declared_bits_exact {name n : Text} {before bits : List Element} {decl : BitDecl}
    {len : Nat} {order : ByteOrder} {s : IntegerState} (hname : nonBlank name = some n)
    (hheader : MaskedHeader n before len order s) (hdecl : Declares bits decl)
    (hconsecutive : decl.Consecutive) :
    ((∃ d, parseInteger (lit "MaskedIntReg") [("Name", name)] (before ++ bits) = .ok d) ↔
      decl.Fits (len * 8) ∧ decl.WithinWidths order (len * 8)) ∧
    ∀ d, parseInteger (lit "MaskedIntReg") [("Name", name)] (before ++ bits) = .ok d →
      (∃ bf, d.bitfield = some bf ∧ ∀ bytes : List UInt8, bytes.length = len →
        (len ≤ 8 → extract bytes bf =
          .ok (Library.Bits.pick (registerValue order bytes) (decl.positions order (len * 8)))) ∧
        (8 < len → extract bytes bf = .error (.unsupportedWidth len))) ∧
      ∀ (shared : List Element) (t : StructState) (entry m : Text),
        StructHeader shared len order t → nonBlank entry = some m → EntryBits bits decl →
          ∃ node, parseStructReg
            (shared.map StructChild.element ++ [.entry [("Name", entry)] bits]) = .ok [node] ∧
              node.bitfield = d.bitfield := by
  have hparse := fun d => parseMasked_ok (d := d) hname hheader.noBits hheader.reads
    (finalize_eq n (some 4) hheader.terms hheader.length) hdecl hconsecutive
  simp only [hheader.byteOrder, Option.getD_some] at hparse
  refine ⟨⟨?_, ?_⟩, ?_⟩
  · rintro ⟨d, hd⟩
    obtain ⟨hfits, hwidths, -⟩ := (hparse d).mp hd
    exact ⟨hfits, hwidths⟩
  · rintro ⟨hfits, hwidths⟩
    exact ⟨_, (hparse _).mpr ⟨hfits, hwidths, rfl⟩⟩
  · intro d hd
    obtain ⟨hfits, -, rfl⟩ := (hparse d).mp hd
    refine ⟨⟨_, rfl, ?_⟩, ?_⟩
    · rintro bytes rfl
      exact ⟨extract_field hconsecutive hfits, extract_wide _⟩
    · intro shared t entry m hshared hentry hbits
      have hwidth := ((BitDecl.fits_iff hconsecutive _).mp hfits).2.1
      have hstruct := @parseStructEntry_ok entry m bits decl order hentry hbits hwidth (len * 8)
      have hempty : t.entries = [] := elements_entries hshared.reads
      refine ⟨t.node { terms := t.terms, len := t.length, port := t.port, pLength := none } {
        name := m, bitfield := decl.field order (len * 8), access := none, sign := none
        nodeMeta := {}, invalidators := [] }, ?_, rfl⟩
      have hchild : t.readChild (.entry [("Name", entry)] bits) = .ok { t with
          entries := [{ name := m, bitfield := decl.field order (len * 8), access := none
                        sign := none, nodeMeta := {}, invalidators := [] }] } := by
        simp only [StructState.readChild, hshared.byteOrder, hstruct, hempty]
        rfl
      simp only [parseStructReg, List.foldlM_append, hshared.reads, bind, Except.bind,
        List.foldlM_cons, hchild, List.foldlM_nil]
      simp only [pure, Except.pure, StructState.declare, hshared.terms, if_false]
      rfl

/-- The top byte of a big-endian register of four bytes, by its first and last bit. -/
theorem declared_bits_exact_top_byte :
    ∃ d, parseInteger (lit "MaskedIntReg") [("Name", lit "Top")]
        ([⟨.address, [], some (lit "0x10")⟩, ⟨.length, [], some (lit "4")⟩,
          ⟨.endianess, [], some (lit "BigEndian")⟩] ++
        [⟨.lsb, [], some (lit "7")⟩, ⟨.msb, [], some (lit "0")⟩]) = .ok d ∧
      ∃ bf, d.bitfield = some bf ∧ extract [0xA5, 0, 0, 1] bf = .ok 0xA5 := by
  have hexact := @declared_bits_exact (lit "Top") (lit "Top")
    [⟨.address, [], some (lit "0x10")⟩, ⟨.length, [], some (lit "4")⟩,
      ⟨.endianess, [], some (lit "BigEndian")⟩]
    [⟨.lsb, [], some (lit "7")⟩, ⟨.msb, [], some (lit "0")⟩]
    (.range 7 0) 4 .big _ (by decide)
    { noBits := by decide, reads := rfl, terms := by decide, length := rfl, byteOrder := rfl }
    (.lsbMsb (.inl rfl) (.inl rfl) ⟨lit "7", rfl, by decide⟩ ⟨lit "0", rfl, by decide⟩)
    (BitDecl.consecutive_range 7 0)
  obtain ⟨d, hd⟩ := hexact.1.mpr
    ⟨⟨by decide, by decide, by decide⟩, by decide, by decide, by decide⟩
  obtain ⟨⟨bf, hbf, hextract⟩, -⟩ := hexact.2 d hd
  refine ⟨d, hd, bf, hbf, ?_⟩
  rw [(hextract [0xA5, 0, 0, 1] rfl).1 (by decide)]
  decide

/-- A bit past 65535 inside its register is refused, and a structure's entry
takes an index past its register for another, 65536 lower. -/
theorem bit_refused_and_bit_reduced :
    (BitDecl.bit 65600).Fits (8201 * 8) ∧
    parseInteger (lit "MaskedIntReg") [("Name", lit "Far")]
      [⟨.address, [], some (lit "0")⟩, ⟨.length, [], some (lit "8201")⟩,
        ⟨.endianess, [], some (lit "LittleEndian")⟩, ⟨.bit, [], some (lit "65600")⟩] =
      .error (.invalid (lit "Far") "declares a bit offset past bit 65535") ∧
    ¬(BitDecl.bit 65541).Fits (4 * 8) ∧
    (parseStructReg [.element ⟨.address, [], some (lit "0")⟩,
      .element ⟨.length, [], some (lit "4")⟩,
      .element ⟨.endianess, [], some (lit "LittleEndian")⟩,
      .entry [("Name", lit "Past")] [⟨.bit, [], some (lit "65541")⟩]]).map
        (·.map IntegerDecl.bitfield) =
      .ok [some { bitOffset := 5, bitLength := 1, byteOrder := .little }] :=
  ⟨⟨by decide, by decide, by decide⟩, by decide +kernel,
    fun h => absurd (h.2.2 65541 (by decide)) (by decide), by decide +kernel⟩

end VivaGenicam.GenapiXml
