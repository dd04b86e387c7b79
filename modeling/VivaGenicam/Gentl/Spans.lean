import VivaGenicam.Gentl.Regmap

/-!
The document and the address decoding are two walks over one table: every register that
the document declares is where a read or a write finds it, and nothing else is anywhere.
-/

namespace VivaGenicam.Gentl

open GenapiXml Library

theorem registerLength_le (kind : Kind) (register : Register) :
    registerLength kind register ≤ strLen := by
  cases register with
  | max =>
    change intLen ≤ strLen
    decide
  | value =>
    change (if kind = .str then strLen else intLen) ≤ strLen
    split
    · exact le_refl _
    · decide

namespace Stands

variable {layout : Layout} {declared : Declared} {index : Nat} {feature : Feature}
  {register : Register}

theorem index_lt (h : Stands layout declared index feature register) :
    index < layout.features.length :=
  (List.getElem?_eq_some_iff.mp h.inSlot).1

theorem bounds (h : Stands layout declared index feature register) :
    featureBase + index * slot ≤ declared.address ∧
      declared.address + declared.length ≤ featureBase + index * slot + (slot - 1) := by
  have haddress := h.address
  have hlength := h.length
  have hle := registerLength_le feature.kind register
  have hoffset : registerOffset register ≤ maxOffset := by
    cases register <;> decide
  simp only [strLen, slot, maxOffset] at *
  omega

theorem end_le (h : Stands layout declared index feature register)
    (hslots : featureBase + layout.features.length * slot ≤ xmlAddress) :
    declared.address + declared.length < xmlAddress := by
  have hbounds := h.bounds
  have hindex := h.index_lt
  simp only [slot] at *
  omega

end Stands

variable {offset address : Nat}

namespace Layout

variable (layout : Layout)

theorem featureAt_slot {index : Nat} {feature : Feature}
    (h : layout.features[index]? = some feature) (hoffset : offset < slot) :
    ∃ at_ : Fin layout.features.length, layout.features.get at_ = feature ∧
      layout.featureAt (featureBase + index * slot + offset) = some (at_, offset) := by
  obtain ⟨hindex, hget⟩ := List.getElem?_eq_some_iff.mp h
  have hslot : 0 < slot := by decide
  have hdiv : (index * slot + offset) / slot = index := by
    rw [Nat.add_comm, Nat.add_mul_div_right _ _ hslot, Nat.div_eq_of_lt hoffset, Nat.zero_add]
  have hmod : (index * slot + offset) % slot = offset := by
    rw [Nat.add_comm, Nat.add_mul_mod_self_right, Nat.mod_eq_of_lt hoffset]
  refine ⟨⟨index, hindex⟩, hget, ?_⟩
  unfold featureAt
  rw [if_neg (by omega), show featureBase + index * slot + offset - featureBase =
    index * slot + offset by omega]
  simp only [hdiv, hmod, hindex, dite_true]

theorem featureAt_some {at_ : Fin layout.features.length}
    (h : layout.featureAt address = some (at_, offset)) :
    address = featureBase + at_.val * slot + offset ∧ offset < slot := by
  unfold featureAt at h
  split at h
  · cases h
  · dsimp only at h
    split at h
    · simp only [Option.some.injEq, Prod.mk.injEq] at h
      obtain ⟨rfl, rfl⟩ := h
      have hsplit := Nat.div_add_mod' (address - featureBase) slot
      refine ⟨?_, Nat.mod_lt _ (by decide)⟩
      dsimp only
      omega
    · cases h

theorem featurePieces_ascend (port : Text) (index : Nat) (feature : Feature) :
    ((featurePieces port index feature).filterMap Piece.register?).Pairwise
      fun first second => first.address + first.length ≤ second.address := by
  unfold featurePieces stringReg hiddenReg intReg
  cases hkind : feature.kind with
  | selector selected =>
    simp only [List.filterMap_cons, List.filterMap_nil, Piece.register?, List.pairwise_cons,
      List.mem_singleton, List.not_mem_nil, false_implies, implies_true, List.Pairwise.nil,
      and_true, forall_eq]
    simp only [intLen, maxOffset]
    omega
  | str | int repr | bool | enum entries | command | timeout =>
    exact List.pairwise_singleton _ _

theorem registers_ascend :
    layout.registers.Pairwise fun first second =>
      first.address + first.length ≤ second.address := by
  unfold registers pieces
  rw [List.filterMap_flatMap, List.pairwise_flatMap]
  refine ⟨fun entry _ => featurePieces_ascend _ _ _, ?_⟩
  have hindices : layout.features.zipIdx.Pairwise fun first second => first.2 < second.2 := by
    rw [← List.pairwise_map, List.zipIdx_map_snd]
    exact List.pairwise_lt_range'
  refine (hindices.imp_of_mem ?_)
  intro first second hfirst hsecond hlt one hone other hother
  have hplace : ∀ entry ∈ layout.features.zipIdx, ∀ declared ∈
      (featurePieces layout.port entry.2 entry.1).filterMap Piece.register?,
      ∃ register, Stands layout declared entry.2 entry.1 register := by
    intro entry hentry declared hdeclared
    obtain ⟨piece, hpiece, hsome⟩ := List.mem_filterMap.mp hdeclared
    have hregister : piece = .register declared := by
      cases piece <;> simp [Piece.register?] at hsome
      rw [hsome]
    subst hregister
    obtain ⟨register, hmax, hname, haddress, hlength, haccess⟩ := mem_featurePieces hpiece
    exact ⟨register, List.mem_zipIdx_iff_getElem?.mp hentry, hmax, hname, haddress, hlength,
      haccess⟩
  obtain ⟨_, hbefore⟩ := hplace first hfirst one hone
  obtain ⟨_, hafter⟩ := hplace second hsecond other hother
  have hend := hbefore.bounds.2
  have hstart := hafter.bounds.1
  have hnext : (first.2 + 1) * slot ≤ second.2 * slot := Nat.mul_le_mul_right slot hlt
  rw [Nat.succ_mul] at hnext
  simp only [slot] at *
  omega

end Layout

/-- The value is one that a feature of the kind has. -/
def Value.OfKind (kind : Kind) : Value → Prop
  | .str _ => kind = .str
  | .int _ => kind ≠ .str

/-- A string cut to what its register holds and padded with 0, an integer in little
endian. -/
def Value.encoding : Value → List UInt8
  | .str text => Buffer.resize ((Utf8.encode text).take (strLen - 1)) strLen 0
  | .int value => toLeBytes value

/-- The module answers each feature with a value of its kind. -/
def Answers (module : Module) : Prop :=
  ∀ feature ∈ module.layout.features, ∀ register,
    (register = .max → feature.kind.hasMax = true) →
    ∃ value, module.readFeature feature register = .ok value ∧ value.OfKind feature.kind

@[simp] theorem length_toLeBytes (value : Int64) : (toLeBytes value).length = intLen :=
  Bytes.length_encodeLE _ _

variable {bytes : List UInt8}

theorem toLeBytes_fromLeBytes (h : bytes.length = intLen) :
    toLeBytes (fromLeBytes bytes) = bytes := by
  have hlt := Bytes.decodeLE_lt bytes
  have hbits : (fromLeBytes bytes).toBitVec.toNat = Bytes.decodeLE bytes := by
    have hmod : (fromLeBytes bytes).toBitVec.toNat = Bytes.decodeLE bytes % 2 ^ 64 := rfl
    rw [hmod]
    apply Nat.mod_eq_of_lt
    rw [h] at hlt
    simpa [intLen] using hlt
  rw [toLeBytes, hbits]
  have hround := Bytes.encodeLE_decodeLE bytes
  rw [h] at hround
  exact hround

variable {value : Value}

theorem registerBytes_eq {feature : Feature} (h : value.OfKind feature.kind) :
    registerBytes feature value = value.encoding := by
  cases value with
  | str text =>
    have hkind : feature.kind = .str := h
    have hlength : ((Utf8.encode text).take (strLen - 1)).length ≤ strLen := by
      rw [List.length_take]
      simp only [strLen]
      omega
    simp only [registerBytes, hkind, Value.encoding, Buffer.write, Buffer.resize]
    rw [List.take_zero, List.nil_append, Nat.zero_add, List.drop_replicate,
      List.take_of_length_le hlength]
  | int value =>
    simp [registerBytes, Value.encoding]

variable {kind : Kind}

theorem length_encoding (h : value.OfKind kind)
    (register : Register) (hmax : register = .max → kind.hasMax = true) :
    value.encoding.length = registerLength kind register := by
  cases value with
  | str text =>
    have hkind : kind = .str := h
    subst hkind
    cases register with
    | max => cases hmax rfl
    | value => exact Buffer.length_resize _ _ _
  | int value =>
    have hne : kind ≠ .str := h
    cases register with
    | max => exact length_toLeBytes value
    | value =>
      rw [registerLength, if_neg hne]
      exact length_toLeBytes value

variable {start len : Nat}

theorem getRange_of_le (h : start + len ≤ bytes.length) :
    getRange bytes start len = some ((bytes.drop start).take len) :=
  if_pos h

theorem part_of_not_le (address : Nat) (h : ¬ start + len ≤ bytes.length) :
    part bytes start address len = .error (outOfRange address len) := by
  rw [part, getRange, if_neg h]

theorem part_of_le (address : Nat) (h : start + len ≤ bytes.length) :
    part bytes start address len = .ok ((bytes.drop start).take len) := by
  rw [part, getRange_of_le h]

/-- The span from `address` on lies within the register. -/
def Declared.Holds (declared : Declared) (address len : Nat) : Prop :=
  declared.address ≤ address ∧ address + len ≤ declared.address + declared.length

theorem Stands.registerAt_eq {layout : Layout} {declared : Declared} {index : Nat}
    {feature : Feature} {register : Register} (h : Stands layout declared index feature register)
    (hstart : start ≤ declared.length) :
    registerAt feature.kind (registerOffset register + start) = (register, start) := by
  rw [h.length] at hstart
  cases register with
  | max =>
    have hmax := h.hasMax rfl
    cases hkind : feature.kind with
    | selector selected =>
      simp [registerAt, registerOffset]
    | str | int repr | bool | enum entries | command | timeout =>
      rw [hkind] at hmax
      cases hmax
  | value =>
    cases hkind : feature.kind with
    | selector selected =>
      have hlt : ¬ maxOffset ≤ 0 + start := by
        rw [hkind] at hstart
        have hlength : registerLength (.selector selected) .value = 8 := rfl
        simp only [maxOffset]
        omega
      rw [registerAt, registerOffset, if_neg hlt, Nat.zero_add]
    | str | int repr | bool | enum entries | command | timeout =>
      simp [registerAt, registerOffset]

theorem featureAt_of_stands {layout : Layout} {declared : Declared} {index : Nat}
    {feature : Feature} {register : Register} (h : Stands layout declared index feature register)
    (hstart : start ≤ declared.length) :
    ∃ at_ : Fin layout.features.length, layout.features.get at_ = feature ∧
      layout.featureAt (declared.address + start) =
        some (at_, registerOffset register + start) := by
  have hbounds := h.bounds
  have haddress := h.address
  have hoffset : registerOffset register + start < slot := by
    simp only [slot] at *
    omega
  obtain ⟨at_, hget, hat⟩ := layout.featureAt_slot h.inSlot hoffset
  refine ⟨at_, hget, ?_⟩
  rw [haddress, Nat.add_assoc]
  exact hat

theorem read_of_stands {module : Module} {declared : Declared} {index : Nat} {feature : Feature}
    {register : Register} (h : Stands module.layout declared index feature register)
    (hslots : featureBase + module.layout.features.length * slot ≤ xmlAddress)
    (hvalue : module.readFeature feature register = .ok value) (hkind : value.OfKind feature.kind)
    (hinside : start + len ≤ declared.length) :
    read module (declared.address + start) len =
      .ok ((value.encoding.drop start).take len) := by
  have hbelow := h.end_le hslots
  obtain ⟨at_, hget, hat⟩ := featureAt_of_stands h (show start ≤ declared.length by omega)
  have hregister := h.registerAt_eq (show start ≤ declared.length by omega)
  have hlength := length_encoding hkind register h.hasMax
  rw [← h.length] at hlength
  unfold read
  rw [if_neg (by omega), hat]
  simp only [hget, hregister, hvalue, registerBytes_eq hkind]
  exact part_of_le _ (by omega)

theorem stands_of_featureAt {layout : Layout} {at_ : Fin layout.features.length}
    (h : layout.featureAt address = some (at_, offset)) :
    ∃ declared ∈ layout.registers,
      Stands layout declared at_ (layout.features.get at_)
        (registerAt (layout.features.get at_).kind offset).1 ∧
      address = declared.address + (registerAt (layout.features.get at_).kind offset).2 := by
  obtain ⟨haddress, hoffset⟩ := layout.featureAt_some h
  have hfeature : layout.features[at_.val]? = some (layout.features.get at_) :=
    List.getElem?_eq_getElem at_.isLt
  generalize layout.features.get at_ = feature at hfeature
  have hsplit : registerOffset (registerAt feature.kind offset).1 +
      (registerAt feature.kind offset).2 = offset := by
    unfold registerAt
    cases feature.kind with
    | selector selected =>
      dsimp only
      split
      · rename_i hmax
        exact Nat.add_sub_of_le hmax
      · exact Nat.zero_add _
    | str | int repr | bool | enum entries | command | timeout => exact Nat.zero_add _
  have hmax : (registerAt feature.kind offset).1 = .max → feature.kind.hasMax = true := by
    cases hkind : feature.kind with
    | selector selected => exact fun _ => rfl
    | str | int repr | bool | enum entries | command | timeout => simp [registerAt]
  obtain ⟨declared, hmem, hstands⟩ := layout.exists_stands hfeature _ hmax
  refine ⟨declared, hmem, hstands, ?_⟩
  rw [hstands.address, haddress]
  omega

theorem read_refused {module : Module} (hanswers : Answers module)
    (hregisters : ∀ declared ∈ module.layout.registers, ¬ declared.Holds address len)
    (hxml : ¬ (xmlAddress ≤ address ∧ address + len ≤ xmlAddress + module.layout.xml.length)) :
    read module address len = .error (outOfRange address len) := by
  unfold read
  split
  · exact part_of_not_le _ (by omega)
  · cases hat : module.layout.featureAt address with
    | none => rfl
    | some found =>
      obtain ⟨at_, offset⟩ := found
      obtain ⟨declared, hmem, hstands, haddress⟩ := stands_of_featureAt hat
      obtain ⟨value, hvalue, hkind⟩ := hanswers _ (List.get_mem _ at_) _ hstands.hasMax
      have hlength := length_encoding hkind _ hstands.hasMax
      rw [← hstands.length] at hlength
      have hnot := hregisters declared hmem
      dsimp only
      rw [hvalue]
      dsimp only
      rw [registerBytes_eq hkind]
      apply part_of_not_le
      intro hle
      apply hnot
      unfold Declared.Holds
      omega

theorem read_xml (module : Module) {start len : Nat}
    (h : start + len ≤ module.layout.xml.length) :
    read module (xmlAddress + start) len = .ok ((module.layout.xml.drop start).take len) := by
  unfold read
  rw [if_pos (by omega), Nat.add_sub_cancel_left]
  exact part_of_le _ h

theorem Kind.writable_ne_str (h : kind.writable = true) : kind ≠ .str := by
  rintro rfl
  cases h

theorem Value.exists_int (h : value.OfKind kind)
    (hne : kind ≠ .str) : ∃ current, value = .int current := by
  cases value with
  | str text => exact absurd h hne
  | int current => exact ⟨current, rfl⟩

theorem Stands.of_rw {layout : Layout} {declared : Declared} {index : Nat} {feature : Feature}
    {register : Register} (h : Stands layout declared index feature register)
    (hrw : declared.access = .rw) :
    register = .value ∧ feature.kind.writable = true ∧ declared.length = intLen ∧
      declared.address = featureBase + index * slot := by
  have haccess := h.access
  rw [hrw] at haccess
  cases register with
  | max => cases haccess
  | value =>
    have hwritable : feature.kind.writable = true := by
      unfold registerAccess at haccess
      dsimp only at haccess
      split at haccess
      · assumption
      · cases haccess
    refine ⟨rfl, hwritable, ?_, h.address⟩
    rw [h.length, registerLength, if_neg (Kind.writable_ne_str hwritable)]

theorem write_of_stands {module : Module} {declared : Declared} {index : Nat} {feature : Feature}
    {register : Register} (h : Stands module.layout declared index feature register)
    (hrw : declared.access = .rw) {current : Int64}
    (hvalue : module.readFeature feature .value = .ok (.int current)) {start : Nat}
    {data : List UInt8} (hstart : start < intLen) (hinside : start + data.length ≤ intLen) :
    ∃ value, toLeBytes value = Buffer.write (toLeBytes current) start data ∧
      write module (declared.address + start) data =
        (module.writeFeature feature value, [(feature, value)]) := by
  obtain ⟨rfl, hwritable, hlength, -⟩ := h.of_rw hrw
  obtain ⟨at_, hget, hat⟩ := featureAt_of_stands h (show start ≤ declared.length by omega)
  have hwritten : (Buffer.write (toLeBytes current) start data).length = intLen := by
    rw [Buffer.length_write _ _ _ (by rw [length_toLeBytes]; omega), length_toLeBytes]
  refine ⟨fromLeBytes (Buffer.write (toLeBytes current) start data),
    toLeBytes_fromLeBytes hwritten, ?_⟩
  have hoffset : registerOffset .value + start = start := Nat.zero_add start
  have hbytes : registerBytes feature (.int current) = toLeBytes current := by
    have hkind : (Value.int current).OfKind feature.kind := Kind.writable_ne_str hwritable
    exact registerBytes_eq hkind
  rw [hoffset] at hat
  unfold write
  rw [hat]
  dsimp only
  rw [hget, if_neg (not_not.mpr ⟨hwritable, hstart⟩), if_neg (by omega), hvalue]
  dsimp only
  rw [hbytes, List.take_of_length_le (le_of_eq hwritten)]

theorem write_cases (module : Module) (address : Nat) (data : List UInt8) :
    (∃ failure, write module address data = (.error failure, [])) ∨
      ∃ declared ∈ module.layout.registers, declared.access = .rw ∧
        declared.Holds address data.length ∧ address < declared.address + declared.length := by
  unfold write
  cases hat : module.layout.featureAt address with
  | none => exact .inl ⟨_, rfl⟩
  | some found =>
    obtain ⟨at_, offset⟩ := found
    obtain ⟨haddress, hoffset⟩ := module.layout.featureAt_some hat
    dsimp only
    split
    · exact .inl ⟨_, rfl⟩
    · rename_i hwritable
      rw [not_not] at hwritable
      split
      · exact .inl ⟨_, rfl⟩
      · rename_i hinside
        right
        have hfeature : module.layout.features[at_.val]? =
            some (module.layout.features.get at_) := List.getElem?_eq_getElem at_.isLt
        obtain ⟨declared, hmem, hstands⟩ :=
          module.layout.exists_stands hfeature .value (by intro h; cases h)
        have hrw : declared.access = .rw := by
          rw [hstands.access, registerAccess, if_pos hwritable.1]
        obtain ⟨-, -, hlength, hplace⟩ := hstands.of_rw hrw
        refine ⟨declared, hmem, hrw, ?_, ?_⟩
        · unfold Declared.Holds
          omega
        · omega

theorem isHexDigit_toUpper {c : Char} (h : Genapi.isHexDigit c = true) :
    Genapi.isHexDigit c.toUpper = true ∧ digitValue 16 c.toUpper = digitValue 16 c := by
  have hall : ∀ n : Fin 103, Genapi.isHexDigit (Char.ofNat n) = true →
      Genapi.isHexDigit (Char.ofNat n).toUpper = true ∧
        digitValue 16 (Char.ofNat n).toUpper = digitValue 16 (Char.ofNat n) := by
    decide +kernel
  have hlt : c.toNat < 103 := by
    simp only [Genapi.isHexDigit, Bool.or_eq_true, Bool.and_eq_true, decide_eq_true_eq,
      Genapi.char_le_iff, isDigit_iff, Char.reduceToNat] at h
    omega
  have hone := hall ⟨c.toNat, hlt⟩
  simp only [Char.ofNat_toNat] at hone
  exact hone h

theorem numeralFrom_toAsciiUpper {digits : Text} (h : ∀ c ∈ digits, Genapi.isHexDigit c = true)
    (value : Nat) :
    Genapi.numeralFrom 16 value (toAsciiUpper digits) = Genapi.numeralFrom 16 value digits := by
  induction digits generalizing value with
  | nil => rfl
  | cons c rest ih =>
    have hrest := ih fun d hd => h d (List.mem_cons_of_mem c hd)
    unfold toAsciiUpper at hrest ⊢
    rw [List.map_cons, Genapi.numeralFrom, Genapi.numeralFrom, hrest,
      (isHexDigit_toUpper (h c List.mem_cons_self)).2]

theorem upperHex_spec (n : Nat) :
    (∀ c ∈ upperHex n, Genapi.isHexDigit c = true) ∧ Genapi.numeral 16 (upperHex n) = n := by
  obtain ⟨hdigits, hvalue⟩ := Genapi.numeral_toDigits_hex n
  refine ⟨?_, ?_⟩
  · intro c hc
    obtain ⟨d, hd, rfl⟩ := List.mem_map.mp hc
    exact (isHexDigit_toUpper (hdigits d hd)).1
  · rw [upperHex, Genapi.numeral, numeralFrom_toAsciiUpper hdigits]
    exact hvalue

/-- A span that is written lies in a writable register, and is not empty. -/
def Writable (layout : Layout) (address : Nat) (data : List UInt8) : Prop :=
  data ≠ [] ∧ ∃ declared ∈ layout.registers, declared.access = .rw ∧
    declared.Holds address data.length

/-- Nothing is written, to an address inside a writable register. -/
def EmptyWrite (layout : Layout) (address : Nat) (data : List UInt8) : Prop :=
  data = [] ∧ ∃ declared ∈ layout.registers, declared.access = .rw ∧
    declared.address ≤ address ∧ address < declared.address + declared.length

/-- The document and the registers agree, and so do they on one write. -/
structure Agrees (module : Module) (address : Nat) (data : List UInt8) : Prop where
  declared : ∀ declared ∈ module.layout.registers,
    declared.element <:+: module.layout.generate ∧
      declared.address + declared.length ≤ xmlAddress
  disjoint : module.layout.registers.Pairwise fun first second =>
    first.address + first.length ≤ second.address
  shown : ∀ declared ∈ module.layout.registers, ∃ index feature register value,
    Stands module.layout declared index feature register ∧
      module.readFeature feature register = .ok value ∧
      declared.length = value.encoding.length ∧
      ∀ start len, start + len ≤ declared.length →
        read module (declared.address + start) len = .ok ((value.encoding.drop start).take len)
  document : ∀ start len, start + len ≤ module.layout.xml.length →
    read module (xmlAddress + start) len = .ok ((module.layout.xml.drop start).take len)
  unread : ∀ address len, (∀ declared ∈ module.layout.registers, ¬ declared.Holds address len) →
    ¬ (xmlAddress ≤ address ∧ address + len ≤ xmlAddress + module.layout.xml.length) →
    read module address len = .error (outOfRange address len)
  written : ∀ declared ∈ module.layout.registers, declared.access = .rw →
    ∃ index feature current, Stands module.layout declared index feature .value ∧
      module.readFeature feature .value = .ok (.int current) ∧
      ∀ start, address = declared.address + start → data ≠ [] →
        start + data.length ≤ declared.length →
        ∃ value, toLeBytes value = Buffer.write (toLeBytes current) start data ∧
          write module address data = (module.writeFeature feature value, [(feature, value)])
  refused : ¬ Writable module.layout address data →
    ∃ failure, write module address data = (.error failure, [])
  url : ∃ place size, module.layout.url =
      lit "local:" ++ module.layout.file ++ lit ".xml;" ++ place ++ lit ";" ++ size ∧
    (∀ c ∈ place ++ size, Genapi.isHexDigit c = true) ∧
    read module (Genapi.numeral 16 place) (Genapi.numeral 16 size) = .ok module.layout.xml

theorem stands_feature_mem {layout : Layout} {declared : Declared} {index : Nat}
    {feature : Feature} {register : Register}
    (h : Stands layout declared index feature register) : feature ∈ layout.features :=
  List.mem_of_getElem? h.inSlot

/-- The registers a document declares are those a module reads and writes, but for the
writes of nothing. -/
theorem agrees_iff (module : Module)
    (hslots : featureBase + module.layout.features.length * slot ≤ xmlAddress)
    (hanswers : Answers module) (address : Nat) (data : List UInt8) :
    Agrees module address data ↔ ¬ EmptyWrite module.layout address data := by
  constructor
  · rintro hagrees ⟨hempty, declared, hmem, hrw, hlow, hhigh⟩
    obtain ⟨failure, hrefused⟩ := hagrees.refused fun hwritable => hwritable.1 hempty
    obtain ⟨index, feature, register, hstands⟩ := module.layout.stands_of_mem hmem
    obtain ⟨rfl, hwritable, hlength, -⟩ := hstands.of_rw hrw
    obtain ⟨value, hvalue, hkind⟩ :=
      hanswers feature (stands_feature_mem hstands) .value hstands.hasMax
    obtain ⟨current, rfl⟩ := Value.exists_int hkind (Kind.writable_ne_str hwritable)
    obtain ⟨start, rfl⟩ := Nat.exists_eq_add_of_le hlow
    subst hempty
    obtain ⟨written, -, hcalled⟩ := @write_of_stands module declared index feature .value hstands
      hrw current hvalue start [] (by omega) (by rw [List.length_nil]; omega)
    rw [hcalled] at hrefused
    simp at hrefused
  · intro hnonempty
    refine ⟨?_, module.layout.registers_ascend, ?_, ?_, ?_, ?_, ?_, ?_⟩
    · intro declared hmem
      obtain ⟨index, feature, register, hstands⟩ := module.layout.stands_of_mem hmem
      exact ⟨module.layout.element_infix hmem, (hstands.end_le hslots).le⟩
    · intro declared hmem
      obtain ⟨index, feature, register, hstands⟩ := module.layout.stands_of_mem hmem
      obtain ⟨value, hvalue, hkind⟩ :=
        hanswers feature (stands_feature_mem hstands) register hstands.hasMax
      refine ⟨index, feature, register, value, hstands, hvalue, ?_, ?_⟩
      · rw [hstands.length, length_encoding hkind register hstands.hasMax]
      · intro start len hinside
        exact read_of_stands hstands hslots hvalue hkind hinside
    · exact fun start len h => read_xml module h
    · exact fun address len hregisters hxml => read_refused hanswers hregisters hxml
    · intro declared hmem hrw
      obtain ⟨index, feature, register, hstands⟩ := module.layout.stands_of_mem hmem
      obtain ⟨rfl, hwritable, hlength, -⟩ := hstands.of_rw hrw
      obtain ⟨value, hvalue, hkind⟩ :=
        hanswers feature (stands_feature_mem hstands) .value hstands.hasMax
      obtain ⟨current, rfl⟩ := Value.exists_int hkind (Kind.writable_ne_str hwritable)
      refine ⟨index, feature, current, hstands, hvalue, ?_⟩
      rintro start rfl hdata hinside
      have hpos := List.length_pos_iff.mpr hdata
      exact write_of_stands hstands hrw hvalue (by omega) (by omega)
    · intro hunwritable
      rcases write_cases module address data with hrefused | ⟨declared, hmem, hrw, hholds, hlt⟩
      · exact hrefused
      · exfalso
        by_cases hdata : data = []
        · exact hnonempty ⟨hdata, declared, hmem, hrw, hholds.1, hlt⟩
        · exact hunwritable ⟨hdata, declared, hmem, hrw, hholds⟩
    · obtain ⟨hplace, hplaceValue⟩ := upperHex_spec xmlAddress
      obtain ⟨hsize, hsizeValue⟩ := upperHex_spec module.layout.xml.length
      refine ⟨upperHex xmlAddress, upperHex module.layout.xml.length, rfl, ?_, ?_⟩
      · intro c hc
        exact (List.mem_append.mp hc).elim (hplace c) (hsize c)
      · rw [hplaceValue, hsizeValue]
        have hread := @read_xml module 0 module.layout.xml.length (by omega)
        rw [List.drop_zero, List.take_length] at hread
        exact hread

/-- A module with one command, which reads as 0. -/
def commandModule : Module where
  layout := ⟨['m'], ['P'], [], [], [⟨['C'], .command, []⟩]⟩
  readFeature _ _ := .ok (.int 0)
  writeFeature _ _ := .ok ()

theorem answers_commandModule : Answers commandModule := by
  intro feature hfeature register hmax
  obtain rfl := List.mem_singleton.mp hfeature
  refine ⟨.int 0, rfl, ?_⟩
  intro hkind
  cases hkind

/-- A byte written into the middle of the command's register. -/
theorem agrees_commandModule : Agrees commandModule (featureBase + 3) [1] :=
  (agrees_iff commandModule (by decide) answers_commandModule (featureBase + 3) [1]).mpr (by
    rintro ⟨hempty, -⟩
    cases hempty)

/-- A write of nothing to the command's register calls its feature. -/
theorem empty_write_calls :
    ¬ ∀ (module : Module) (address : Nat) (data : List UInt8),
      featureBase + module.layout.features.length * slot ≤ xmlAddress → Answers module →
      Agrees module address data := by
  intro h
  have hagrees := h commandModule featureBase [] (by decide) answers_commandModule
  obtain ⟨failure, hrefused⟩ := hagrees.refused fun hwritable => hwritable.1 rfl
  have hcalled : (write commandModule featureBase []).2.length = 1 := by
    decide +kernel
  rw [hrefused] at hcalled
  cases hcalled

end VivaGenicam.Gentl
