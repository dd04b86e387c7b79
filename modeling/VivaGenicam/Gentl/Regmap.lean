import VivaGenicam.Genapi.TextCodecs
import VivaGenicam.Library.Buffer
import VivaGenicam.Library.Bytes
import VivaGenicam.Library.Utf8

/-!
A GenTL module's virtual register map and the document that describes it. One table of
features gives both: feature `i` lives in the `i`-th slot, and the document declares the
registers there.
-/

namespace VivaGenicam.Gentl

open GenapiXml Library

def featureBase : Nat := 0x10000

def slot : Nat := 0x1000

/-- Bytes of a string register, its terminating 0 included. -/
def strLen : Nat := 1024

def intLen : Nat := 8

/-- Where a selector's maximum sits in its slot. -/
def maxOffset : Nat := 0x10

def xmlAddress : Nat := 0x10000000

/-- The longest timeout a module's timeout feature accepts. -/
def maxTimeoutMs : Nat := 10000

inductive Repr where
  | number
  | ipv4
  | mac
deriving DecidableEq

/-- How a feature's value is shown and reached. -/
inductive Kind where
  | str
  | int (repr : Repr)
  | bool
  | enum (entries : List (Text × Int64))
  | selector (selected : List Text)
  | command
  | timeout
deriving DecidableEq

structure Feature where
  name : Text
  kind : Kind
  tip : Text
deriving DecidableEq

inductive Value where
  | str (text : Text)
  | int (value : Int64)
deriving DecidableEq

/-- A module's features and the categories that list them. -/
structure Layout where
  file : Text
  port : Text
  guid : Text
  categories : List (Text × List Text)
  features : List Feature

/-- Which register of a feature an address names. -/
inductive Register where
  | value
  | max
deriving DecidableEq

inductive GcError where
  | accessDenied
  | invalidAddress
  | other (code : Int)
deriving DecidableEq

structure Failure where
  code : GcError
  message : Text
deriving DecidableEq

/-- A module: its layout, and what it answers about its features. -/
structure Module where
  layout : Layout
  readFeature : Feature → Register → Except Failure Value
  writeFeature : Feature → Int64 → Except Failure Unit

def upperHex (n : Nat) : Text := toAsciiUpper (Nat.toDigits 16 n)

def decimal (n : Nat) : Text := Nat.toDigits 10 n

def replaceChar (c : Char) (by_ : Text) (text : Text) : Text :=
  text.flatMap fun d => if d = c then by_ else [d]

def escape (text : Text) : Text :=
  replaceChar '>' (lit "&gt;") (replaceChar '<' (lit "&lt;") (replaceChar '&' (lit "&amp;") text))

inductive Access where
  | ro
  | rw
deriving DecidableEq

def Access.text : Access → Text
  | .ro => lit "RO"
  | .rw => lit "RW"

/-- A register as the document declares it. -/
structure Declared where
  isString : Bool
  name : Text
  nameSpace : Text
  tip : Option Text
  address : Nat
  length : Nat
  access : Access
  port : Text
  repr : Repr
deriving DecidableEq

def Repr.element : Repr → Text
  | .number => []
  | .ipv4 => lit "    <Representation>IPV4Address</Representation>\n"
  | .mac => lit "    <Representation>MACAddress</Representation>\n"

/-- A `StringReg` or an `IntReg`. -/
def Declared.element (register : Declared) : Text :=
  let tag := if register.isString then lit "StringReg" else lit "IntReg"
  lit "  <" ++ tag ++ lit " Name=\"" ++ register.name ++ lit "\" NameSpace=\"" ++
    register.nameSpace ++ lit "\">\n" ++
    (match register.tip with
      | some tip => lit "    <ToolTip>" ++ tip ++ lit "</ToolTip>\n"
      | none => lit "    <Visibility>Invisible</Visibility>\n") ++
    lit "    <Address>0x" ++ upperHex register.address ++ lit "</Address>\n    <Length>" ++
    decimal register.length ++ lit "</Length>\n    <AccessMode>" ++ register.access.text ++
    lit "</AccessMode>\n    <pPort>" ++ register.port ++
    lit "</pPort>\n    <Cachable>NoCache</Cachable>\n" ++
    (if register.isString then []
      else lit "    <Sign>Unsigned</Sign>\n    <Endianess>LittleEndian</Endianess>\n" ++
        register.repr.element) ++
    lit "  </" ++ tag ++ lit ">\n"

/-- What the document is put together from: its text, and its registers. -/
inductive Piece where
  | text (text : Text)
  | register (register : Declared)

def Piece.element : Piece → Text
  | .text content => content
  | .register declared => declared.element

def Piece.register? : Piece → Option Declared
  | .text _ => none
  | .register declared => some declared

def stringReg (name tip port : Text) (address : Nat) : Piece :=
  .register ⟨true, name, lit "Standard", some tip, address, strLen, .ro, port, .number⟩

def intReg (name nameSpace : Text) (tip : Option Text) (address : Nat) (access : Access)
    (port : Text) (repr : Repr) : Piece :=
  .register ⟨false, name, nameSpace, tip, address, intLen, access, port, repr⟩

/-- The register behind a feature that is not itself a register. -/
def hiddenReg (name suffix : Text) (address : Nat) (access : Access) (port : Text) : Piece :=
  intReg (name ++ suffix) (lit "Custom") none address access port .number

/-- The start of a feature's element, with its tool tip. -/
def opening (tag name tip : Text) : Text :=
  lit "  <" ++ tag ++ lit " Name=\"" ++ name ++
    lit "\" NameSpace=\"Standard\">\n    <ToolTip>" ++ tip ++ lit "</ToolTip>\n"

def enumEntry (entry : Text × Int64) : Text :=
  lit "    <EnumEntry Name=\"" ++ entry.1 ++ lit "\" NameSpace=\"Standard\">\n      <Value>" ++
    Genapi.decimalText entry.2 ++ lit "</Value>\n    </EnumEntry>\n"

def featurePieces (port : Text) (index : Nat) (feature : Feature) : List Piece :=
  let address := featureBase + index * slot
  let name := feature.name
  let tip := escape feature.tip
  match feature.kind with
  | .str => [stringReg name tip port address]
  | .int repr => [intReg name (lit "Standard") (some tip) address .ro port repr]
  | .bool =>
    [.text (opening (lit "Boolean") name tip ++
      lit "    <ImposedAccessMode>RO</ImposedAccessMode>\n    <pValue>" ++ name ++
      lit "Reg</pValue>\n    <OnValue>1</OnValue>\n    <OffValue>0</OffValue>\n  </Boolean>\n"),
      hiddenReg name (lit "Reg") address .ro port]
  | .enum entries =>
    [.text (opening (lit "Enumeration") name tip ++
      lit "    <ImposedAccessMode>RO</ImposedAccessMode>\n" ++ entries.flatMap enumEntry ++
      lit "    <pValue>" ++ name ++ lit "Reg</pValue>\n  </Enumeration>\n"),
      hiddenReg name (lit "Reg") address .ro port]
  | .selector selected =>
    [.text (opening (lit "Integer") name tip ++ lit "    <pValue>" ++ name ++
      lit "Reg</pValue>\n    <Min>0</Min>\n    <pMax>" ++ name ++ lit "MaxReg</pMax>\n" ++
      (selected.flatMap fun feature =>
        lit "    <pSelected>" ++ feature ++ lit "</pSelected>\n") ++ lit "  </Integer>\n"),
      hiddenReg name (lit "Reg") address .rw port,
      hiddenReg name (lit "MaxReg") (address + maxOffset) .ro port]
  | .command =>
    [.text (opening (lit "Command") name tip ++ lit "    <pValue>" ++ name ++
      lit "Reg</pValue>\n    <CommandValue>1</CommandValue>\n  </Command>\n"),
      hiddenReg name (lit "Reg") address .rw port]
  | .timeout =>
    [.text (opening (lit "Integer") name tip ++ lit "    <pValue>" ++ name ++
      lit "Reg</pValue>\n    <Min>0</Min>\n    <Max>" ++ decimal maxTimeoutMs ++
      lit "</Max>\n    <Unit>ms</Unit>\n  </Integer>\n"),
      hiddenReg name (lit "Reg") address .rw port]

def category (entry : Text × List Text) : Text :=
  lit "  <Category Name=\"" ++ entry.1 ++ lit "\" NameSpace=\"Standard\">\n" ++
    (entry.2.flatMap fun feature => lit "    <pFeature>" ++ feature ++ lit "</pFeature>\n") ++
    lit "  </Category>\n"

/-- The document's start; the version is the crate's. -/
def header (layout : Layout) : Text :=
  lit "<?xml version=\"1.0\" encoding=\"UTF-8\"?>\n" ++
    lit "<RegisterDescription xmlns=\"http://www.genicam.org/GenApi/Version_1_1\" " ++
    lit "xmlns:xsi=\"http://www.w3.org/2001/XMLSchema-instance\" " ++
    lit "xsi:schemaLocation=\"http://www.genicam.org/GenApi/Version_1_1 " ++
    lit "http://www.genicam.org/GenApi/GenApiSchema_Version_1_1.xsd\" ModelName=\"" ++
    layout.file ++ lit "\" VendorName=\"viva_genicam\" " ++
    lit "ToolTip=\"viva-gentl module, GenTL SFNC 1.2 names\" StandardNameSpace=\"None\" " ++
    lit "SchemaMajorVersion=\"1\" SchemaMinorVersion=\"1\" SchemaSubMinorVersion=\"0\" " ++
    lit "MajorVersion=\"0\" MinorVersion=\"11\" SubMinorVersion=\"0\" ProductGuid=\"" ++
    layout.guid ++ lit "\" VersionGuid=\"" ++ layout.guid ++ lit "\">\n"

def footer (layout : Layout) : Text :=
  lit "  <Port Name=\"" ++ layout.port ++ lit "\" NameSpace=\"Standard\">\n" ++
    lit "    <ToolTip>The port through which this module's features are reached.</ToolTip>\n" ++
    lit "    <Visibility>Invisible</Visibility>\n  </Port>\n</RegisterDescription>\n"

namespace Layout

variable (layout : Layout)

def pieces : List Piece :=
  layout.features.zipIdx.flatMap fun entry => featurePieces layout.port entry.2 entry.1

/-- The registers that the document declares. -/
def registers : List Declared := layout.pieces.filterMap Piece.register?

def generate : Text :=
  header layout ++ layout.categories.flatMap category ++ layout.pieces.flatMap Piece.element ++
    footer layout

def xml : List UInt8 := Utf8.encode layout.generate

def url : Text :=
  lit "local:" ++ layout.file ++ lit ".xml;" ++ upperHex xmlAddress ++ lit ";" ++
    upperHex layout.xml.length

/-- The feature whose slot an address is in, and the offset there. -/
def featureAt (address : Nat) : Option (Fin layout.features.length × Nat) :=
  if address < featureBase then none
  else
    let offset := address - featureBase
    if h : offset / slot < layout.features.length then some (⟨offset / slot, h⟩, offset % slot)
    else none

end Layout

/-- `bytes.get(start..start + len)`. -/
def getRange (bytes : List UInt8) (start len : Nat) : Option (List UInt8) :=
  if start + len ≤ bytes.length then some ((bytes.drop start).take len) else none

def outOfRange (address len : Nat) : Failure where
  code := .invalidAddress
  message := lit "no register holds " ++ decimal len ++ lit " bytes at 0x" ++
    Nat.toDigits 16 address

def notWritable (feature : Feature) (address : Nat) : Failure where
  code := .accessDenied
  message := feature.name ++ lit " is not writable (address 0x" ++ Nat.toDigits 16 address ++
    lit ")"

def toLeBytes (value : Int64) : List UInt8 := Bytes.encodeLE 8 value.toBitVec.toNat

def fromLeBytes (bytes : List UInt8) : Int64 :=
  .ofBitVec (BitVec.ofNat 64 (Bytes.decodeLE bytes))

/-- A register's bytes: a string padded with 0, an integer in eight bytes. -/
def registerBytes (feature : Feature) (value : Value) : List UInt8 :=
  match feature.kind, value with
  | .str, .str text =>
    Buffer.write (List.replicate strLen 0) 0 ((Utf8.encode text).take (strLen - 1))
  | _, .int value => toLeBytes value
  | _, .str _ => List.replicate intLen 0

/-- The register an offset in a feature's slot is in, and the offset there. -/
def registerAt (kind : Kind) (offset : Nat) : Register × Nat :=
  match kind with
  | .selector _ => if maxOffset ≤ offset then (.max, offset - maxOffset) else (.value, offset)
  | _ => (.value, offset)

/-- A span of the bytes, or the refusal of it at `address`. -/
def part (bytes : List UInt8) (start address len : Nat) : Except Failure (List UInt8) :=
  match getRange bytes start len with
  | some span => .ok span
  | none => .error (outOfRange address len)

/-- Any span inside one register or the document. -/
def read (module : Module) (address len : Nat) : Except Failure (List UInt8) :=
  if xmlAddress ≤ address then part module.layout.xml (address - xmlAddress) address len
  else
    match module.layout.featureAt address with
    | none => .error (outOfRange address len)
    | some (index, offset) =>
      let feature := module.layout.features.get index
      match module.readFeature feature (registerAt feature.kind offset).1 with
      | .error failure => .error failure
      | .ok value =>
        part (registerBytes feature value) (registerAt feature.kind offset).2 address len

def Kind.writable : Kind → Bool
  | .selector _ | .command | .timeout => true
  | _ => false

/-- A writable integer register, whole or in part; also the calls of `write_feature`. -/
def write (module : Module) (address : Nat) (data : List UInt8) :
    Except Failure Unit × List (Feature × Int64) :=
  match module.layout.featureAt address with
  | none => (.error (outOfRange address data.length), [])
  | some (index, offset) =>
    let feature := module.layout.features.get index
    if ¬ (feature.kind.writable ∧ offset < intLen) then
      (.error (notWritable feature address), [])
    else if intLen < offset + data.length then
      (.error (outOfRange address data.length), [])
    else
      match module.readFeature feature .value with
      | .error failure => (.error failure, [])
      | .ok value =>
        let word := Buffer.write (registerBytes feature value) offset data
        let value := fromLeBytes (word.take intLen)
        (module.writeFeature feature value, [(feature, value)])

def Kind.hasMax : Kind → Bool
  | .selector _ => true
  | _ => false

/-- The name of a feature's register: its own where the feature is a register itself. -/
def registerName (feature : Feature) : Register → Text
  | .max => feature.name ++ lit "MaxReg"
  | .value =>
    match feature.kind with
    | .str | .int _ => feature.name
    | _ => feature.name ++ lit "Reg"

def registerLength (kind : Kind) : Register → Nat
  | .max => intLen
  | .value => if kind = .str then strLen else intLen

def registerOffset : Register → Nat
  | .max => maxOffset
  | .value => 0

def registerAccess (kind : Kind) : Register → Access
  | .max => .ro
  | .value => if kind.writable then .rw else .ro

/-- The register is the one declared for the feature in a slot. -/
structure Stands (layout : Layout) (declared : Declared) (index : Nat) (feature : Feature)
    (register : Register) : Prop where
  inSlot : layout.features[index]? = some feature
  hasMax : register = .max → feature.kind.hasMax = true
  name : declared.name = registerName feature register
  address : declared.address = featureBase + index * slot + registerOffset register
  length : declared.length = registerLength feature.kind register
  access : declared.access = registerAccess feature.kind register

variable {declared : Declared}

theorem mem_featurePieces {port : Text} {index : Nat} {feature : Feature}
    (h : .register declared ∈ featurePieces port index feature) :
    ∃ register, (register = .max → feature.kind.hasMax = true) ∧
      declared.name = registerName feature register ∧
      declared.address = featureBase + index * slot + registerOffset register ∧
      declared.length = registerLength feature.kind register ∧
      declared.access = registerAccess feature.kind register := by
  unfold featurePieces stringReg hiddenReg intReg at h
  cases hkind : feature.kind with
  | selector selected =>
    simp only [hkind, List.mem_cons, List.not_mem_nil, reduceCtorEq, Piece.register.injEq,
      false_or, or_false] at h
    rcases h with h | h
    · subst h
      refine ⟨.value, ?_⟩
      simp [registerName, registerOffset, registerLength, registerAccess, Kind.writable, hkind]
    · subst h
      refine ⟨.max, ?_⟩
      simp [registerName, registerOffset, registerLength, registerAccess, Kind.hasMax]
  | str | int repr | bool | enum entries | command | timeout =>
    simp only [hkind, List.mem_cons, List.not_mem_nil, reduceCtorEq, Piece.register.injEq,
      false_or, or_false] at h
    subst h
    refine ⟨.value, ?_⟩
    simp [registerName, registerOffset, registerLength, registerAccess, Kind.writable, hkind]

theorem exists_featurePiece (port : Text) (index : Nat) (feature : Feature) (register : Register)
    (hmax : register = .max → feature.kind.hasMax = true) :
    ∃ declared, .register declared ∈ featurePieces port index feature ∧
      declared.name = registerName feature register ∧
      declared.address = featureBase + index * slot + registerOffset register ∧
      declared.length = registerLength feature.kind register ∧
      declared.access = registerAccess feature.kind register := by
  unfold featurePieces stringReg hiddenReg intReg
  cases hkind : feature.kind with
  | selector selected =>
    cases register with
    | max =>
      refine ⟨_, List.mem_cons_of_mem _ (List.mem_cons_of_mem _ (List.mem_singleton.mpr rfl)), ?_⟩
      simp [registerName, registerOffset, registerLength, registerAccess]
    | value =>
      refine ⟨_, List.mem_cons_of_mem _ List.mem_cons_self, ?_⟩
      simp [registerName, registerOffset, registerLength, registerAccess, Kind.writable, hkind]
  | str | int repr | bool | enum entries | command | timeout =>
    cases register with
    | max => simp [hkind, Kind.hasMax] at hmax
    | value =>
      simp only [List.mem_cons, List.not_mem_nil, reduceCtorEq, Piece.register.injEq,
        false_or, or_false, exists_eq_left]
      simp [registerName, registerOffset, registerLength, registerAccess, Kind.writable, hkind]

namespace Layout

variable (layout : Layout)

theorem mem_registers :
    declared ∈ layout.registers ↔ ∃ index feature, layout.features[index]? = some feature ∧
      .register declared ∈ featurePieces layout.port index feature := by
  have hregister : ∀ piece : Piece, piece.register? = some declared ↔ piece = .register declared := by
    intro piece
    cases piece <;> simp [Piece.register?]
  unfold registers pieces
  rw [List.mem_filterMap]
  constructor
  · rintro ⟨piece, hpiece, hsome⟩
    rw [hregister] at hsome
    subst hsome
    obtain ⟨entry, hentry, hpiece⟩ := List.mem_flatMap.mp hpiece
    exact ⟨entry.2, entry.1, List.mem_zipIdx_iff_getElem?.mp hentry, hpiece⟩
  · rintro ⟨index, feature, hfeature, hpiece⟩
    refine ⟨.register declared, List.mem_flatMap.mpr ⟨(feature, index), ?_, hpiece⟩, rfl⟩
    exact List.mem_zipIdx_iff_getElem?.mpr hfeature

theorem stands_of_mem (h : declared ∈ layout.registers) :
    ∃ index feature register, Stands layout declared index feature register := by
  obtain ⟨index, feature, hfeature, hpiece⟩ := layout.mem_registers.mp h
  obtain ⟨register, hmax, hname, haddress, hlength, haccess⟩ := mem_featurePieces hpiece
  exact ⟨index, feature, register, hfeature, hmax, hname, haddress, hlength, haccess⟩

theorem exists_stands {index : Nat} {feature : Feature}
    (hfeature : layout.features[index]? = some feature) (register : Register)
    (hmax : register = .max → feature.kind.hasMax = true) :
    ∃ declared ∈ layout.registers, Stands layout declared index feature register := by
  obtain ⟨declared, hpiece, hname, haddress, hlength, haccess⟩ :=
    exists_featurePiece layout.port index feature register hmax
  exact ⟨declared, layout.mem_registers.mpr ⟨index, feature, hfeature, hpiece⟩,
    hfeature, hmax, hname, haddress, hlength, haccess⟩

theorem element_infix (h : declared ∈ layout.registers) :
    declared.element <:+: layout.generate := by
  unfold registers at h
  obtain ⟨piece, hpiece, hsome⟩ := List.mem_filterMap.mp h
  obtain ⟨before, after, hsplit⟩ := List.append_of_mem hpiece
  have helement : piece.element = declared.element := by
    cases piece <;> simp [Piece.register?] at hsome
    subst hsome
    rfl
  refine ⟨header layout ++ layout.categories.flatMap category ++ before.flatMap Piece.element,
    after.flatMap Piece.element ++ footer layout, ?_⟩
  rw [generate, hsplit, List.flatMap_append, List.flatMap_cons, helement]
  simp only [List.append_assoc]

end Layout

end VivaGenicam.Gentl
