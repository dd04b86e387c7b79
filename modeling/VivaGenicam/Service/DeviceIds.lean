import VivaGenicam.Genapi.TextCodecs
import VivaGenicam.Library.Utf8

/-!
The ids that cameras are announced under, and the keys built with them. A GigE
Vision camera is named by its MAC address, a USB3 Vision camera by its serial
number or else by its place on the bus; both names are one chunk of a key.
-/

namespace VivaGenicam.Service

open GenapiXml Genapi

def hexWord (word : UInt16) : GenapiXml.Text :=
  [Nat.digitChar (word.toNat / 4096), Nat.digitChar (word.toNat / 256 % 16),
    Nat.digitChar (word.toNat / 16 % 16), Nat.digitChar (word.toNat % 16)]

/-- `cam-` -/
def gigeStart : GenapiXml.Text := ['c', 'a', 'm', '-']

/-- `cam-u3v-` -/
def u3vStart : GenapiXml.Text := ['c', 'a', 'm', '-', 'u', '3', 'v', '-']

/-- A MAC address. -/
abbrev Mac := { bytes : List UInt8 // bytes.length = 6 }

def gigeDeviceId (mac : Mac) : GenapiXml.Text := gigeStart ++ mac.val.flatMap hexDigits

/-- The bytes of a serial that an id carries as they are. -/
def plain (byte : UInt8) : Bool :=
  (65 ≤ byte.toNat ∧ byte.toNat ≤ 90) ∨ (97 ≤ byte.toNat ∧ byte.toNat ≤ 122) ∨
    (48 ≤ byte.toNat ∧ byte.toNat ≤ 57) ∨ byte.toNat = 45 ∨ byte.toNat = 46

/-- Every other byte becomes `_` and two hexadecimal digits. -/
def escapeByte (byte : UInt8) : GenapiXml.Text :=
  if plain byte then [Char.ofNat byte.toNat] else '_' :: hexDigits byte

/-- A serial number worth naming a camera by: what is left of it without the
surrounding space, if anything. -/
def ownSerial (serial : Option GenapiXml.Text) : Option GenapiXml.Text :=
  (serial.map trim).filter (· ≠ [])

def place (bus : GenapiXml.Text) (address : UInt8) : GenapiXml.Text :=
  bus ++ '-' :: Nat.toDigits 10 address.toNat

def u3vDeviceId (vendorId productId : UInt16) (serial : Option GenapiXml.Text)
    (bus : GenapiXml.Text) (address : UInt8) : GenapiXml.Text :=
  let inst :=
    match ownSerial serial with
    | some serial => serial
    | none => place bus address
  u3vStart ++ (hexWord vendorId ++ hexWord productId) ++
    '-' :: (Library.Utf8.encode inst).flatMap escapeByte

/-- `genicam` -/
def genicamChunk : GenapiXml.Text := ['g', 'e', 'n', 'i', 'c', 'a', 'm']

/-- `devices` -/
def devicesChunk : GenapiXml.Text := ['d', 'e', 'v', 'i', 'c', 'e', 's']

/-- `nodes` -/
def nodesChunk : GenapiXml.Text := ['n', 'o', 'd', 'e', 's']

/-- A key under one node of a camera: `genicam/devices/{id}/nodes/{name}/{suffix}`. -/
def nodeKey (suffix : GenapiXml.Text) (deviceId nodeName : GenapiXml.Text) : GenapiXml.Text :=
  genicamChunk ++ '/' :: devicesChunk ++ '/' :: deviceId ++ '/' :: nodesChunk ++ '/' :: nodeName ++
    '/' :: suffix

def nodeValue := nodeKey (['v', 'a', 'l', 'u', 'e'])
def nodeSet := nodeKey (['s', 'e', 't'])
def nodeExecute := nodeKey (['e', 'x', 'e', 'c', 'u', 't', 'e'])
def nodeIntrospect := nodeKey (['s', 't', 'a', 't', 'e'])
def nodeRegister := nodeKey (['r', 'e', 'g', 'i', 's', 't', 'e', 'r'])
def nodeRegisterSet := nodeKey (['r', 'e', 'g', 'i', 's', 't', 'e', 'r', '_', 's', 'e', 't'])

def nodeKeys : List (GenapiXml.Text → GenapiXml.Text → GenapiXml.Text) :=
  [nodeValue, nodeSet, nodeExecute, nodeIntrospect, nodeRegister, nodeRegisterSet]

def extractNodeName (key : GenapiXml.Text) : Option GenapiXml.Text :=
  let parts := key.splitOn '/'
  if 6 ≤ parts.length ∧ parts[parts.length - 3]? = some (nodesChunk) then
    parts[parts.length - 2]?
  else none

/-- What a key expression cannot have inside a chunk. -/
def reserved : List Char := ['/', '*', '$', '#', '?']

def IsKeyChunk (text : GenapiXml.Text) : Prop := text ≠ [] ∧ ∀ c ∈ text, c ∉ reserved

theorem nodeKey_eq (suffix deviceId nodeName : GenapiXml.Text) :
    nodeKey suffix deviceId nodeName = ['/'].intercalate
      [genicamChunk, devicesChunk, deviceId, nodesChunk, nodeName, suffix] := by
  simp [nodeKey, List.intercalate]

theorem extractNodeName_nodeKey {suffix deviceId nodeName : GenapiXml.Text}
    (hsuffix : '/' ∉ suffix) (hdevice : '/' ∉ deviceId) (hnode : '/' ∉ nodeName) :
    extractNodeName (nodeKey suffix deviceId nodeName) = some nodeName := by
  have hgenicam : '/' ∉ genicamChunk := by decide
  have hdevices : '/' ∉ devicesChunk := by decide
  have hnodes : '/' ∉ nodesChunk := by decide
  have hparts : (nodeKey suffix deviceId nodeName).splitOn '/' =
      [genicamChunk, devicesChunk, deviceId, nodesChunk, nodeName, suffix] := by
    rw [nodeKey_eq]
    refine List.splitOn_intercalate '/' ?_ (List.cons_ne_nil _ _)
    simp only [List.mem_cons, List.not_mem_nil, or_false, forall_eq_or_imp, forall_eq]
    exact ⟨hgenicam, hdevices, hdevice, hnodes, hnode, hsuffix⟩
  rw [extractNodeName, hparts]
  exact if_pos ⟨le_rfl, rfl⟩

theorem IsKeyChunk.no_slash {text : GenapiXml.Text} (h : IsKeyChunk text) : '/' ∉ text :=
  fun hmem => h.2 '/' hmem (by decide)

theorem extractNodeName_of_mem {deviceId nodeName : GenapiXml.Text} (hdevice : IsKeyChunk deviceId)
    (hnode : '/' ∉ nodeName) {key : GenapiXml.Text → GenapiXml.Text → GenapiXml.Text}
    (hkey : key ∈ nodeKeys) : extractNodeName (key deviceId nodeName) = some nodeName := by
  simp only [nodeKeys, List.mem_cons, List.not_mem_nil, or_false] at hkey
  rcases hkey with rfl | rfl | rfl | rfl | rfl | rfl <;>
    exact extractNodeName_nodeKey (by decide) hdevice.no_slash hnode

/-- Letters, digits, `-`, `.` and `_`. -/
def allowed (c : Char) : Bool :=
  (65 ≤ c.toNat ∧ c.toNat ≤ 90) ∨ (97 ≤ c.toNat ∧ c.toNat ≤ 122) ∨
    (48 ≤ c.toNat ∧ c.toNat ≤ 57) ∨ c = '-' ∨ c = '.' ∨ c = '_'

theorem digitChar_allowed {n : Nat} (h : n < 16) : allowed (Nat.digitChar n) = true := by
  have hall : ∀ n : Fin 16, allowed (Nat.digitChar n) = true := by decide
  exact hall ⟨n, h⟩

theorem digitChar_injective {n m : Nat} (hn : n < 16) (hm : m < 16)
    (h : Nat.digitChar n = Nat.digitChar m) : n = m := by
  have hall : ∀ n m : Fin 16, Nat.digitChar n = Nat.digitChar m → n = m := by decide
  exact Fin.mk.inj_iff.mp (hall ⟨n, hn⟩ ⟨m, hm⟩ h)

theorem hexDigits_allowed (byte : UInt8) : ∀ c ∈ hexDigits byte, allowed c = true := by
  have hbyte : byte.toNat < 256 := byte.toNat_lt
  simp only [hexDigits, List.mem_cons, List.not_mem_nil, or_false, forall_eq_or_imp, forall_eq]
  exact ⟨digitChar_allowed (by omega), digitChar_allowed (by omega)⟩

theorem hexWord_allowed (word : UInt16) : ∀ c ∈ hexWord word, allowed c = true := by
  have hword : word.toNat < 65536 := word.toNat_lt
  simp only [hexWord, List.mem_cons, List.not_mem_nil, or_false, forall_eq_or_imp, forall_eq]
  exact ⟨digitChar_allowed (by omega), digitChar_allowed (by omega),
    digitChar_allowed (by omega), digitChar_allowed (by omega)⟩

theorem toNat_byteChar (byte : UInt8) :
    (Char.ofNat byte.toNat).toNat = byte.toNat := by
  have hbyte : byte.toNat < 256 := byte.toNat_lt
  rw [Char.ofNat, dif_pos (Or.inl (by omega))]
  rfl

theorem escapeByte_allowed (byte : UInt8) : ∀ c ∈ escapeByte byte, allowed c = true := by
  intro c hmem
  unfold escapeByte at hmem
  split at hmem
  · rename_i hplain
    rw [List.mem_singleton.mp hmem]
    have hnat := toNat_byteChar byte
    have hdash : byte.toNat = 45 → Char.ofNat byte.toNat = '-' := fun h => by rw [h]
    have hdot : byte.toNat = 46 → Char.ofNat byte.toNat = '.' := fun h => by rw [h]
    simp only [plain, decide_eq_true_eq] at hplain
    simp only [allowed, hnat, decide_eq_true_eq]
    tauto
  · rcases List.mem_cons.mp hmem with rfl | hmem
    · decide
    · exact hexDigits_allowed byte c hmem

theorem not_reserved_of_allowed {c : Char} (h : allowed c = true) : c ∉ reserved := by
  intro hmem
  have hall : (reserved.all fun c => !allowed c) = true := by decide
  have hnot := List.all_eq_true.mp hall c hmem
  rw [h] at hnot
  cases hnot

theorem isKeyChunk_of_allowed {text : GenapiXml.Text} (hne : text ≠ [])
    (h : ∀ c ∈ text, allowed c = true) : IsKeyChunk text :=
  ⟨hne, fun c hmem => not_reserved_of_allowed (h c hmem)⟩

theorem hexDigits_injective {first second : UInt8} (h : hexDigits first = hexDigits second) :
    first = second := by
  have hfirst : first.toNat < 256 := first.toNat_lt
  have hsecond : second.toNat < 256 := second.toNat_lt
  simp only [hexDigits, List.cons.injEq, and_true] at h
  have hhigh := digitChar_injective (by omega) (by omega) h.1
  have hlow := digitChar_injective (by omega) (by omega) h.2
  exact UInt8.toNat_inj.mp (by omega)

theorem hexWord_injective {first second : UInt16} (h : hexWord first = hexWord second) :
    first = second := by
  have hfirst : first.toNat < 65536 := first.toNat_lt
  have hsecond : second.toNat < 65536 := second.toNat_lt
  simp only [hexWord, List.cons.injEq, and_true] at h
  obtain ⟨h3, h2, h1, h0⟩ := h
  have h3 := digitChar_injective (by omega) (by omega) h3
  have h2 := digitChar_injective (by omega) (by omega) h2
  have h1 := digitChar_injective (by omega) (by omega) h1
  have h0 := digitChar_injective (by omega) (by omega) h0
  exact UInt16.toNat_inj.mp (by omega)

theorem escapeByte_append {first second : UInt8} {rest others : GenapiXml.Text}
    (h : escapeByte first ++ rest = escapeByte second ++ others) :
    first = second ∧ rest = others := by
  have hplain : ∀ {byte : UInt8}, plain byte = true → Char.ofNat byte.toNat ≠ '_' := by
    intro byte hplain heq
    have hnat := toNat_byteChar byte
    rw [heq] at hnat
    simp only [plain, ← hnat, decide_eq_true_eq] at hplain
    revert hplain
    decide
  unfold escapeByte at h
  split at h
  · rename_i hfirst
    split at h
    · rename_i hsecond
      simp only [List.cons_append, List.nil_append, List.cons.injEq] at h
      have hnat := congrArg Char.toNat h.1
      rw [toNat_byteChar, toNat_byteChar] at hnat
      exact ⟨UInt8.toNat_inj.mp hnat, h.2⟩
    · simp only [List.cons_append, List.nil_append, List.cons.injEq] at h
      exact absurd h.1 (hplain hfirst)
  · split at h
    · rename_i hsecond
      simp only [List.cons_append, List.nil_append, List.cons.injEq] at h
      exact absurd h.1.symm (hplain hsecond)
    · rw [List.cons_append, List.cons_append, List.cons.injEq] at h
      obtain ⟨hdigits, hrest⟩ := List.append_inj h.2 rfl
      exact ⟨hexDigits_injective hdigits, hrest⟩

theorem flatMap_escapeByte_injective {first second : List UInt8}
    (h : first.flatMap escapeByte = second.flatMap escapeByte) : first = second := by
  have hne : ∀ (byte : UInt8) (rest : GenapiXml.Text), escapeByte byte ++ rest ≠ [] := by
    intro byte rest
    unfold escapeByte
    split <;> simp
  induction first generalizing second with
  | nil =>
    cases second with
    | nil => rfl
    | cons byte rest =>
      rw [List.flatMap_cons] at h
      exact absurd h.symm (hne byte _)
  | cons byte rest ih =>
    cases second with
    | nil =>
      rw [List.flatMap_cons] at h
      exact absurd h (hne byte _)
    | cons other others =>
      rw [List.flatMap_cons, List.flatMap_cons] at h
      obtain ⟨rfl, hrest⟩ := escapeByte_append h
      rw [ih hrest]

theorem encode_injective {first second : GenapiXml.Text}
    (h : Library.Utf8.encode first = Library.Utf8.encode second) : first = second := by
  have hdecoded := congrArg Library.Utf8.decodeLossy h
  rw [← List.append_nil (Library.Utf8.encode first),
    ← List.append_nil (Library.Utf8.encode second), Library.Utf8.decodeLossy_encode,
    Library.Utf8.decodeLossy_encode] at hdecoded
  simpa using hdecoded

theorem toDigits_injective {first second : Nat}
    (h : Nat.toDigits 10 first = Nat.toDigits 10 second) : first = second := by
  rw [← numeral_toDigits first, h, numeral_toDigits]

theorem place_injective {bus bus' : GenapiXml.Text} {address address' : UInt8}
    (h : place bus address = place bus' address') : bus = bus' ∧ address = address' := by
  have hdash : ∀ n, '-' ∉ Nat.toDigits 10 n := by
    intro n hmem
    exact absurd (isDigits_toDigits n '-' hmem) (by decide)
  unfold place at h
  rcases List.append_eq_append_iff.mp h with ⟨between, hbus, htail⟩ | ⟨between, hbus, htail⟩
  · cases between with
    | nil =>
      simp only [List.nil_append, List.cons.injEq, true_and] at htail
      exact ⟨by simpa using hbus.symm, UInt8.toNat_inj.mp (toDigits_injective htail)⟩
    | cons c between =>
      rw [List.cons_append, List.cons.injEq] at htail
      exact absurd (htail.2 ▸ by simp : '-' ∈ Nat.toDigits 10 address.toNat) (hdash _)
  · cases between with
    | nil =>
      simp only [List.nil_append, List.cons.injEq, true_and] at htail
      exact ⟨by simpa using hbus, (UInt8.toNat_inj.mp (toDigits_injective htail)).symm⟩
    | cons c between =>
      rw [List.cons_append, List.cons.injEq] at htail
      exact absurd (htail.2 ▸ by simp : '-' ∈ Nat.toDigits 10 address'.toNat) (hdash _)

/-- What a camera shows of itself before it is opened. -/
inductive Camera where
  | gige (mac : Mac)
  | u3v (vendorId productId : UInt16) (serial : Option GenapiXml.Text) (bus : GenapiXml.Text)
      (address : UInt8)

def deviceId : Camera → GenapiXml.Text
  | .gige mac => gigeDeviceId mac
  | .u3v vendorId productId serial bus address =>
    u3vDeviceId vendorId productId serial bus address

/-- What names a camera: its MAC address, its serial number beside its vendor and
product, or its place. -/
inductive Identity where
  | mac (mac : Mac)
  | serial (vendorId productId : UInt16) (serial : GenapiXml.Text)
  | place (bus : GenapiXml.Text) (address : UInt8)
deriving DecidableEq

def Camera.identity : Camera → Identity
  | .gige mac => .mac mac
  | .u3v vendorId productId serial bus address =>
    match ownSerial serial with
    | some serial => .serial vendorId productId serial
    | none => .place bus address

/-- What follows the vendor and the product in a USB camera's id. -/
def Camera.instanceText : Camera → GenapiXml.Text
  | .gige _ => []
  | .u3v _ _ serial bus address => (ownSerial serial).getD (Service.place bus address)

/-- One camera's serial number spells the place of another of the same vendor and
product. -/
inductive SpellsPlace : Camera → Camera → Prop
  | intro {vendorId productId : UInt16} {serial other : Option GenapiXml.Text}
      {bus bus' : GenapiXml.Text} {address address' : UInt8}
      (hserial : ownSerial serial = some (place bus' address')) (hnone : ownSerial other = none) :
      SpellsPlace (.u3v vendorId productId serial bus address)
        (.u3v vendorId productId other bus' address')

theorem isKeyChunk_deviceId (camera : Camera) : IsKeyChunk (deviceId camera) := by
  have hcam := List.all_eq_true.mp (by decide : gigeStart.all allowed = true)
  have hu3v := List.all_eq_true.mp (by decide : u3vStart.all allowed = true)
  cases camera with
  | gige mac =>
    refine isKeyChunk_of_allowed (List.append_ne_nil_of_left_ne_nil (by decide) _) ?_
    intro c hmem
    rcases List.mem_append.mp hmem with hmem | hmem
    · exact hcam c hmem
    · obtain ⟨byte, -, hmem⟩ := List.mem_flatMap.mp hmem
      exact hexDigits_allowed byte c hmem
  | u3v vendorId productId serial bus address =>
    refine isKeyChunk_of_allowed (List.append_ne_nil_of_right_ne_nil _ (List.cons_ne_nil _ _)) ?_
    intro c hmem
    simp only [deviceId, u3vDeviceId, List.mem_append, List.mem_cons] at hmem
    rcases hmem with (hmem | hmem | hmem) | rfl | hmem
    · exact hu3v c hmem
    · exact hexWord_allowed vendorId c hmem
    · exact hexWord_allowed productId c hmem
    · decide
    · obtain ⟨byte, -, hmem⟩ := List.mem_flatMap.mp hmem
      exact escapeByte_allowed byte c hmem

theorem gigeDeviceId_injective {mac other : Mac} (h : gigeDeviceId mac = gigeDeviceId other) :
    mac = other := by
  have hdigits : ∀ first second : List UInt8,
      first.flatMap hexDigits = second.flatMap hexDigits → first = second := by
    intro first
    induction first with
    | nil =>
      intro second h
      cases second with
      | nil => rfl
      | cons byte rest => simp [hexDigits] at h
    | cons byte rest ih =>
      intro second h
      cases second with
      | nil => simp [hexDigits] at h
      | cons byte' others =>
        rw [List.flatMap_cons, List.flatMap_cons] at h
        obtain ⟨hbyte, hrest⟩ := List.append_inj h rfl
        rw [hexDigits_injective hbyte, ih others hrest]
  exact Subtype.ext (hdigits _ _ (List.append_cancel_left h))

theorem u3vDeviceId_eq_iff {v p v' p' : UInt16} {serial serial' : Option GenapiXml.Text}
    {bus bus' : GenapiXml.Text} {address address' : UInt8} :
    u3vDeviceId v p serial bus address = u3vDeviceId v' p' serial' bus' address' ↔
      v = v' ∧ p = p' ∧ (Camera.u3v v p serial bus address).instanceText =
        (Camera.u3v v' p' serial' bus' address').instanceText := by
  have hform : ∀ (v p : UInt16) (serial : Option GenapiXml.Text) (bus : GenapiXml.Text)
      (address : UInt8), u3vDeviceId v p serial bus address =
        u3vStart ++ (hexWord v ++ (hexWord p ++ '-' :: (Library.Utf8.encode
          (Camera.u3v v p serial bus address).instanceText).flatMap escapeByte)) := by
    intro v p serial bus address
    cases hserial : ownSerial serial <;>
      simp [u3vDeviceId, Camera.instanceText, hserial]
  rw [hform, hform]
  constructor
  · intro h
    obtain ⟨hv, h⟩ := List.append_inj (List.append_cancel_left h) rfl
    obtain ⟨hp, h⟩ := List.append_inj h rfl
    rw [List.cons.injEq] at h
    exact ⟨hexWord_injective hv, hexWord_injective hp,
      encode_injective (flatMap_escapeByte_injective h.2)⟩
  · rintro ⟨rfl, rfl, hinstance⟩
    rw [hinstance]

theorem gigeDeviceId_ne_u3v (mac : Mac) (v p : UInt16) (serial : Option GenapiXml.Text)
    (bus : GenapiXml.Text) (address : UInt8) :
    gigeDeviceId mac ≠ u3vDeviceId v p serial bus address := by
  intro h
  have hdigit : ∀ n < 16, Nat.digitChar n ≠ 'u' := by decide
  obtain ⟨bytes, hlength⟩ := mac
  cases bytes with
  | nil => cases hlength
  | cons byte rest =>
    have hbyte : byte.toNat < 256 := byte.toNat_lt
    have hfifth : some (Nat.digitChar (byte.toNat / 16)) = some 'u' :=
      congrArg (fun text : GenapiXml.Text => text[4]?) h
    exact hdigit _ (by omega) (Option.some.inj hfifth)

/-- Two cameras share an id just when the serial number of one spells the place of the
other; an id is one chunk of a key, and the keys of a camera's nodes give their names
back. -/
theorem device_ids_differ_iff {camera other : Camera} (hdiffer : camera.identity ≠ other.identity) :
    (deviceId camera ≠ deviceId other ↔
      ¬ SpellsPlace camera other ∧ ¬ SpellsPlace other camera) ∧
    ∀ any : Camera, IsKeyChunk (deviceId any) ∧ ∀ nodeName : GenapiXml.Text, '/' ∉ nodeName →
      ∀ key ∈ nodeKeys, extractNodeName (key (deviceId any) nodeName) = some nodeName := by
  refine ⟨?_, fun any => ⟨isKeyChunk_deviceId any, fun nodeName hnode key hkey =>
    extractNodeName_of_mem (isKeyChunk_deviceId any) hnode hkey⟩⟩
  have hclash : ∀ {first second : Camera}, SpellsPlace first second →
      deviceId first = deviceId second := by
    rintro _ _ ⟨hserial, hnone⟩
    exact u3vDeviceId_eq_iff.mpr ⟨rfl, rfl, by simp [Camera.instanceText, hserial, hnone]⟩
  refine ⟨fun hids => ⟨fun h => hids (hclash h), fun h => hids (hclash h).symm⟩, ?_⟩
  rintro ⟨hfirst, hsecond⟩ hids
  cases camera with
  | gige mac =>
    cases other with
    | gige mac' => exact hdiffer (congrArg Identity.mac (gigeDeviceId_injective hids))
    | u3v v' p' serial' bus' address' => exact gigeDeviceId_ne_u3v _ _ _ _ _ _ hids
  | u3v v p serial bus address =>
    cases other with
    | gige mac' => exact gigeDeviceId_ne_u3v _ _ _ _ _ _ hids.symm
    | u3v v' p' serial' bus' address' =>
      obtain ⟨rfl, rfl, hinstance⟩ := u3vDeviceId_eq_iff.mp hids
      simp only [Camera.instanceText] at hinstance
      simp only [Camera.identity] at hdiffer
      cases hserial : ownSerial serial with
      | some text =>
        cases hserial' : ownSerial serial' with
        | some text' =>
          rw [hserial, hserial'] at hinstance hdiffer
          exact hdiffer (by simpa using hinstance)
        | none =>
          rw [hserial, hserial', Option.getD_some, Option.getD_none] at hinstance
          exact hfirst (.intro (by rw [hserial, hinstance]) hserial')
      | none =>
        cases hserial' : ownSerial serial' with
        | some text' =>
          rw [hserial, hserial', Option.getD_some, Option.getD_none] at hinstance
          exact hsecond (.intro (by rw [hserial', hinstance]) hserial)
        | none =>
          rw [hserial, hserial', Option.getD_none, Option.getD_none] at hinstance
          rw [hserial, hserial'] at hdiffer
          obtain ⟨rfl, rfl⟩ := place_injective hinstance
          exact hdiffer rfl

/-- A Basler camera by its serial, and one of another model without. -/
theorem device_ids_differ_usb :
    deviceId (.u3v 0x2676 0xba02 (some ['A', '1']) ['2'] 7) ≠
      deviceId (.u3v 0x2676 0xba02 none ['2'] 8) :=
  ((device_ids_differ_iff (by decide)).1).mpr
    ⟨by rintro ⟨hserial, -⟩; revert hserial; decide, by rintro ⟨hserial, -⟩; revert hserial; decide⟩

/-- A camera whose serial number is `2-8`, beside one without a serial at address 8 of
bus 2. -/
theorem a_serial_spells_a_place :
    ¬ ∀ camera other : Camera, camera.identity ≠ other.identity →
      deviceId camera ≠ deviceId other := by
  intro hall
  exact hall (.u3v 0x2676 0xba02 (some ['2', '-', '8']) ['2'] 7)
    (.u3v 0x2676 0xba02 none ['2'] 8) (by decide) (by decide)

end VivaGenicam.Service
