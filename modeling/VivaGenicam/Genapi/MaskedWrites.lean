import VivaGenicam.Genapi.ReadBack

/-!
What a write of a bit field changes of a device that is memory. The write starts from the bytes
that the node keeps, where it may serve them: it changes only its own field exactly when these
agree with the register in every other bit.
-/

namespace VivaGenicam.Genapi

open GenapiXml Library.Programs

open Prog (action ofExcept)

/-- The writes that a user may ask for. -/
inductive WriteCall where
  | integer (name : Text) (value : Int64)
  | float (name : Text) (value : Float)
  | boolean (name : Text) (value : Bool)
  | enumeration (name entry : Text)
  | string (name value : Text)
  | register (name : Text) (data : List UInt8)

def WriteCall.program (map : NodeMap) : WriteCall → Setter Unit
  | .integer name value => map.setInteger name value
  | .float name value => map.setFloat name value
  | .boolean name value => map.setBool name value
  | .enumeration name entry => map.setEnum name entry
  | .string name value => map.setString name value
  | .register name data => map.setRegister name data

def WriteCall.run (map : NodeMap) (clock : Nat → Nat) (fuel : Nat) (call : WriteCall)
    (w : World Memory) : Outcome GenApiError Unit × World Memory :=
  Library.Programs.run (set (onMemory map clock) fuel) (deed (onMemory map clock) fuel)
    (call.program map) w

/-- The states that reads and writes which succeed lead to, whatever memory held at first. -/
inductive InReach (map : NodeMap) (clock : Nat → Nat) : World Memory → Prop
  | start (memory : Memory) : InReach map clock { device := memory }
  | got {α : Type} {w w' : World Memory} (fuel : Nat) (query : Query α) (value : α)
      (before : InReach map clock w)
      (h : get (onMemory map clock) fuel α query w = (.ok value, w')) : InReach map clock w'
  | wrote {w w' : World Memory} (fuel : Nat) (call : WriteCall) (before : InReach map clock w)
      (h : call.run map clock fuel w = (.ok (), w')) : InReach map clock w'

/-- Memory changed in a field of a register, which holds the encoded value now, and nowhere
else. -/
structure OnlyField (before after : Memory) (address len : Nat) (field : BitField)
    (encoded : Nat) : Prop where
  outside : ∀ a, a < address ∨ address + len ≤ a → after a = before a
  others : ∀ byte bit, byte < len → bit < 8 → ¬Covers (before.bytes address len) field byte bit →
    payloadBit (after.bytes address len) byte bit = payloadBit (before.bytes address len) byte bit
  held : extract (after.bytes address len) field = .ok encoded

/-- Two payloads of a register agree outside a field. -/
def AgreeOutside (field : BitField) (first second : List UInt8) : Prop :=
  ∀ byte bit, byte < second.length → bit < 8 → ¬Covers second field byte bit →
    payloadBit first byte bit = payloadBit second byte bit

/-- The bytes kept for a node, where they may be served and fill the register, are the
device's in all bits but the field's. -/
def KeptAgrees (setting : Setting Memory) (u : World Memory) (name : Text) (address len : Nat)
    (field : BitField) : Prop :=
  ∀ kept, (u.mayServe setting name).1 = true → (u.caches name).raw = some kept →
    kept.length = len → AgreeOutside field kept (u.device.bytes address len)

/-- The bytes that a masked write starts from. -/
def startBytes (setting : Setting Memory) (u : World Memory) (name : Text) (address len : Nat) :
    List UInt8 :=
  ((if (u.mayServe setting name).1 then (u.caches name).raw else none).filter
    (·.length = len)).getD (u.device.bytes address len)

theorem Memory.length_bytes (m : Memory) (address len : Nat) :
    (m.bytes address len).length = len := by
  simp [Memory.bytes]

theorem Memory.overwrite_outside (m : Memory) (address : Nat) (data : List UInt8) {a : Nat}
    (h : a < address ∨ address + data.length ≤ a) : m.overwrite address data a = m a := by
  unfold Memory.overwrite
  split
  · rw [List.getElem?_eq_none (by omega), Option.getD_none]
  · rfl

theorem covers_congr {bits bits' : List UInt8} (h : bits'.length = bits.length) (field : BitField)
    (byte bit : Nat) : Covers bits' field byte bit ↔ Covers bits field byte bit := by
  unfold Covers
  rw [fieldShift_congr h, h]

theorem fits_of_insert {dst written : List UInt8} {field : BitField} {value : Nat}
    (h : insert dst field value = .ok written) : Fits dst.length field := by
  unfold insert at h
  cases hvalid : validateRange dst field with
  | error e =>
    rw [hvalid] at h
    cases h
  | ok valid =>
    unfold validateRange at hvalid
    split at hvalid
    · cases hvalid
    · split at hvalid
      · cases hvalid
      · split at hvalid
        · cases hvalid
        · unfold Fits
          omega

section

variable {map : NodeMap} {clock : Nat → Nat} {setting : Setting Memory} {u : World Memory}
  {name : Text} {address len : Nat} {field : BitField}

theorem length_startBytes : (startBytes setting u name address len).length = len := by
  unfold startBytes
  cases hkept : (if (u.mayServe setting name).1 then (u.caches name).raw else none).filter
      (·.length = len) with
  | none => exact Memory.length_bytes ..
  | some kept => exact of_decide_eq_true (Option.filter_eq_some_iff.mp hkept).2

theorem startBytes_agree :
    AgreeOutside field (startBytes setting u name address len) (u.device.bytes address len) ↔
      KeptAgrees setting u name address len field := by
  unfold startBytes KeptAgrees
  cases hmay : (u.mayServe setting name).1 with
  | false => simp [AgreeOutside]
  | true =>
    cases hraw : (u.caches name).raw with
    | none => simp [AgreeOutside]
    | some kept =>
      by_cases hlen : kept.length = len
      · simp [Option.filter, hlen]
      · simp [Option.filter, hlen, AgreeOutside]

/-- A field was written into the start bytes: nothing else changed exactly when these were the
register's outside the field. -/
theorem onlyField_iff {memory : Memory} {start written : List UInt8} {encoded : Nat}
    (hlen : start.length = len) (hinsert : insert start field encoded = .ok written) :
    OnlyField memory (memory.overwrite address written) address len field encoded ↔
      AgreeOutside field start (memory.bytes address len) := by
  obtain ⟨hwritten, hheld, hothers⟩ := insert_bits (fits_of_insert hinsert) hinsert
  have hbytes : (memory.overwrite address written).bytes address len = written := by
    rw [← hlen, ← hwritten]
    exact Memory.bytes_overwrite ..
  have hcovers := @covers_congr (memory.bytes address len) start
    (by rw [hlen, Memory.length_bytes]) field
  have hsame : ∀ byte bit, byte < len → bit < 8 →
      ¬Covers (memory.bytes address len) field byte bit →
        payloadBit written byte bit = payloadBit start byte bit := fun byte bit hbyte hbit hout =>
    hothers byte bit (by omega) hbit ((hcovers byte bit).not.mpr hout)
  constructor
  · intro h byte bit hbyte hbit hout
    rw [Memory.length_bytes] at hbyte
    rw [← hsame byte bit hbyte hbit hout, ← h.others byte bit hbyte hbit hout, hbytes]
  · intro hagree
    refine ⟨fun a ha => Memory.overwrite_outside _ _ _ (by omega), ?_, by rw [hbytes, hheld]⟩
    intro byte bit hbyte hbit hout
    rw [hbytes, hsame byte bit hbyte hbit hout]
    exact hagree byte bit (by rwa [Memory.length_bytes]) hbit hout

variable {answer : Handler Query GenApiError (World Memory)} {fuel : Nat} {w w' : World Memory}

theorem run_freshRaw (u : World Memory) :
    ∃ u', run answer (look (onMemory map clock)) (NodeMap.freshRaw name true address len) u =
        (.ok (startBytes (onMemory map clock) u name address len), u') ∧ u'.device = u.device := by
  have hcaches : (u.mayServe (onMemory map clock) name).2.caches = u.caches :=
    (mayServe_same u name).1
  have hdevice : (u.mayServe (onMemory map clock) name).2.device = u.device :=
    device_mayServe u name
  have hread : ∀ v : World Memory, v.readDevice (onMemory map clock) name address len =
      (.ok (v.device.bytes address len),
        { v with accesses := v.accesses ++ [.read name address len] }) := fun _ => rfl
  unfold NodeMap.freshRaw NodeMap.dropStaleRaw NodeMap.getRawOrRead startBytes
  cases hmay : (u.mayServe (onMemory map clock) name).1 with
  | false => simp [run_bind, look, hmay, World.setCaches, NodeMap.clearRaw, hread, hdevice]
  | true =>
    cases hkept : (u.caches name).raw.filter (·.length = len) with
    | none => simp [run_bind, look, hmay, hcaches, hkept, hread, hdevice]
    | some kept => simp [run_bind, look, hmay, hcaches, hkept, hdevice]

theorem device_of_write {readable : Bool} {put : Bool → Option (List UInt8) → Caches → Caches}
    {raw : List UInt8} {answer : Handler Tell GenApiError (World Memory)}
    (h : run answer (deed (onMemory map clock) fuel) (do
      action (.write name address raw)
      reading (map.afterRegisterWrite name raw readable put)
      action (.invalidateDependents name)) u = (.ok (), w')) :
    w'.device = u.device.overwrite address raw := by
  rw [run_bind, run_action] at h
  obtain ⟨_, w₁, hwrite, h⟩ := follow_eq_ok.mp h
  rw [run_bind, run_reading] at h
  obtain ⟨_, w₂, hkeep, h⟩ := follow_eq_ok.mp h
  rw [run_action] at h
  have hw₁ : w₁.device = u.device.overwrite address raw :=
    (congrArg (fun r => r.2.device) hwrite).symm
  have hw₂ : w₂.device = w₁.device :=
    (congrArg (fun r => r.2.device) hkeep).symm.trans (device_run fuel _ w₁)
  have hw' : w' = w₂.invalidateDependents map name := (congrArg Prod.snd h).symm
  rw [hw', ← hw₁, ← hw₂]
  exact device_invalidateAllOf ..

theorem run_inserted {encoded : Nat} {raw : List UInt8}
    (h : run answer (look (onMemory map clock)) (do
      let start ← NodeMap.freshRaw name true address len
      ofExcept ((insert start field encoded).mapError (mapBitopsError name))) u = (.ok raw, w')) :
    insert (startBytes (onMemory map clock) u name address len) field encoded = .ok raw ∧
      w'.device = u.device := by
  obtain ⟨u', hstart, hdevice⟩ := @run_freshRaw map clock name address len answer u
  rw [run_bind, hstart, follow_ok, run_ofExcept] at h
  cases hinsert : insert (startBytes (onMemory map clock) u name address len) field encoded with
  | error e =>
    rw [hinsert] at h
    cases h
  | ok written =>
    rw [hinsert] at h
    cases h
    exact ⟨rfl, hdevice⟩

/-- A call comes to a register, past what it has to ask for first. -/
def Comes (map : NodeMap) (clock : Nat → Nat) (fuel : Nat) (place : Asking (Nat × Nat))
    (w u : World Memory) (address len : Nat) : Prop :=
  run (get (onMemory map clock) fuel) (look (onMemory map clock)) place.among w =
    (.ok (address, len), u)

theorem Comes.device {place : Asking (Nat × Nat)} (h : Comes map clock fuel place w u address len) :
    u.device = w.device :=
  (congrArg (fun r => r.2.device) h).symm.trans (device_run fuel _ w)

/-- What an integer's write asks for, and where its register is. -/
def integerPlace (map : NodeMap) (node : IntegerNode) (name : Text) (value : Int64)
    (addressing : Addressing) : Asking (Nat × Nat) := do
  map.ensureWritableNow name node.access
  NodeMap.ensureIntegerInRange name value
  map.locateForWrite name addressing

def booleanPlace (map : NodeMap) (node : BooleanNode) (name : Text) (addressing : Addressing) :
    Asking (Nat × Nat) := do
  map.ensureWritableNow name node.access
  map.locateForWrite name addressing

/-- A masked write was made of the start bytes. -/
structure Masked (map : NodeMap) (clock : Nat → Nat) (w' u : World Memory) (name : Text)
    (address len : Nat) (field : BitField) (encoded : Nat) : Prop where
  written : ∃ raw, insert (startBytes (onMemory map clock) u name address len) field encoded =
    .ok raw ∧ w'.device = u.device.overwrite address raw

theorem Masked.onlyField_iff {encoded : Nat}
    (h : Masked map clock w' u name address len field encoded)
    (hdevice : u.device = w.device) :
    OnlyField w.device w'.device address len field encoded ↔
      KeptAgrees (onMemory map clock) u name address len field := by
  obtain ⟨raw, hinsert, hw'⟩ := h.written
  rw [hw', ← hdevice, Genapi.onlyField_iff length_startBytes hinsert, startBytes_agree]

theorem setInteger_masked {node : IntegerNode} {addressing : Addressing} {value : Int64}
    (hnode : map.node name = some (.integer node))
    (hsource : node.value = none ∧ node.pvalue = none ∧ node.indexed = none)
    (haddressing : node.addressing = some addressing) (hfield : node.bitfield = some field)
    (hreadable : node.access ≠ .wo)
    (h : (WriteCall.integer name value).run map clock fuel w = (.ok (), w')) :
    ∃ address len u encoded, Comes map clock fuel (integerPlace map node name value addressing) w u
        address len ∧
      encodeBitfieldValue name value field.bitLength node.sign.isSigned = .ok encoded ∧
      Masked map clock w' u name address len field encoded := by
  obtain ⟨hvalue, hpvalue, hindexed⟩ := hsource
  have hget : map.getIntegerNode name = .ok node := by
    unfold NodeMap.getIntegerNode
    rw [hnode]
  simp only [WriteCall.run, WriteCall.program, NodeMap.setInteger, hnode, hget,
    Prog.ofExcept, Prog.done_bind] at h
  obtain ⟨_, u₁, hwritable, h⟩ := run_asking_eq_ok h
  obtain ⟨_, u₂, hrange, h⟩ := run_asking_eq_ok h
  simp only [hvalue, hpvalue, hindexed, haddressing, NodeMap.setIntegerRegister] at h
  obtain ⟨⟨address, len⟩, u, hlocate, h⟩ := run_asking_eq_ok h
  have hcomes : Comes map clock fuel (integerPlace map node name value addressing) w u address
      len := by
    unfold Comes integerPlace
    rw [Prog.among_bind, run_bind, hwritable, follow_ok, Prog.among_bind, run_bind, hrange,
      follow_ok, hlocate]
  rw [run_bind, run_reading] at h
  obtain ⟨raw, v, hraw, h⟩ := follow_eq_ok.mp h
  simp only [NodeMap.integerBytes, hfield, ne_eq, hreadable, not_false_eq_true,
    decide_true] at hraw
  cases hencode : encodeBitfieldValue name value field.bitLength node.sign.isSigned with
  | error e =>
    simp only [hencode, Prog.ofExcept] at hraw
    cases hraw
  | ok encoded =>
    simp only [hencode, Prog.ofExcept, Prog.done_bind] at hraw
    obtain ⟨hinsert, hdevice⟩ := run_inserted hraw
    exact ⟨address, len, u, encoded, hcomes, rfl, ⟨raw, hinsert, hdevice ▸ device_of_write h⟩⟩

theorem setBool_masked {node : BooleanNode} {addressing : Addressing} {value : Bool}
    (hnode : map.node name = some (.boolean node)) (hpvalue : node.pvalue = none)
    (haddressing : node.addressing = some addressing) (hfield : node.bitfield = some field)
    (hreadable : node.access ≠ .wo)
    (h : (WriteCall.boolean name value).run map clock fuel w = (.ok (), w')) :
    ∃ address len u, Comes map clock fuel (booleanPlace map node name addressing) w u address len ∧
      Masked map clock w' u name address len field (if value then 1 else 0) := by
  have hget : map.getBoolNode name = .ok node := by
    unfold NodeMap.getBoolNode
    rw [hnode]
  simp only [WriteCall.run, WriteCall.program, NodeMap.setBool, hget,
    Prog.ofExcept, Prog.done_bind] at h
  obtain ⟨_, u₁, hwritable, h⟩ := run_asking_eq_ok h
  simp only [hpvalue, haddressing, hfield, NodeMap.setBoolRegister] at h
  obtain ⟨⟨address, len⟩, u, hlocate, h⟩ := run_asking_eq_ok h
  have hcomes : Comes map clock fuel (booleanPlace map node name addressing) w u address len := by
    unfold Comes booleanPlace
    rw [Prog.among_bind, run_bind, hwritable, follow_ok, hlocate]
  simp only [ne_eq, hreadable, not_false_eq_true, decide_true] at h
  rw [run_bind, run_reading] at h
  obtain ⟨start, v, hstart, h⟩ := follow_eq_ok.mp h
  rw [run_bind] at h
  obtain ⟨raw, v', hraw, h⟩ := follow_eq_ok.mp h
  rw [run_ofExcept] at hraw
  obtain ⟨rfl, hinsert⟩ : v = v' ∧ _ := ⟨congrArg Prod.snd hraw, congrArg Prod.fst hraw⟩
  have hrun : run (get (onMemory map clock) fuel) (look (onMemory map clock)) (do
      let start ← NodeMap.freshRaw name true address len
      ofExcept ((insert start field (if value then 1 else 0)).mapError (mapBitopsError name))) u =
        (.ok raw, v) := by
    rw [run_bind, hstart, follow_ok, run_ofExcept]
    exact hraw
  obtain ⟨hinsert, hdevice⟩ := run_inserted hrun
  exact ⟨address, len, u, hcomes, ⟨raw, hinsert, hdevice ▸ device_of_write h⟩⟩

end

/-- Whatever calls were made before, the write of a bit field that can be read changes its own
bits and no others exactly when the bytes that the node keeps, where it may serve them, are the
register's in its other bits. -/
theorem masked_write_iff (map : NodeMap) (clock : Nat → Nat) :
    (∀ (w w' : World Memory) (fuel : Nat) (name : Text) (node : IntegerNode)
      (addressing : Addressing) (field : BitField) (value : Int64), InReach map clock w →
      map.node name = some (.integer node) →
      node.value = none ∧ node.pvalue = none ∧ node.indexed = none →
      node.addressing = some addressing → node.bitfield = some field → node.access ≠ .wo →
      (WriteCall.integer name value).run map clock fuel w = (.ok (), w') →
        ∃ address len u encoded,
          Comes map clock fuel (integerPlace map node name value addressing) w u address len ∧
          encodeBitfieldValue name value field.bitLength node.sign.isSigned = .ok encoded ∧
          (OnlyField w.device w'.device address len field encoded ↔
            KeptAgrees (onMemory map clock) u name address len field)) ∧
    (∀ (w w' : World Memory) (fuel : Nat) (name : Text) (node : BooleanNode)
      (addressing : Addressing) (field : BitField) (value : Bool), InReach map clock w →
      map.node name = some (.boolean node) → node.pvalue = none →
      node.addressing = some addressing → node.bitfield = some field → node.access ≠ .wo →
      (WriteCall.boolean name value).run map clock fuel w = (.ok (), w') →
        ∃ address len u,
          Comes map clock fuel (booleanPlace map node name addressing) w u address len ∧
          (OnlyField w.device w'.device address len field (if value then 1 else 0) ↔
            KeptAgrees (onMemory map clock) u name address len field)) := by
  constructor
  · intro w w' fuel name node addressing field value _ hnode hsource haddressing hfield hreadable h
    obtain ⟨address, len, u, encoded, hcomes, hencode, hmasked⟩ :=
      setInteger_masked hnode hsource haddressing hfield hreadable h
    exact ⟨address, len, u, encoded, hcomes, hencode, hmasked.onlyField_iff hcomes.device⟩
  · intro w w' fuel name node addressing field value _ hnode hpvalue haddressing hfield hreadable h
    obtain ⟨address, len, u, hcomes, hmasked⟩ :=
      setBool_masked hnode hpvalue haddressing hfield hreadable h
    exact ⟨address, len, u, hcomes, hmasked.onlyField_iff hcomes.device⟩

def nibble (name : Text) (offset : Nat) : IntegerNode where
  name
  nodeMeta := ⟨.beginner, none, none, none, none, none, false, none, none, []⟩
  addressing := some ⟨[.fixed 16], 1, none, none⟩
  access := .rw
  min := none
  max := none
  inc := none
  bitfield := some ⟨offset, 4, .little⟩
  sign := .unsigned
  byteOrder := .little
  selected := []
  pvalue := none
  pMax := none
  pMin := none
  pInc := none
  value := none
  indexed := none
  predicates := {}

def nibbleMap : NodeMap :=
  .ofNodes [(lit "Low", .integer (nibble (lit "Low") 0)),
    (lit "High", .integer (nibble (lit "High") 4))] (by simp [Node.name, nibble]) [] [] [] [] []

/-- The low bits were read, then the high ones written. -/
def highWritten : World Memory :=
  ((WriteCall.integer (lit "High") 15).run nibbleMap id 3
    (get (onMemory nibbleMap id) 3 _ (.integer (lit "Low")) { device := fun _ => 0 }).2).2

def lowWritten : World Memory :=
  ((WriteCall.integer (lit "Low") 1).run nibbleMap id 3 highWritten).2

/-- The write of the low bits puts back the high ones that were read with them. -/
theorem masked_write_reverts :
    ¬ ∀ (map : NodeMap) (clock : Nat → Nat) (w w' : World Memory) (fuel : Nat) (name : Text)
      (node : IntegerNode) (addressing : Addressing) (field : BitField) (value : Int64),
      InReach map clock w → map.node name = some (.integer node) →
      node.value = none ∧ node.pvalue = none ∧ node.indexed = none →
      node.addressing = some addressing → node.bitfield = some field → node.access ≠ .wo →
      (WriteCall.integer name value).run map clock fuel w = (.ok (), w') →
        ∀ address len u encoded,
          Comes map clock fuel (integerPlace map node name value addressing) w u address len →
          encodeBitfieldValue name value field.bitLength node.sign.isSigned = .ok encoded →
          OnlyField w.device w'.device address len field encoded := by
  intro hall
  have hreached : InReach nibbleMap id highWritten :=
    .wrote 3 (.integer (lit "High") 15)
      (.got 3 (.integer (lit "Low")) 0 (.start fun _ => 0) (Prod.ext rfl rfl)) (Prod.ext rfl rfl)
  have honly := hall nibbleMap id highWritten lowWritten 3 (lit "Low") (nibble (lit "Low") 0)
    ⟨[.fixed 16], 1, none, none⟩ ⟨0, 4, .little⟩ 1 hreached rfl ⟨rfl, rfl, rfl⟩ rfl rfl (by decide)
    (Prod.ext rfl rfl) 16 1 _ 1 (Prod.ext rfl rfl) rfl
  have hlost := honly.others 0 4 (by decide) (by decide) (by unfold Covers; decide +kernel)
  exact absurd hlost (by decide +kernel)

end VivaGenicam.Genapi
