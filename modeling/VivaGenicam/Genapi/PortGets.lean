import VivaGenicam.Genapi.PortRuns

/-!
What a get of a register on a port comes to: its address and length are resolved and give a
slice of the data attached now, which is read, or lies outside the data; or no data is
attached.
-/

namespace VivaGenicam.Genapi

open GenapiXml Library.Programs

open Prog (question action fail ofExcept)

variable {D : Type}

/-- The query that reads a node of its kind. -/
def Query.Fits : ∀ {α : Type}, Query α → Node → Prop
  | _, .integer _, .integer _ | _, .float _, .float _ | _, .boolean _, .boolean _
  | _, .enumeration _, .enumeration _ | _, .string _, .string _ | _, .register _, .register _ =>
    True
  | _, _, _ => False

/-- Neither the node nor what is imposed on it forbids reading it. -/
def Readable (map : NodeMap) (name : Text) (node : Node) : Prop :=
  node.accessMode ≠ some .wo ∧ map.imposedAccess name ≠ some .wo

/-- The cell that may answer a query. -/
def Query.kept : ∀ {α : Type}, Query α → Caches → Option α
  | _, .integer _, c => c.integer
  | _, .float _, c => c.float
  | _, .boolean _, c => c.boolean
  | _, .enumeration _, c => c.entry
  | _, .string _, c => c.text.map (·.1)
  | _, .register _, c => c.bytes.map (·.1)
  | _, _, _ => none

/-- No cell answers the query: none may, or it is empty. -/
def Unserved {α : Type} (setting : Setting D) (name : Text) (q : Query α) (w : World D) : Prop :=
  (w.mayServe setting name).1 = false ∨ q.kept (w.caches name) = none

/-- Where a get starts to look for its register: a text or a block of bytes has asked its cell
by then, an enumeration has dropped what is stale while its entry clears itself. -/
def looksFrom {α : Type} (setting : Setting D) (fuel : Nat) (name : Text) (q : Query α)
    (w : World D) : World D :=
  match q with
  | .string _ | .register _ => (w.mayServe setting name).2
  | .enumeration _ => (run (get setting fuel) (look setting)
      (setting.map.forgetReach name (w.selfClearingActive setting.map name)) w).2
  | _ => w

/-- When a get asks its cell: a text or a block of bytes before its register is located, the
others after. -/
def Query.asksIn {α : Type} (q : Query α) (before after : World D) : World D :=
  match q with
  | .string _ | .register _ => before
  | _ => after

/-- How an enumeration reads a register of its own. -/
def NodeMap.readEntry (map : NodeMap) (node : EnumNode) (name : Text) (addressing : Addressing) :
    Getter Text := do
  let active ← action (.selfClearingActive name)
  map.forgetReach name active
  let location ← map.locate name addressing
  match ← servedEntry name active with
  | some entry => pure entry
  | none => do
    let bytes ← readLocation name location
    let raw ← ofExcept (bytesToI64 name bytes .signed .big)
    let entry ← lookupEnumEntry node raw
    action (.noteRead name)
    action (.noteEntry name (entryIsSelfClearing node entry))
    map.keepEntry name entry
    pure entry

/-- The three ways of reading a node's own register. -/
inductive ReadsOwn (map : NodeMap) (name : Text) (addressing : Addressing) (node : Node) :
    ∀ {α : Type}, Query α → Getter α → Prop
  | decoded {α : Type} {q : Query α} {decode : List UInt8 → Except GenApiError α}
      {put : Option (α × List UInt8) → Caches → Caches}
      (hdecode : ∀ raw value, ReadsAs name raw q node value ↔ decode raw = .ok value)
      (hstarts : ∀ {D : Type} (setting : Setting D) (fuel : Nat) (w : World D),
        looksFrom setting fuel name q w = w)
      (hasks : ∀ {D : Type} (w u : World D), q.asksIn w u = u) :
      ReadsOwn map name addressing node q (map.readRegister name addressing q.kept decode put)
  | stamped {α : Type} {q : Query α} {pick : Caches → Option (α × Nat)} {decode : List UInt8 → α}
      {put : Option (α × Nat) → Caches → Caches}
      (hpick : ∀ c, q.kept c = (pick c).map (·.1))
      (hdecode : ∀ raw value, ReadsAs name raw q node value ↔ decode raw = value)
      (hstarts : ∀ {D : Type} (setting : Setting D) (fuel : Nat) (w : World D),
        looksFrom setting fuel name q w = (w.mayServe setting name).2)
      (hasks : ∀ {D : Type} (w u : World D), q.asksIn w u = w) :
      ReadsOwn map name addressing node q (map.readStamped name addressing pick decode put)
  | entry {enum : EnumNode} (henum : node = .enumeration enum) :
      ReadsOwn map name addressing node (.enumeration name) (map.readEntry enum name addressing)

section

variable {setting : Setting D} {w : World D} {name port : Text} {node : Node} {kind : PortKind}

theorem ensureReadableNow_of_readable {access : AccessMode} (h : Readable setting.map name node)
    (haccess : node.accessMode = some access) :
    setting.map.ensureReadableNow access name = .ok () := by
  unfold NodeMap.ensureReadableNow
  rw [if_neg]
  rintro (hwo | hwo)
  · exact h.1 (by rw [haccess, hwo])
  · exact h.2 hwo

variable {addressing : Addressing}

theorem getter_readsOwn (hdeclared : setting.map.node name = some node)
    (hreads : node.readsRegister) (hreadable : Readable setting.map name node)
    (haddressing : node.addressing = some addressing) {α : Type}
    {q : Query α} (hsubject : q.subject = some name) (hfits : q.Fits node) :
    ReadsOwn setting.map name addressing node q (setting.map.getter α q) := by
  have hread : ∀ access, node.accessMode = some access →
      setting.map.ensureReadableNow access name = .ok () :=
    fun access => ensureReadableNow_of_readable hreadable
  cases q with
  | integer _ =>
    cases hsubject
    cases node with
    | integer node =>
      obtain ⟨hvalue, hpvalue, hindexed⟩ := hreads
      simp only [NodeMap.getter, NodeMap.getInteger, NodeMap.getPlainInteger,
        NodeMap.getIntegerNode, hdeclared, hread node.access rfl, hvalue, hpvalue, hindexed,
        show node.addressing = some addressing from haddressing, Prog.ofExcept, Prog.done_bind]
      exact .decoded (fun _ _ => Iff.rfl) (fun _ _ _ => rfl) fun _ _ => rfl
    | _ => exact hfits.elim
  | float _ =>
    cases hsubject
    cases node with
    | float node =>
      obtain ⟨hvalue, hpvalue, hindexed⟩ := hreads
      simp only [NodeMap.getter, NodeMap.getFloat, NodeMap.getPlainFloat,
        NodeMap.getFloatNode, hdeclared, hread node.access rfl, hvalue, hpvalue, hindexed,
        show node.addressing = some addressing from haddressing, Prog.ofExcept, Prog.done_bind]
      exact .decoded (fun _ _ => Iff.rfl) (fun _ _ _ => rfl) fun _ _ => rfl
    | _ => exact hfits.elim
  | boolean _ =>
    cases hsubject
    cases node with
    | boolean node =>
      obtain ⟨hpvalue, hbitfield⟩ := hreads
      obtain ⟨bitfield, hbitfield⟩ := Option.isSome_iff_exists.mp hbitfield
      simp only [NodeMap.getter, NodeMap.getBool, NodeMap.getBoolNode, hdeclared,
        hread node.access rfl, hpvalue, hbitfield,
        show node.addressing = some addressing from haddressing, Prog.ofExcept, Prog.done_bind]
      refine .decoded (fun raw value => ?_) (fun _ _ _ => rfl) fun _ _ => rfl
      simp [ReadsAs, hbitfield]
    | _ => exact hfits.elim
  | enumeration _ =>
    cases hsubject
    cases node with
    | enumeration node =>
      have hpvalue : node.pvalue = none := hreads
      simp only [NodeMap.getter, NodeMap.getEnum, NodeMap.getEnumNode, hdeclared,
        hread node.access rfl, hpvalue,
        show node.addressing = some addressing from haddressing, Prog.ofExcept, Prog.done_bind]
      exact .entry rfl
    | _ => exact hfits.elim
  | string _ =>
    cases hsubject
    cases node with
    | string node =>
      have hpvalue : node.pvalue = none := hreads
      simp only [NodeMap.getter, NodeMap.getString, NodeMap.getStringNode, hdeclared,
        hread node.access rfl, hpvalue,
        show node.addressing = some addressing from haddressing, Prog.ofExcept, Prog.done_bind]
      exact .stamped (fun _ => rfl) (fun _ _ => eq_comm) (fun _ _ _ => rfl) fun _ _ => rfl
    | _ => exact hfits.elim
  | register _ =>
    cases hsubject
    cases node with
    | register node =>
      cases haddressing
      simp only [NodeMap.getter, NodeMap.getRegister, NodeMap.getRegisterNode, hdeclared,
        hread node.access rfl, Prog.ofExcept, Prog.done_bind]
      exact .stamped (fun _ => rfl) (fun _ _ => eq_comm) (fun _ _ _ => rfl) fun _ _ => rfl
    | _ => exact hfits.elim
  | value _ _ => cases hsubject
  | limit _ _ _ _ _ => cases hsubject
  | limitFor _ _ _ _ => cases hsubject

/-- A getter reports its own errors as they are. -/
theorem get_eq_run {α : Type} {q : Query α} (hsubject : q.subject = some name) (fuel : Nat)
    (w : World D) : get setting (fuel + 1) α q w =
      run (get setting fuel) (look setting) (setting.map.getter α q) w := by
  have hreport (r : Outcome GenApiError α × World D) :
      reported (NodeMap.reportGet α q) r = r := by
    rcases r with ⟨(e | _ | _) | value, w'⟩
    · cases q with
      | value _ _ => cases hsubject
      | limit _ _ _ _ _ => cases hsubject
      | limitFor _ _ _ _ => cases hsubject
      | _ => rfl
    · rfl
    · rfl
    · rfl
  exact hreport _

theorem mayServe_same (w : World D) (name : Text) :
    (w.mayServe setting name).2.caches = w.caches ∧
      (w.mayServe setting name).2.generation = w.generation ∧
        ∀ kind, (w.mayServe setting name).2.attached kind = w.attached kind := by
  have haside (ticks : Nat) : ({ w with ticks } : World D).caches = w.caches ∧
      ({ w with ticks } : World D).generation = w.generation ∧
        ∀ kind, ({ w with ticks } : World D).attached kind = w.attached kind :=
    ⟨rfl, rfl, fun kind => by cases kind <;> rfl⟩
  unfold World.mayServe
  split
  · exact haside w.ticks
  · split
    · exact haside w.ticks
    · exact haside w.ticks
    · exact haside w.ticks
    · split
      · exact haside w.ticks
      · exact haside (w.ticks + 1)

section

variable {answer : Handler Query GenApiError (World D)}

theorem run_served_none {α : Type} {pick : Caches → Option α}
    (h : (w.mayServe setting name).1 = false ∨ pick (w.caches name) = none) :
    run answer (look setting) (NodeMap.served name pick) w =
      (.ok none, (w.mayServe setting name).2) := by
  have hcaches : (w.mayServe setting name).2.caches = w.caches := (mayServe_same w name).1
  unfold NodeMap.served
  rcases hmay : (w.mayServe setting name).1 with _ | _
  · simp [run_bind, look, hmay]
  · have hnone := h.resolve_left (by simp [hmay])
    simp [run_bind, look, hmay, hcaches, hnone]

theorem run_servedNow_none {α : Type} {pick : Caches → Option (α × Nat)}
    (h : (w.mayServe setting name).1 = false ∨ pick (w.caches name) = none) :
    run answer (look setting) (NodeMap.servedNow name pick) w =
      (.ok none, (w.mayServe setting name).2) := by
  rw [NodeMap.servedNow, run_bind, run_served_none h]
  rfl

theorem run_locate_notAttached (hon : OnPort setting.map name node port kind) (hnone : w.attached kind = none)
    (haddressing : node.addressing = some addressing) :
    run answer (look setting) (setting.map.locate name addressing) w =
      (.error (.error (.notAttached name port)), w) := by
  have hregistered := hon.port_eq hon.declared haddressing
  have hattachable := hon.attachable
  unfold NodeMap.locate NodeMap.route
  simp only [hregistered, hon.reached]
  cases kind with
  | device => exact absurd hattachable (by simp [PortKind.holdsData])
  | chunk id => simp [Prog.ofExcept, NodeMap.locateData, run_bind, look, hnone]
  | event id => simp [Prog.ofExcept, NodeMap.locateData, run_bind, look, hnone]

theorem run_locate_attached (hon : OnPort setting.map name node port kind) {bytes : List UInt8}
    (hbytes : w.attached kind = some bytes)
    (haddressing : node.addressing = some addressing) {address len : Nat} {u : World D}
    (hresolve : run answer (look setting) (NodeMap.resolveAddress name addressing).among w =
      (.ok (address, len), u)) :
    run answer (look setting) (setting.map.locate name addressing) w =
      (.ok (.data port bytes (.ofNat address) len kind.countsFromEnd), u) := by
  have hregistered := hon.port_eq hon.declared haddressing
  have hattachable := hon.attachable
  have hdata (fromEnd : Bool) : run answer (look setting)
      (NodeMap.locateData name addressing port kind fromEnd) w =
        (.ok (.data port bytes (.ofNat address) len fromEnd), u) := by
    rw [NodeMap.locateData, run_bind, run_action]
    simp only [look, hbytes, follow_ok]
    rw [run_bind]
    change follow (run answer (look setting) (NodeMap.resolveAddress name addressing).among w) _ = _
    rw [hresolve]
    rfl
  unfold NodeMap.locate NodeMap.route
  simp only [hregistered, hon.reached]
  cases kind with
  | device => exact absurd hattachable (by simp [PortKind.holdsData])
  | chunk id => exact hdata true
  | event id => exact hdata false

theorem run_forgetReach (setting : Setting D) (answer : Handler Query GenApiError (World D))
    (name : Text) (active : Bool) (w : World D) :
    ∃ w', run answer (look setting) (setting.map.forgetReach name active) w = (.ok (), w') ∧
      ∀ kind, w'.attached kind = w.attached kind := by
  have hreach : ∀ (names : List Text) (w : World D),
      ∃ w', run answer (look setting) (NodeMap.invalidateReach names) w = (.ok (), w') ∧
        ∀ kind, w'.attached kind = w.attached kind := by
    intro names
    induction names with
    | nil => exact fun w => ⟨w, rfl, fun _ => rfl⟩
    | cons name names ih =>
      intro w
      obtain ⟨w', hrun, hattached⟩ := ih (w.invalidateCache name)
      refine ⟨w', ?_, fun kind => (hattached kind).trans (by cases kind <;> rfl)⟩
      rw [NodeMap.invalidateReach, run_bind, run_action]
      exact hrun
  unfold NodeMap.forgetReach
  split
  · exact hreach _ w
  · exact ⟨w, rfl, fun _ => rfl⟩

end

theorem Genuine.of_kept {FromPort : List UInt8 → Prop} {c : Caches}
    (h : Genuine FromPort name node c) (hreads : node.readsRegister) {α : Type} {q : Query α}
    (hsubject : q.subject = some name) {value : α} (hkept : q.kept c = some value) :
    ∃ raw, FromPort raw ∧ ReadsAs name raw q node value := by
  cases q with
  | integer _ =>
    cases hsubject
    exact h.integer value hkept
  | float _ =>
    cases hsubject
    exact h.float value hkept
  | boolean _ =>
    cases hsubject
    exact h.boolean value hkept
  | enumeration _ =>
    cases hsubject
    exact h.entry hreads value hkept
  | string _ =>
    cases hsubject
    obtain ⟨⟨text, stamp⟩, hcell, rfl⟩ := Option.map_eq_some_iff.mp hkept
    exact h.text text stamp hcell
  | register _ =>
    cases hsubject
    obtain ⟨⟨bytes, stamp⟩, hcell, rfl⟩ := Option.map_eq_some_iff.mp hkept
    exact h.bytes bytes stamp hcell
  | value _ _ => cases hsubject
  | limit _ _ _ _ _ => cases hsubject
  | limitFor _ _ _ _ => cases hsubject

theorem kept_none (hw : Current setting w) (hon : OnPort setting.map name node port kind)
    (hreads : node.readsRegister) (hnone : w.attached kind = none) {α : Type} {q : Query α}
    (hsubject : q.subject = some name) : q.kept (w.caches name) = none := by
  rcases hkept : q.kept (w.caches name) with _ | value
  · rfl
  · obtain ⟨raw, hraw, -⟩ :=
      (hw.1.caches name node ⟨port, kind, hon⟩).of_kept hreads hsubject hkept
    obtain ⟨bytes, offset, len, hdata, -⟩ := hraw node port kind hon
    rw [hnone] at hdata
    cases hdata

theorem get_notAttached (hw : Current setting w) (hon : OnPort setting.map name node port kind)
    (hreads : node.readsRegister) (hreadable : Readable setting.map name node)
    (hnone : w.attached kind = none) {α : Type} {q : Query α} (hsubject : q.subject = some name)
    (hfits : q.Fits node) (fuel : Nat) :
    (get setting (fuel + 1) α q w).1 = .error (.error (.notAttached name port)) := by
  obtain ⟨addressing, haddressing⟩ := hon.addressing_eq
  have hkept := kept_none hw hon hreads hnone hsubject
  rw [get_eq_run hsubject]
  have hshape := getter_readsOwn hon.declared hreads hreadable haddressing hsubject hfits
  generalize setting.map.getter α q = getter at hshape ⊢
  cases hshape with
  | decoded hdecode hstarts hasks =>
    rw [NodeMap.readRegister, run_bind, run_locate_notAttached hon hnone haddressing]
    rfl
  | stamped hpick hdecode hstarts hasks =>
    rw [hpick, Option.map_eq_none_iff] at hkept
    rw [NodeMap.readStamped, run_bind, run_servedNow_none (.inr hkept), follow_ok]
    dsimp only
    rw [run_bind, run_locate_notAttached hon (((mayServe_same w name).2.2 kind).trans hnone)
      haddressing]
    rfl
  | entry henum =>
    rw [NodeMap.readEntry, run_bind, run_action]
    simp only [look, follow_ok]
    obtain ⟨w', hforget, hattached⟩ := run_forgetReach setting (get setting fuel) name
      (w.selfClearingActive setting.map name) w
    rw [run_bind, hforget, follow_ok, run_bind,
      run_locate_notAttached hon ((hattached kind).trans hnone) haddressing]
    rfl

end

/-- Where a slice begins: a negative offset counts from the end. -/
def sliceStart (size : Nat) (offset : Int64) : Int :=
  if offset < 0 then size + offset.toInt else offset.toInt

/-- The slice lies inside the data; an event has no negative offsets. -/
def InData (size : Nat) (offset : Int64) (len : Nat) (fromEnd : Bool) : Prop :=
  (offset < 0 → fromEnd) ∧ 0 ≤ sliceStart size offset ∧ sliceStart size offset + len ≤ size

instance (size : Nat) (offset : Int64) (len : Nat) (fromEnd : Bool) :
    Decidable (InData size offset len fromEnd) :=
  inferInstanceAs (Decidable (_ ∧ _ ∧ _))

theorem slicePortData_of_in {name port : Text} {bytes : List UInt8} {offset : Int64} {len : Nat}
    {fromEnd : Bool} (h : InData bytes.length offset len fromEnd) :
    slicePortData name port bytes offset len fromEnd =
      .ok ((bytes.drop (sliceStart bytes.length offset).toNat).take len) := by
  obtain ⟨hend, hstart, hfits⟩ := h
  unfold slicePortData
  unfold sliceStart at hstart hfits ⊢
  by_cases hneg : offset < 0
  · have hoffset : offset.toInt < 0 := Int64.lt_iff_toInt_lt.mp hneg
    simp only [if_pos hneg] at hstart hfits ⊢
    have hback : bytes.length - offset.toInt.natAbs = (bytes.length + offset.toInt).toNat := by
      omega
    rw [if_neg (by simp [hend hneg]; omega), hback, if_pos (by omega)]
  · simp only [if_neg hneg] at hstart hfits ⊢
    rw [if_pos (by omega)]

theorem slicePortData_of_not_in {name port : Text} {bytes : List UInt8} {offset : Int64}
    {len : Nat} {fromEnd : Bool} (h : ¬ InData bytes.length offset len fromEnd) :
    slicePortData name port bytes offset len fromEnd =
      .error (.portOutOfRange name port offset len bytes.length) := by
  unfold slicePortData
  unfold InData sliceStart at h
  by_cases hneg : offset < 0
  · have hoffset : offset.toInt < 0 := Int64.lt_iff_toInt_lt.mp hneg
    simp only [if_pos hneg] at h ⊢
    split
    · rfl
    · rename_i hback
      rw [not_or, not_lt, Bool.not_eq_false] at hback
      rw [if_neg]
      intro hfits
      exact h ⟨fun _ => hback.1, by omega, by omega⟩
  · have hoffset : 0 ≤ offset.toInt := by
      rw [← not_lt]
      exact fun hlt => hneg (Int64.lt_iff_toInt_lt.mpr hlt)
    simp only [if_neg hneg] at h ⊢
    rw [if_neg]
    intro hfits
    exact h ⟨fun hlt => absurd hlt hneg, hoffset, by omega⟩


/-- What a get comes to by a slice of the attached data: out of range, or what the node makes
of the slice. Which entry a number stands for is not said. -/
structure ReadsSlice {α : Type} (name port : Text) (bytes : List UInt8) (offset : Int64)
    (len : Nat) (fromEnd : Bool) (q : Query α) (node : Node) (outcome : Outcome GenApiError α) :
    Prop where
  outside : ¬InData bytes.length offset len fromEnd →
    outcome = .error (.error (.portOutOfRange name port offset len bytes.length))
  read : ∀ value, outcome = .ok value → InData bytes.length offset len fromEnd ∧
    ReadsAs name ((bytes.drop (sliceStart bytes.length offset).toNat).take len) q node value
  inside : InData bytes.length offset len fromEnd → (∀ enum, node ≠ .enumeration enum) →
    ∀ value, ReadsAs name ((bytes.drop (sliceStart bytes.length offset).toNat).take len) q node
      value → outcome = .ok value

section

variable {α : Type} {name port : Text} {bytes : List UInt8} {offset : Int64} {len : Nat}
  {fromEnd : Bool} {q : Query α} {node : Node}

theorem readsSlice_of_decode {decode : List UInt8 → Except GenApiError α}
    (hdecode : ∀ raw value, ReadsAs name raw q node value ↔ decode raw = .ok value) :
    ReadsSlice name port bytes offset len fromEnd q node
      (((slicePortData name port bytes offset len fromEnd).bind decode).mapError .error) := by
  by_cases hin : InData bytes.length offset len fromEnd
  · rw [slicePortData_of_in hin]
    refine ⟨fun hout => absurd hin hout, fun value hvalue => ⟨hin, ?_⟩, fun _ _ value hvalue => ?_⟩
    · rw [hdecode]
      rcases hresult : decode ((bytes.drop (sliceStart bytes.length offset).toNat).take len) with
        e | read
      · simp [Except.bind, hresult, Except.mapError] at hvalue
      · simpa [Except.bind, hresult, Except.mapError] using hvalue
    · rw [hdecode] at hvalue
      simp [Except.bind, hvalue, Except.mapError]
  · rw [slicePortData_of_not_in hin]
    exact ⟨fun _ => rfl, nofun, fun h => absurd h hin⟩

end

section

variable {setting : Setting D} {w u : World D} {name port : Text} {node : Node} {kind : PortKind}
  {bytes : List UInt8} {addressing : Addressing} {address len : Nat}

section

variable {answer : Handler Query GenApiError (World D)} {location : Location}

theorem run_readRegister_fresh {α : Type} {pick : Caches → Option α}
    {decode : List UInt8 → Except GenApiError α} {put : Option (α × List UInt8) → Caches → Caches}
    {offset : Int64} {fromEnd : Bool}
    (hlocate : run answer (look setting) (setting.map.locate name addressing) w =
      (.ok (.data port bytes offset len fromEnd), u))
    (hunserved : (u.mayServe setting name).1 = false ∨ pick (u.caches name) = none) :
    (run answer (look setting) (setting.map.readRegister name addressing pick decode put) w).1 =
      ((slicePortData name port bytes offset len fromEnd).bind decode).mapError .error := by
  rw [NodeMap.readRegister, run_bind, hlocate, follow_ok, run_bind, run_served_none hunserved,
    follow_ok]
  dsimp only
  rw [run_bind, NodeMap.readLocation, run_ofExcept]
  rcases slicePortData name port bytes offset len fromEnd with e | raw
  · rfl
  · change (follow (.ok raw, _) _).1 = _
    rw [follow_ok, run_bind, run_ofExcept]
    rcases hdecode : decode raw with e | value
    · simp [Except.bind, Except.mapError, hdecode]
    · simp [Except.bind, Except.mapError, hdecode, run_bind, look]

theorem run_readStamped_fresh {α : Type} {pick : Caches → Option (α × Nat)}
    {decode : List UInt8 → α} {put : Option (α × Nat) → Caches → Caches} {offset : Int64}
    {fromEnd : Bool}
    (hlocate : run answer (look setting) (setting.map.locate name addressing)
      (w.mayServe setting name).2 = (.ok (.data port bytes offset len fromEnd), u))
    (hunserved : (w.mayServe setting name).1 = false ∨ pick (w.caches name) = none) :
    (run answer (look setting) (setting.map.readStamped name addressing pick decode put) w).1 =
      ((slicePortData name port bytes offset len fromEnd).bind (.ok ∘ decode)).mapError .error := by
  rw [NodeMap.readStamped, run_bind, run_servedNow_none hunserved, follow_ok]
  dsimp only
  rw [run_bind, hlocate, follow_ok, run_bind, NodeMap.readLocation, run_ofExcept]
  rcases slicePortData name port bytes offset len fromEnd with e | raw
  · rfl
  · simp [Except.bind, Except.mapError, run_bind, look]

/-- Nothing is said of the entry that is looked up but that some mapping has it. -/
theorem lookupEnumEntry_ok {enum : EnumNode} {entry : Text} {raw : Int64} {w' : World D}
    (h : run answer (look setting) (NodeMap.lookupEnumEntry enum raw) w = (.ok entry, w')) :
    ∃ mapping : EnumMapping, mapping.byValue.lookup raw = some entry :=
  (sound_lookupEnumEntry (Source.nowhere_answers setting answer) enum raw w
    (Source.nowhere_inv w)).2 entry (congrArg Prod.fst h)

theorem run_readEntry_fresh {enum : EnumNode} {offset : Int64} {fromEnd : Bool} {v : World D}
    (hforget : run answer (look setting)
      (setting.map.forgetReach name (w.selfClearingActive setting.map name)) w = (.ok (), v))
    (hlocate : run answer (look setting) (setting.map.locate name addressing) v =
      (.ok (.data port bytes offset len fromEnd), u))
    (hunserved : (u.mayServe setting name).1 = false ∨ (u.caches name).entry = none) :
    ReadsSlice name port bytes offset len fromEnd (.enumeration name) (.enumeration enum)
      (run answer (look setting) (setting.map.readEntry enum name addressing) w).1 := by
  have hserved (active : Bool) : ∃ u', run answer (look setting) (NodeMap.servedEntry name active) u =
      (.ok none, u') := by
    unfold NodeMap.servedEntry
    split
    · exact ⟨u, rfl⟩
    · exact ⟨_, run_served_none hunserved⟩
  obtain ⟨u', hserved⟩ := hserved (w.selfClearingActive setting.map name)
  have hrun : (run answer (look setting) (setting.map.readEntry enum name addressing) w) =
      follow ((slicePortData name port bytes offset len fromEnd).mapError .error, u')
        fun raw => run answer (look setting) (do
          let raw ← ofExcept (bytesToI64 name raw .signed .big)
          let entry ← NodeMap.lookupEnumEntry enum raw
          action (.noteRead name)
          action (.noteEntry name (entryIsSelfClearing enum entry))
          setting.map.keepEntry name entry
          pure entry) := by
    rw [NodeMap.readEntry, run_bind, run_action]
    simp only [look, follow_ok]
    rw [run_bind, hforget, follow_ok, run_bind, hlocate, follow_ok, run_bind, hserved, follow_ok]
    dsimp only
    rw [run_bind, NodeMap.readLocation, run_ofExcept]
  by_cases hin : InData bytes.length offset len fromEnd
  · refine ⟨fun hout => absurd hin hout, fun value hvalue => ⟨hin, ?_⟩,
      fun _ hnot => absurd rfl (hnot enum)⟩
    rw [hrun, slicePortData_of_in hin] at hvalue
    obtain ⟨raw, _, hraw, hrest⟩ := (run_bind_eq_ok ..).mp (Prod.ext hvalue rfl)
    obtain ⟨entry, _, hentry, hrest⟩ := (run_bind_eq_ok ..).mp hrest
    obtain ⟨mapping, hlookup⟩ := lookupEnumEntry_ok hentry
    obtain ⟨_, _, _, hrest⟩ := (run_bind_eq_ok ..).mp hrest
    obtain ⟨_, _, _, hrest⟩ := (run_bind_eq_ok ..).mp hrest
    obtain ⟨_, _, _, hrest⟩ := (run_bind_eq_ok ..).mp hrest
    cases hrest
    exact ⟨raw, mapping, ((run_ofExcept_eq_ok ..).mp hraw).1, hlookup⟩
  · rw [hrun, slicePortData_of_not_in hin]
    exact ⟨fun _ => rfl, fun _ hvalue => (by cases hvalue), fun h => absurd h hin⟩

end

/-- A get that no cell answers reads the slice of the data attached now at the address and
length its node is resolved to. -/
theorem get_fresh (hon : OnPort setting.map name node port kind) (hreads : node.readsRegister)
    (hreadable : Readable setting.map name node) {α : Type} {q : Query α}
    (hsubject : q.subject = some name) (hfits : q.Fits node)
    (haddressing : node.addressing = some addressing) (hbytes : w.attached kind = some bytes)
    {fuel : Nat}
    (hresolve : run (get setting fuel) (look setting)
      (NodeMap.resolveAddress name addressing).among (looksFrom setting fuel name q w) =
        (.ok (address, len), u))
    (hunserved : Unserved setting name q (q.asksIn w u)) :
    ReadsSlice name port bytes (.ofNat address) len kind.countsFromEnd q node
      (get setting (fuel + 1) α q w).1 := by
  rw [get_eq_run hsubject]
  have hshape := getter_readsOwn hon.declared hreads hreadable haddressing hsubject hfits
  generalize setting.map.getter α q = getter at hshape ⊢
  cases hshape with
  | decoded hdecode hstarts hasks =>
    rw [hstarts] at hresolve
    rw [hasks] at hunserved
    rw [run_readRegister_fresh (run_locate_attached hon hbytes haddressing hresolve) hunserved]
    exact readsSlice_of_decode hdecode
  | @stamped _ _ pick decode _ hpick hdecode hstarts hasks =>
    rw [hstarts] at hresolve
    rw [hasks, Unserved, hpick, Option.map_eq_none_iff] at hunserved
    have hbytes' : (w.mayServe setting name).2.attached kind = some bytes :=
      ((mayServe_same w name).2.2 kind).trans hbytes
    rw [run_readStamped_fresh (run_locate_attached hon hbytes' haddressing hresolve) hunserved]
    exact readsSlice_of_decode fun raw value => (hdecode raw value).trans (by simp)
  | entry henum =>
    obtain ⟨v, hforget, hattached⟩ := run_forgetReach setting (get setting fuel) name
      (w.selfClearingActive setting.map name) w
    have hstarts : looksFrom setting fuel name (.enumeration name) w = v :=
      congrArg Prod.snd hforget
    rw [hstarts] at hresolve
    subst henum
    exact run_readEntry_fresh hforget (run_locate_attached hon ((hattached kind).trans hbytes)
      haddressing hresolve) hunserved

end

/-- What a get of a register on a chunk or event port comes to. -/
structure GetsAttached (setting : Setting D) (w : World D) (name : Text) (node : Node)
    (port : Text) (kind : PortKind) {α : Type} (q : Query α) : Prop where
  attested : ∀ fuel value w', get setting fuel α q w = (.ok value, w') →
    ∃ bytes offset len raw, w.attached kind = some bytes ∧
      Resolved (history setting) name offset len ∧
      slicePortData name port bytes offset len kind.countsFromEnd = .ok raw ∧
      ReadsAs name raw q node value
  notAttached : Readable setting.map name node → w.attached kind = none → ∀ fuel,
    (get setting (fuel + 1) α q w).1 = .error (.error (.notAttached name port))
  fresh : Readable setting.map name node → ∀ addressing bytes fuel address len u,
    node.addressing = some addressing → w.attached kind = some bytes →
    run (get setting fuel) (look setting) (NodeMap.resolveAddress name addressing).among
      (looksFrom setting fuel name q w) = (.ok (address, len), u) →
    Unserved setting name q (q.asksIn w u) →
    ReadsSlice name port bytes (.ofNat address) len kind.countsFromEnd q node
      (get setting (fuel + 1) α q w).1

/-- A register of the last two bytes of chunk 7. -/
def stampNode : RegisterNode where
  name := lit "Stamp"
  nodeMeta := ⟨.beginner, none, none, none, none, none, false, none, none, []⟩
  addressing := ⟨[.fixed (-2)], 2, some (lit "ChunkPort"), none⟩
  access := .ro
  predicates := {}

def stampSetting : Setting Unit where
  map := .ofNodes [(lit "Stamp", .register stampNode)] (by simp [Node.name, stampNode]) []
    [(lit "ChunkPort", .chunk 7)] [] [] []
  io := ⟨fun device _ len => (.ok (List.replicate len 0), device), fun device _ _ => (.ok (), device)⟩
  clock := id

theorem onPort_stamp :
    OnPort stampSetting.map (lit "Stamp") (.register stampNode) (lit "ChunkPort") (.chunk 7) where
  declared := rfl
  registered := rfl
  reached := rfl
  attachable := rfl

/-- The chunk is read, then replaced by `bytes`. -/
def stampCalls (bytes : List UInt8) : List (Nat × Call) :=
  [(1, .attachChunks [(7, [9, 9, 9])]), (2, .get _ (.register (lit "Stamp"))),
    (1, .attachChunks [(7, bytes)])]

def stampWorld (bytes : List UInt8) : World Unit :=
  (stampCalls bytes).foldl (fun w call => call.2.apply stampSetting call.1 w) { device := () }

end VivaGenicam.Genapi
