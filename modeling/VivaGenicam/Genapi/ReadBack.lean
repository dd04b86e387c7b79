import VivaGenicam.Genapi.PortGets

/-!
What is read back after a text or a block of bytes is written, on a device that is
memory: what the register holds, unless a text that the register does not hold is
kept as it was given.
-/

namespace VivaGenicam.Genapi

open GenapiXml Library.Programs Library

open Prog (question action fail ofExcept)

abbrev Memory := Nat → UInt8

namespace Memory

def bytes (m : Memory) (address len : Nat) : List UInt8 :=
  (List.range len).map fun i => m (address + i)

def overwrite (m : Memory) (address : Nat) (data : List UInt8) : Memory :=
  fun a => if address ≤ a then (data[a - address]?).getD (m a) else m a

theorem bytes_overwrite (m : Memory) (address : Nat) (data : List UInt8) :
    (m.overwrite address data).bytes address data.length = data := by
  apply List.ext_getElem
  · rw [bytes, List.length_map, List.length_range]
  · intro i hi hi'
    simp [bytes, overwrite, List.getElem?_eq_getElem hi']

end Memory

def memoryIo : RegisterIo Memory where
  read m address len := (.ok (m.bytes address len), m)
  write m address data := (.ok (), m.overwrite address data)

def onMemory (map : NodeMap) (clock : Nat → Nat) : Setting Memory where
  map
  io := memoryIo
  clock

section

variable {D : Type} {setting : Setting D} (w : World D)

theorem device_mayServe (name : Text) :
    (w.mayServe setting name).2.device = w.device := by
  unfold World.mayServe
  split
  · rfl
  · split
    · rfl
    · rfl
    · rfl
    · split <;> rfl

theorem device_noteRead (name : Text) :
    (w.noteRead setting name).device = w.device := by
  unfold World.noteRead
  split <;> rfl

theorem device_noteEntry (name : Text) (selfClearing : Bool) :
    (w.noteEntry setting name selfClearing).device = w.device := by
  unfold World.noteEntry
  split
  · split <;> rfl
  · rfl

theorem device_invalidateAllOf (names : List Text) :
    (w.invalidateAllOf names).device = w.device := by
  induction names generalizing w with
  | nil => rfl
  | cons name names ih => exact ih _

end

section

variable {map : NodeMap} {clock : Nat → Nat}

theorem look_moves : (look (onMemory map clock)).Moves fun w w' => w'.device = w.device := by
  intro α o w
  cases o with
  | mayServe name => exact device_mayServe w name
  | noteRead name => exact device_noteRead w name
  | noteEntry name selfClearing => exact device_noteEntry w name selfClearing
  | _ => rfl

theorem device_run {α : Type} (fuel : Nat) (p : Getter α) (w : World Memory) :
    (run (get (onMemory map clock) fuel) (look (onMemory map clock)) p w).2.device = w.device :=
  run_moves (R := fun w w' : World Memory => w'.device = w.device) (fun _ => rfl)
    (fun hab hbc => hbc.trans hab)
    (answers_moves (R := fun w w' : World Memory => w'.device = w.device) (fun _ => rfl)
      (fun hab hbc => hbc.trans hab) look_moves fuel) look_moves p w

end

/-- Some depth of calls is enough for the get to return the value. -/
def Returns {D α : Type} (setting : Setting D) (q : Query α) (w : World D) (value : α) : Prop :=
  ∃ fuel w', get setting fuel α q w = (.ok value, w')

theorem Returns.unique {D α : Type} {setting : Setting D} {q : Query α} {w : World D}
    {value value' : α} (h : Returns setting q w value) (h' : Returns setting q w value') :
    value = value' := by
  obtain ⟨fuel, u, hget⟩ := h
  obtain ⟨fuel', u', hget'⟩ := h'
  have hmore : ∀ {f g : Nat} {v : α} {s : World D}, f ≤ g → get setting f α q w = (.ok v, s) →
      get setting g α q w = (.ok v, s) := by
    intro f g v s hle hf
    rw [← hf]
    exact answers_lessDefined _ _ (.refl _) hle α q w (by
      intro hout
      have hfirst := congrArg Prod.fst hf
      rw [show (get setting f α q w).1 = _ from hout] at hfirst
      cases hfirst)
  have hsame := (hmore (Nat.le_max_left fuel fuel') hget).symm.trans
    (hmore (Nat.le_max_right fuel fuel') hget')
  cases hsame
  rfl

variable {len : Nat}

section

variable {D α : Type} {setting : Setting D} {w : World D} {name : Text} {addressing : Addressing}
  {pick : Caches → Option (α × Nat)} {decode : List UInt8 → α}
  {put : Option (α × Nat) → Caches → Caches} {answer : Handler Query GenApiError (World D)}

theorem run_readStamped_served {value : α} (hmay : (w.mayServe setting name).1)
    (hcell : pick (w.caches name) = some (value, w.generation)) :
    run answer (look setting) (setting.map.readStamped name addressing pick decode put) w =
      (.ok value, (w.mayServe setting name).2) := by
  obtain ⟨hcaches, hgeneration⟩ : (w.mayServe setting name).2.caches = w.caches ∧
      (w.mayServe setting name).2.generation = w.generation :=
    ⟨(mayServe_same w name).1, (mayServe_same w name).2.1⟩
  have hserved : run answer (look setting) (NodeMap.servedNow name pick) w =
      (.ok (some value), (w.mayServe setting name).2) := by
    unfold NodeMap.servedNow NodeMap.served
    simp [run_bind, look, hmay, hcaches, hcell, hgeneration]
  rw [NodeMap.readStamped, run_bind, hserved]
  rfl

theorem run_readStamped_read {address : Nat} {u u' : World D} {raw : List UInt8}
    (hcell : (w.mayServe setting name).1 = false ∨ pick (w.caches name) = none)
    (hlocate : run answer (look setting) (setting.map.locate name addressing)
      (w.mayServe setting name).2 = (.ok (.device address len), u))
    (hread : u.readDevice setting name address len = (.ok raw, u')) :
    (run answer (look setting) (setting.map.readStamped name addressing pick decode put) w).1 =
      .ok (decode raw) := by
  have hcaches : (w.mayServe setting name).2.caches = w.caches := (mayServe_same w name).1
  have hserved : run answer (look setting) (NodeMap.servedNow name pick) w =
      (.ok none, (w.mayServe setting name).2) := by
    unfold NodeMap.servedNow NodeMap.served
    rcases hmay : (w.mayServe setting name).1 with _ | _
    · simp [run_bind, look, hmay]
    · have hnone := hcell.resolve_left (by simp [hmay])
      simp [run_bind, look, hmay, hcaches, hnone]
  rw [NodeMap.readStamped, run_bind, hserved, follow_ok]
  dsimp only
  rw [run_bind, hlocate, follow_ok, run_bind, NodeMap.readLocation, run_action]
  simp only [look, hread, follow_ok, run_bind, run_action, run_done, Prog.pure_eq]

end

/-- The bytes are in memory, and the value is in its cell if the mode keeps it. -/
structure Stored {α : Type} (map : NodeMap) (w : World Memory) (name : Text)
    (pick : Caches → Option (α × Nat)) (value : α) (address : Nat) (data : List UInt8) : Prop where
  logged : ∃ before, w.accesses = before ++ [.wrote name address data]
  held : w.device.bytes address data.length = data
  cell : pick (w.caches name) =
    if map.keepsWritten name then some (value, w.generation) else none

variable {node : StringNode}

section

variable {map : NodeMap} {clock : Nat → Nat} {fuel : Nat}

theorem noteRead_same {D : Type} (setting : Setting D) (w : World D) (name : Text) :
    (w.noteRead setting name).caches = w.caches ∧
      (w.noteRead setting name).generation = w.generation ∧
      (w.noteRead setting name).accesses = w.accesses := by
  unfold World.noteRead
  split <;> exact ⟨rfl, rfl, rfl⟩

theorem accesses_invalidateDependents {D : Type} (map : NodeMap) (w : World D) (name : Text) :
    (w.invalidateDependents map name).accesses = w.accesses := by
  have hall : ∀ (names : List Text) (w : World D),
      (w.invalidateAllOf names).accesses = w.accesses := by
    intro names
    induction names with
    | nil => exact fun _ => rfl
    | cons name names ih => exact fun w => ih _
  exact hall ..

variable {answer : Handler Tell GenApiError (World Memory)} {w w' : World Memory}

theorem stored_of_run {α : Type} {name : Text} {value : α} {pick : Caches → Option (α × Nat)}
    {put : Option (α × Nat) → Caches → Caches} (hpick : ∀ kept c, pick (put kept c) = kept)
    {address : Nat} {data : List UInt8}
    (h : run answer (deed (onMemory map clock) fuel) (do
      action (.write name address data)
      action (.invalidateDependents name)
      reading (map.keepStamped name value put)) w = (.ok (), w')) :
    Stored map w' name pick value address data := by
  rw [run_bind, run_action] at h
  obtain ⟨_, w₁, hfirst, h⟩ := follow_eq_ok.mp h
  rw [run_bind, run_action] at h
  obtain ⟨_, w₂, hsecond, h⟩ := follow_eq_ok.mp h
  have hw₁ : w₁ = (w.writeDevice (onMemory map clock) name address data).2 :=
    (congrArg Prod.snd hfirst).symm
  have hw₂ : w₂ = w₁.invalidateDependents map name := (congrArg Prod.snd hsecond).symm
  have hdevice : w₂.device = w.device.overwrite address data := by
    rw [hw₂, hw₁]
    exact device_invalidateAllOf ..
  have haccesses : w₂.accesses = w.accesses ++ [.wrote name address data] := by
    rw [hw₂, hw₁]
    exact accesses_invalidateDependents ..
  rw [run_reading] at h
  unfold NodeMap.keepStamped at h
  by_cases hkeeps : map.keepsWritten name
  · simp only [hkeeps, if_true, run_bind, run_action, look, follow_ok] at h
    have hw' := (congrArg Prod.snd h).symm
    obtain ⟨hcaches, hgeneration, hlog⟩ := noteRead_same (onMemory map clock)
      (w₂.setCaches name (put (some (value, w₂.generation)) (w₂.caches name))) name
    simp only at hw'
    constructor
    · exact ⟨w.accesses, by rw [hw', hlog]; exact haccesses⟩
    · rw [hw', device_noteRead]
      change w₂.device.bytes address data.length = data
      rw [hdevice]
      exact Memory.bytes_overwrite ..
    · rw [hw', hcaches, hgeneration, if_pos hkeeps]
      simp [World.setCaches, hpick]
  · rw [if_neg hkeeps, run_action] at h
    have hw' : w' = w₂.setCaches name (put none (w₂.caches name)) := (congrArg Prod.snd h).symm
    constructor
    · exact ⟨w.accesses, by rw [hw']; exact haccesses⟩
    · rw [hw']
      change w₂.device.bytes address data.length = data
      rw [hdevice]
      exact Memory.bytes_overwrite ..
    · rw [hw', if_neg hkeeps]
      simp [World.setCaches, hpick]

theorem run_asking_eq_ok {D α β : Type} {setting : Setting D}
    {answer : Handler Tell GenApiError (World D)} {p : Asking α} {f : α → Setter β} {w w' : World D}
    {b : β} (h : run answer (deed setting fuel) (asking p >>= f) w = (.ok b, w')) :
    ∃ a u, run (get setting fuel) (look setting) p.among w = (.ok a, u) ∧
      run answer (deed setting fuel) (f a) u = (.ok b, w') := by
  rw [run_bind] at h
  obtain ⟨a, u, hasked, hrest⟩ := follow_eq_ok.mp h
  rw [asking, run_reading] at hasked
  exact ⟨a, u, hasked, hrest⟩

theorem textBytes_length (value : Text) (len : Nat) :
    (NodeMap.textBytes value len).length = len := by
  simp [NodeMap.textBytes]

theorem setString_stored {name : Text} {addressing : Addressing} {text : Text}
    (hnode : map.node name = some (.string node))
    (hpvalue : node.pvalue = none) (haddressing : node.addressing = some addressing)
    (h : set (onMemory map clock) fuel Unit (.string name text) w = (.ok (), w')) :
    ∃ address len fuel' u u', run (get (onMemory map clock) fuel') (look (onMemory map clock))
        (map.locateForWrite name addressing).among u = (.ok (address, len), u') ∧
      Stored map w' name (·.text) text address (NodeMap.textBytes text len) := by
  cases fuel with
  | zero => cases h
  | succ fuel =>
    have hrun := reported_eq_ok.mp h
    have hget : map.getStringNode name = .ok node := by
      unfold NodeMap.getStringNode
      rw [hnode]
    simp only [NodeMap.setter, NodeMap.setString, onMemory, hget, Prog.ofExcept,
      Prog.done_bind] at hrun
    obtain ⟨_, u, -, hrun⟩ := run_asking_eq_ok hrun
    simp only [hpvalue, haddressing, NodeMap.setStringRegister] at hrun
    obtain ⟨⟨address, len⟩, u', hlocate, hrun⟩ := run_asking_eq_ok hrun
    exact ⟨address, len, _, u, u', hlocate, stored_of_run (fun _ _ => rfl) hrun⟩

theorem setRegister_stored {name : Text} {node : RegisterNode} {data : List UInt8}
        (hnode : map.node name = some (.register node))
    (h : run answer (deed (onMemory map clock) fuel) (map.setRegister name data) w = (.ok (), w')) :
    ∃ address u u', run (get (onMemory map clock) fuel) (look (onMemory map clock))
        (map.locateForWrite name node.addressing).among u = (.ok (address, data.length), u') ∧
      Stored map w' name (·.bytes) data address data := by
  have hget : map.getRegisterNode name = .ok node := by
    unfold NodeMap.getRegisterNode
    rw [hnode]
  simp only [NodeMap.setRegister, hget, Prog.ofExcept, Prog.done_bind] at h
  obtain ⟨_, u, -, h⟩ := run_asking_eq_ok h
  obtain ⟨⟨address, len⟩, u', hlocate, h⟩ := run_asking_eq_ok h
  dsimp only at h
  split at h
  · cases h
  · rename_i hlength
    obtain rfl : data.length = len := not_not.mp hlength
    exact ⟨address, u, u', hlocate, stored_of_run (fun _ _ => rfl) h⟩

end

/-- What may be done between a write and a read: nothing, or dropping caches. -/
inductive Drop where
  | nothing
  | invalidate
  | invalidateAll
deriving DecidableEq

def Drop.apply {D : Type} (map : NodeMap) (name : Text) (w : World D) : Drop → World D
  | .nothing => w
  | .invalidate => w.invalidate map name
  | .invalidateAll => w.invalidateAll

/-- The register is found where it was written, with and without its caches. -/
def Settled (setting : Setting Memory) (name : Text) (addressing : Addressing) (address len : Nat)
    (w : World Memory) : Prop :=
  ∀ drop : Drop, ∃ fuel u, run (get setting fuel) (look setting)
    (setting.map.locate name addressing)
      ((drop.apply setting.map name w).mayServe setting name).2 = (.ok (.device address len), u)

theorem device_drop {D : Type} (map : NodeMap) (name : Text) (w : World D) (drop : Drop) :
    (drop.apply map name w).device = w.device := by
  cases drop with
  | nothing => rfl
  | invalidate => exact (device_invalidateAllOf ..).trans (device_invalidateAllOf ..)
  | invalidateAll => rfl

theorem caches_drop {D : Type} (map : NodeMap) (name : Text) (w : World D) {drop : Drop}
    (hdrop : drop ≠ .nothing) : (drop.apply map name w).caches name = {} := by
  cases drop with
  | nothing => exact absurd rfl hdrop
  | invalidate =>
    change ((w.bumpGeneration.invalidateAllOf (map.valueReach name)).invalidateDependents map
      name).caches name = {}
    rw [World.caches_invalidateDependents]
    split
    · rfl
    · rw [World.caches_invalidateAllOf, if_pos (map.mem_valueReach_self name)]
  | invalidateAll => rfl

section

variable {map : NodeMap} {clock : Nat → Nat} {α : Type} {name : Text} {addressing : Addressing}
  {pick : Caches → Option (α × Nat)} {decode : List UInt8 → α}
  {put : Option (α × Nat) → Caches → Caches} {q : Query α} {address : Nat} {value : α}
  {data : List UInt8} {w : World Memory}

theorem returns_of_stored (hempty : pick {} = none)
    (hstored : Stored map w name pick value address data)
    (hsettled : Settled (onMemory map clock) name addressing address data.length w)
    (hget : ∀ (fuel : Nat) (u : World Memory), get (onMemory map clock) (fuel + 1) α q u =
      reported (NodeMap.reportGet α q) (run (get (onMemory map clock) fuel)
        (look (onMemory map clock)) (map.readStamped name addressing pick decode put) u))
    (drop : Drop) :
    Returns (onMemory map clock) q (drop.apply map name w)
      (if drop = .nothing ∧ map.keepsWritten name ∧ (w.mayServe (onMemory map clock) name).1
        then value else decode data) := by
  by_cases hserved : drop = .nothing ∧ map.keepsWritten name ∧
      (w.mayServe (onMemory map clock) name).1
  · obtain ⟨rfl, hkeeps, hmay⟩ := hserved
    have hcell := hstored.cell
    rw [if_pos hkeeps] at hcell
    refine ⟨1, (w.mayServe (onMemory map clock) name).2, ?_⟩
    rw [if_pos ⟨rfl, hkeeps, hmay⟩, hget]
    exact reported_eq_ok.mpr (run_readStamped_served hmay hcell)
  · obtain ⟨fuel, u, hlocate⟩ := hsettled drop
    have hcell : ((drop.apply map name w).mayServe (onMemory map clock) name).1 = false ∨
        pick ((drop.apply map name w).caches name) = none := by
      by_cases hdrop : drop = .nothing
      · subst hdrop
        by_cases hkeeps : map.keepsWritten name
        · left
          rw [Bool.eq_false_iff]
          exact fun hmay => hserved ⟨rfl, hkeeps, hmay⟩
        · right
          exact hstored.cell.trans (if_neg hkeeps)
      · right
        rw [caches_drop map name w hdrop]
        exact hempty
    have hdevice : u.device = w.device := by
      have hrun : (run (get (onMemory map clock) fuel) (look (onMemory map clock))
          (map.locate name addressing) _).2.device = _ := device_run fuel (map.locate name addressing)
        ((drop.apply map name w).mayServe (onMemory map clock) name).2
      have hsame := congrArg (fun r => r.2.device) hlocate
      exact (hsame.symm.trans hrun).trans ((device_mayServe ..).trans (device_drop ..))
    have hread : u.readDevice (onMemory map clock) name address data.length =
        (.ok data, (u.readDevice (onMemory map clock) name address data.length).2) := by
      have hheld := hstored.held
      rw [← hdevice] at hheld
      exact Prod.ext (congrArg Except.ok hheld) rfl
    have hran : (run (get (onMemory map clock) fuel) (look (onMemory map clock))
        (map.readStamped name addressing pick decode put) (drop.apply map name w)).1 =
          .ok (decode data) := run_readStamped_read hcell hlocate hread
    refine ⟨fuel + 1, (run (get (onMemory map clock) fuel) (look (onMemory map clock))
      (map.readStamped name addressing pick decode put) (drop.apply map name w)).2, ?_⟩
    rw [if_neg hserved, hget]
    exact reported_eq_ok.mpr (Prod.ext hran rfl)

theorem get_string_eq (hnode : map.node name = some (.string node))
    (hpvalue : node.pvalue = none) (haddressing : node.addressing = some addressing)
    (hreadable : Readable map name (.string node)) (fuel : Nat) (u : World Memory) :
    get (onMemory map clock) (fuel + 1) _ (.string name) u =
      reported (NodeMap.reportGet _ (.string name)) (run (get (onMemory map clock) fuel)
        (look (onMemory map clock)) (map.readStamped name addressing (·.text) decodeText
          NodeMap.putText) u) := by
  have hget : map.getStringNode name = .ok node := by
    unfold NodeMap.getStringNode
    rw [hnode]
  have hread : map.ensureReadableNow node.access name = .ok () :=
    ensureReadableNow_of_readable (show Readable (onMemory map clock).map name _ from hreadable) rfl
  have hprogram : map.getter _ (.string name) =
      map.readStamped name addressing (·.text) decodeText NodeMap.putText := by
    simp only [NodeMap.getter, NodeMap.getString, hget, hread, hpvalue, haddressing,
      Prog.ofExcept, Prog.done_bind]
  change reported _ (run _ _ (map.getter _ (.string name)) u) = _
  rw [hprogram]
  rfl

theorem get_register_eq {node : RegisterNode} (hnode : map.node name = some (.register node))
    (hreadable : Readable map name (.register node)) (fuel : Nat) (u : World Memory) :
    get (onMemory map clock) (fuel + 1) _ (.register name) u =
      reported (NodeMap.reportGet _ (.register name)) (run (get (onMemory map clock) fuel)
        (look (onMemory map clock)) (map.readStamped name node.addressing (·.bytes) id
          NodeMap.putBytes) u) := by
  have hget : map.getRegisterNode name = .ok node := by
    unfold NodeMap.getRegisterNode
    rw [hnode]
  have hread : map.ensureReadableNow node.access name = .ok () :=
    ensureReadableNow_of_readable (show Readable (onMemory map clock).map name _ from hreadable) rfl
  have hprogram : map.getter _ (.register name) =
      map.readStamped name node.addressing (·.bytes) id NodeMap.putBytes := by
    simp only [NodeMap.getter, NodeMap.getRegister, hget, hread, Prog.ofExcept, Prog.done_bind]
  change reported _ (run _ _ (map.getter _ (.register name)) u) = _
  rw [hprogram]
  rfl

end

theorem takeWhile_padded {bytes : List UInt8} (h : ∀ b ∈ bytes, b ≠ 0) (n : Nat) :
    (bytes ++ List.replicate n 0).takeWhile (· ≠ 0) = bytes := by
  rw [List.takeWhile_append_of_pos (by simpa using h)]
  cases n with
  | zero => exact List.append_nil _
  | succ n => simp [List.replicate_succ]

theorem decodeText_textBytes (text : Text) (len : Nat) :
    decodeText (NodeMap.textBytes text len) = text ↔
      '\u0000' ∉ text ∧ Utf8.Survives text len := by
  unfold decodeText NodeMap.textBytes
  by_cases hzero : '\u0000' ∈ text
  · obtain ⟨before, after, rfl, hbefore⟩ := List.eq_append_cons_of_mem hzero
    have hencode : Utf8.encode (before ++ '\u0000' :: after) =
        Utf8.encode before ++ 0 :: Utf8.encode after := by
      rw [Utf8.encode, List.flatMap_append, List.flatMap_cons]
      rfl
    have hnonzero := Utf8.ne_zero_of_mem_encode hbefore
    have hcut : (((Utf8.encode (before ++ '\u0000' :: after)).take len) ++ List.replicate
        (len - ((Utf8.encode (before ++ '\u0000' :: after)).take len).length) 0).takeWhile
          (· ≠ (0 : UInt8)) = (Utf8.encode before).take len := by
      rw [hencode]
      by_cases hlen : len ≤ (Utf8.encode before).length
      · rw [List.take_append_of_le_length hlen]
        exact takeWhile_padded (fun b hb => hnonzero b (List.mem_of_mem_take hb)) _
      · obtain ⟨more, hmore⟩ := Nat.exists_eq_add_of_lt (Nat.lt_of_not_le hlen)
        have htake : (Utf8.encode before ++ 0 :: Utf8.encode after).take len =
            Utf8.encode before ++ 0 :: (Utf8.encode after).take more := by
          rw [hmore, Nat.add_assoc, List.take_length_add_append, List.take_succ_cons]
        have hwhole : (Utf8.encode before).take len = Utf8.encode before :=
          List.take_of_length_le (by omega)
        rw [htake, hwhole, List.append_assoc,
          List.takeWhile_append_of_pos (by simpa using hnonzero)]
        simp
    constructor
    · intro hsame
      have hlength := Utf8.length_decodeLossy_take_le before len
      rw [← hcut, hsame, List.length_append, List.length_cons] at hlength
      omega
    · exact fun hand => absurd hzero hand.1
  · have hnonzero := Utf8.ne_zero_of_mem_encode hzero
    rw [takeWhile_padded fun b hb => hnonzero b (List.mem_of_mem_take hb),
      Utf8.decodeLossy_take_iff]
    exact ⟨fun h => ⟨hzero, h⟩, fun h => h.2⟩

section

variable {D : Type} {setting : Setting D}

theorem sumTerms_fixed (name : Text) (len : Nat) :
    ∀ (terms : List AddressTerm) (address : Nat), (∀ term ∈ terms, ∃ n, term = .fixed n) →
      ∃ total, NodeMap.sumTerms name len terms address = pure total := by
  intro terms
  induction terms with
  | nil => exact fun address _ => ⟨address, rfl⟩
  | cons term terms ih =>
    intro address hfixed
    obtain ⟨n, rfl⟩ := hfixed term (List.mem_cons_self ..)
    exact ih _ fun other hother => hfixed other (List.mem_cons_of_mem _ hother)

theorem resolveDeviceAddress_fixed {addressing : Addressing}
    (hfixed : ∀ term ∈ addressing.terms, ∃ n, term = .fixed n)
    (hlength : addressing.pLength = none) (name : Text) :
    ∃ place, NodeMap.resolveDeviceAddress name addressing = pure place := by
  obtain ⟨total, htotal⟩ := sumTerms_fixed name addressing.len addressing.terms 0 hfixed
  refine ⟨(total, addressing.len), ?_⟩
  simp only [NodeMap.resolveDeviceAddress, NodeMap.resolveAddress, hlength, Prog.pure_eq,
    Prog.done_bind, htotal]

end

/-- No part of the address or the length is read from another node. -/
def Fixed (addressing : Addressing) : Prop :=
  (∀ term ∈ addressing.terms, ∃ n, term = .fixed n) ∧ addressing.pLength = none

theorem settled_of_fixed {map : NodeMap} {clock : Nat → Nat} {name : Text}
    {addressing : Addressing} (hfixed : Fixed addressing) {address fuel : Nat} {u u' : World Memory}
    (hwritten : run (get (onMemory map clock) fuel) (look (onMemory map clock))
      (map.locateForWrite name addressing).among u = (.ok (address, len), u'))
    (w : World Memory) : Settled (onMemory map clock) name addressing address len w := by
  obtain ⟨place, hplace⟩ := resolveDeviceAddress_fixed hfixed.1 hfixed.2 name
  cases hroute : map.route name addressing with
  | error e =>
    simp only [NodeMap.locateForWrite, hroute, Prog.ofExcept] at hwritten
    cases hwritten
  | ok route =>
    simp only [NodeMap.locateForWrite, hroute, Prog.ofExcept, Prog.done_bind] at hwritten
    cases route with
    | chunk port id => cases hwritten
    | event port id => cases hwritten
    | device =>
      simp only [hplace] at hwritten
      cases hwritten
      intro drop
      have hlocate : map.locate name addressing = pure (.device address len) := by
        simp only [NodeMap.locate, hroute, Prog.ofExcept, Prog.pure_eq, Prog.done_bind, hplace]
        rfl
      refine ⟨0, ((drop.apply map name w).mayServe (onMemory map clock) name).2, ?_⟩
      change run _ _ (map.locate name addressing) _ = _
      rw [hlocate]
      rfl

section

variable {map : NodeMap} {clock : Nat → Nat} {name : Text} {fuel : Nat} {w w' : World Memory}

theorem ensureReadableNow_of_not_readable {node : Node} {access : AccessMode}
    (haccess : node.accessMode = some access) (h : ¬ Readable map name node) :
    map.ensureReadableNow access name = .error (.access name .read) := by
  unfold NodeMap.ensureReadableNow
  rw [if_pos]
  by_contra hneither
  rw [not_or] at hneither
  apply h
  exact ⟨fun hwo => hneither.1 (Option.some.inj (haccess.symm.trans hwo)), hneither.2⟩

theorem readable_of_returns_string (hnode : map.node name = some (.string node)) {value : Text}
    (h : Returns (onMemory map clock) (.string name) w value) :
    Readable map name (.string node) := by
  obtain ⟨fuel, u, hget⟩ := h
  cases fuel with
  | zero => cases hget
  | succ fuel =>
    have hrun : run _ _ (map.getString name) w = (.ok value, u) := reported_eq_ok.mp hget
    have hnodeOf : map.getStringNode name = .ok node := by
      unfold NodeMap.getStringNode
      rw [hnode]
    simp only [NodeMap.getString, hnodeOf, Prog.ofExcept, Prog.done_bind] at hrun
    apply not_not.mp
    intro hunreadable
    rw [ensureReadableNow_of_not_readable rfl hunreadable] at hrun
    cases hrun

theorem readable_of_returns_register {node : RegisterNode}
    (hnode : map.node name = some (.register node)) {value : List UInt8}
    (h : Returns (onMemory map clock) (.register name) w value) :
    Readable map name (.register node) := by
  obtain ⟨fuel, u, hget⟩ := h
  cases fuel with
  | zero => cases hget
  | succ fuel =>
    have hrun : run _ _ (map.getRegister name) w = (.ok value, u) := reported_eq_ok.mp hget
    have hnodeOf : map.getRegisterNode name = .ok node := by
      unfold NodeMap.getRegisterNode
      rw [hnode]
    simp only [NodeMap.getRegister, hnodeOf, Prog.ofExcept, Prog.done_bind] at hrun
    apply not_not.mp
    intro hunreadable
    rw [ensureReadableNow_of_not_readable rfl hunreadable] at hrun
    cases hrun

/-- A text is read back as what the register holds exactly when no cell answers with the
text given, or the register holds all of it. -/
theorem string_reads_back {addressing : Addressing} {text : Text}
    {address : Nat} (hnode : map.node name = some (.string node)) (hpvalue : node.pvalue = none)
    (haddressing : node.addressing = some addressing)
    (hstored : Stored map w' name (·.text) text address (NodeMap.textBytes text len))
    (hsettled : Settled (onMemory map clock) name addressing address len w') :
    (∀ drop : Drop, Returns (onMemory map clock) (.string name) (drop.apply map name w')
      (decodeText (w'.device.bytes address len))) ↔
    Readable map name (.string node) ∧
      (map.keepsWritten name → (w'.mayServe (onMemory map clock) name).1 →
        '\u0000' ∉ text ∧ Utf8.Survives text len) := by
  have hheld := hstored.held
  have hsettled' := hsettled
  rw [← textBytes_length text len] at hsettled'
  rw [textBytes_length] at hheld
  rw [hheld]
  have hback (hreadable : Readable map name (.string node)) :=
    returns_of_stored rfl hstored hsettled'
      (get_string_eq hnode hpvalue haddressing hreadable)
  constructor
  · intro hreturns
    have hreadable : Readable map name (.string node) :=
      readable_of_returns_string hnode (hreturns .nothing)
    refine ⟨hreadable, fun hkeeps hmay => ?_⟩
    have hgiven := hback hreadable .nothing
    rw [if_pos ⟨rfl, hkeeps, hmay⟩] at hgiven
    exact (decodeText_textBytes text len).mp ((hreturns .nothing).unique hgiven)
  · rintro ⟨hreadable, hwhole⟩ drop
    have hreturns := hback hreadable drop
    split at hreturns
    · rename_i hserved
      rwa [(decodeText_textBytes text len).mpr (hwhole hserved.2.1 hserved.2.2)]
    · exact hreturns

theorem register_reads_back {node : RegisterNode} {data : List UInt8} {address : Nat}
    (hnode : map.node name = some (.register node))
    (hstored : Stored map w' name (·.bytes) data address data)
    (hsettled : Settled (onMemory map clock) name node.addressing address data.length w') :
    (∀ drop : Drop, Returns (onMemory map clock) (.register name) (drop.apply map name w')
      (w'.device.bytes address data.length)) ↔ Readable map name (.register node) := by
  rw [hstored.held]
  constructor
  · exact fun hreturns => readable_of_returns_register hnode (hreturns .nothing)
  · intro hreadable drop
    have hreturns := returns_of_stored rfl hstored hsettled
      (get_register_eq hnode hreadable) drop
    rwa [id, ite_self] at hreturns

end

/-- What a successful write leaves in memory is the text, cut or padded, or the bytes.
A read then returns what the register holds, before and after its caches are dropped, if
and only if the node is readable and no text is kept that the register does not hold. -/
theorem write_reads_back (map : NodeMap) (clock : Nat → Nat) (fuel : Nat) (w w' : World Memory) :
    (∀ name node addressing text, map.node name = some (.string node) → node.pvalue = none →
      node.addressing = some addressing →
      set (onMemory map clock) fuel Unit (.string name text) w = (.ok (), w') →
        ∃ address len,
          (∃ before, w'.accesses =
            before ++ [.wrote name address (NodeMap.textBytes text len)]) ∧
          w'.device.bytes address len = NodeMap.textBytes text len ∧
          (Fixed addressing → Settled (onMemory map clock) name addressing address len w') ∧
          (Settled (onMemory map clock) name addressing address len w' →
            ((∀ drop : Drop, Returns (onMemory map clock) (.string name) (drop.apply map name w')
              (decodeText (w'.device.bytes address len))) ↔
            Readable map name (.string node) ∧
              (map.keepsWritten name → (w'.mayServe (onMemory map clock) name).1 →
                '\u0000' ∉ text ∧ Utf8.Survives text len)))) ∧
    (∀ name node data, map.node name = some (.register node) →
      run (set (onMemory map clock) fuel) (deed (onMemory map clock) fuel)
          (map.setRegister name data) w = (.ok (), w') →
        ∃ address,
          (∃ before, w'.accesses = before ++ [.wrote name address data]) ∧
          w'.device.bytes address data.length = data ∧
          (Fixed node.addressing →
            Settled (onMemory map clock) name node.addressing address data.length w') ∧
          (Settled (onMemory map clock) name node.addressing address data.length w' →
            ((∀ drop : Drop, Returns (onMemory map clock) (.register name) (drop.apply map name w')
              (w'.device.bytes address data.length)) ↔ Readable map name (.register node)))) := by
  constructor
  · intro name node addressing text hnode hpvalue haddressing hset
    obtain ⟨address, len, _, _, _, hwritten, hstored⟩ :=
      setString_stored hnode hpvalue haddressing hset
    have hheld := hstored.held
    rw [textBytes_length] at hheld
    exact ⟨address, len, hstored.logged, hheld, fun hfixed => settled_of_fixed hfixed hwritten w',
      string_reads_back hnode hpvalue haddressing hstored⟩
  · intro name node data hnode hset
    obtain ⟨address, _, _, hwritten, hstored⟩ := setRegister_stored hnode hset
    exact ⟨address, hstored.logged, hstored.held, fun hfixed => settled_of_fixed hfixed hwritten w',
      register_reads_back hnode hstored⟩

/-- A text of three bytes at 16, kept when it is written. -/
def labelNode : StringNode where
  name := lit "Label"
  nodeMeta := ⟨.beginner, none, none, none, none, none, false, none, none, []⟩
  addressing := some ⟨[.fixed 16], 3, none, none⟩
  pvalue := none
  value := none
  access := .rw
  predicates := {}

def labelMap : NodeMap :=
  .ofNodes [(lit "Label", .string labelNode)] (by simp [Node.name, labelNode]) [] [] [] [] []

def labelWritten (text : Text) : World Memory :=
  (set (onMemory labelMap id) 2 Unit (.string (lit "Label") text) { device := fun _ => 0 }).2

/-- What fits the register is read back as it was written. -/
theorem write_reads_back_label :
    ∃ address len, (labelWritten (lit "abc")).device.bytes address len = [97, 98, 99] ∧
      ∀ drop : Drop, Returns (onMemory labelMap id) (.string (lit "Label"))
        (drop.apply labelMap (lit "Label") (labelWritten (lit "abc")))
        (decodeText ((labelWritten (lit "abc")).device.bytes address len)) := by
  obtain ⟨address, len, ⟨before, hlogged⟩, hheld, hsettled, hback⟩ :=
    (write_reads_back labelMap id 2 { device := fun _ => 0 } (labelWritten (lit "abc"))).1
      (lit "Label") labelNode ⟨[.fixed 16], 3, none, none⟩ (lit "abc") rfl rfl rfl
      (Prod.ext rfl rfl)
  have hlog : [] ++ [Access.wrote (lit "Label") 16 [97, 98, 99]] =
      before ++ [.wrote (lit "Label") address (NodeMap.textBytes (lit "abc") len)] := hlogged
  obtain ⟨-, hlast⟩ := List.append_inj' hlog rfl
  injection List.singleton_injective hlast with _ _ hdata
  obtain rfl : len = 3 := (textBytes_length (lit "abc") len).symm.trans
    (congrArg List.length hdata).symm
  refine ⟨address, 3, hheld, (hback (hsettled ⟨?_, rfl⟩)).mpr
    ⟨⟨nofun, nofun⟩, fun _ _ => ⟨by decide, .inl (by decide)⟩⟩⟩
  simp

/-- What does not fit is read back whole, though the register holds only its start. -/
theorem kept_text_is_not_stored :
    ¬ ∀ (map : NodeMap) (clock : Nat → Nat) (fuel : Nat) (w w' : World Memory) (name : Text)
      (node : StringNode) (addressing : Addressing) (text : Text),
      map.node name = some (.string node) → node.pvalue = none →
      node.addressing = some addressing → Fixed addressing →
      Readable map name (.string node) →
      set (onMemory map clock) fuel Unit (.string name text) w = (.ok (), w') →
        ∀ address len, (∃ before, w'.accesses =
            before ++ [.wrote name address (NodeMap.textBytes text len)]) →
          ∀ drop : Drop, Returns (onMemory map clock) (.string name) (drop.apply map name w')
            (decodeText (w'.device.bytes address len)) := by
  intro hall
  have hreturns := hall labelMap id 2 { device := fun _ => 0 } (labelWritten (lit "abcdef"))
    (lit "Label") labelNode ⟨[.fixed 16], 3, none, none⟩ (lit "abcdef") rfl rfl rfl
    ⟨by simp, rfl⟩ ⟨nofun, nofun⟩ (Prod.ext rfl rfl) 16 3 ⟨[], rfl⟩ .nothing
  have hgiven : Returns (onMemory labelMap id) (.string (lit "Label"))
      (labelWritten (lit "abcdef")) (lit "abcdef") := ⟨2, _, Prod.ext rfl rfl⟩
  have hsame : decodeText [97, 98, 99] = lit "abcdef" := hreturns.unique hgiven
  exact absurd hsame (by decide)

end VivaGenicam.Genapi
