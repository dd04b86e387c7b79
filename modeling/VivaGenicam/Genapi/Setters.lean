import VivaGenicam.Genapi.Getters

/-!
How a node map writes: what may be written now, the value of each kind of node,
and commands. A setter reads through the getters; the writes of other nodes it
leads to are questions of its own.
-/

namespace VivaGenicam.Genapi

open GenapiXml Library.Programs

/-- The writes that one setter leaves to another. -/
inductive Tell : Type → Type where
  | integer (name : Text) (value : Int64) : Tell Unit
  | float (name : Text) (value : Float) : Tell Unit
  | boolean (name : Text) (value : Bool) : Tell Unit
  | string (name value : Text) : Tell Unit

/-- The single actions of a setter. -/
inductive Deed : Type → Type 1 where
  | get {α : Type} (query : Query α) : Deed α
  | look {α : Type} (action : Look α) : Deed α
  | write (name : Text) (address : Nat) (data : List UInt8) : Deed Unit
  | hold (name : Text) (change : Held → Held) : Deed Unit
  | invalidateDependents (name : Text) : Deed Unit
  | noteCommand (name : Text) (running : Bool) : Deed Unit

abbrev Setter := Prog Tell Deed GenApiError

/-- What a getter does, as part of a setter. -/
def reading {α : Type} (p : Getter α) : Setter α :=
  p.translate (fun _ q => Prog.action (.get q)) (fun _ o => Prog.action (.look o))

/-- What is asked of the getters, as part of a setter. -/
def asking {α : Type} (p : Asking α) : Setter α := reading p.among

def deed {D : Type} (setting : Setting D) (fuel : Nat) : Handler Deed GenApiError (World D)
  | _, .get query, w => get setting fuel _ query w
  | _, .look action, w => look setting _ action w
  | _, .write name address data, w => w.writeDevice setting name address data
  | _, .hold name change, w => (.ok (), w.setHeld name (change (w.held name)))
  | _, .invalidateDependents name, w => (.ok (), w.invalidateDependents setting.map name)
  | _, .noteCommand name running, w => (.ok (), w.noteCommand setting name running)

theorem run_reading {D α : Type} (setting : Setting D) (fuel : Nat)
    (answer : Handler Tell GenApiError (World D)) (p : Getter α) (w : World D) :
    run answer (deed setting fuel) (reading p) w = run (get setting fuel) (look setting) p w := by
  have hget : (fun γ (q : Query γ) => run answer (deed setting fuel) (Prog.action (.get q))) =
      get setting fuel := by
    funext γ q w
    exact run_action ..
  have hlook : (fun γ (o : Look γ) => run answer (deed setting fuel) (Prog.action (.look o))) =
      look setting := by
    funext γ o w
    exact run_action ..
  rw [reading, run_translate, hget, hlook]

open Prog (question action fail ofExcept)

namespace NodeMap

variable (map : NodeMap)

def evalPredicateRef (ctx provider : Text) : Asking Bool :=
  if provider = ctx then fail (.exprEval ctx (.cycle provider))
  else do
    let value ← question (.value provider [ctx])
    pure (value.asF64 != 0)

/-- A predicate that is not declared counts as true. -/
def evalPredicate (ctx : Text) : Option Text → Asking Bool
  | none => pure true
  | some provider => evalPredicateRef ctx provider

def isImplemented (name : Text) : Asking Bool := do
  let refs ← ofExcept (map.predicateRefs name)
  evalPredicate name refs.pIsImplemented

def isAvailable (name : Text) : Asking Bool := do
  if ← map.isImplemented name then do
    let refs ← ofExcept (map.predicateRefs name)
    evalPredicate name refs.pIsAvailable
  else pure false

def ensureUnlocked (name : Text) (refs : PredicateRefs) : Asking Unit :=
  match refs.pIsLocked with
  | some provider => do
    if ← evalPredicateRef name provider then fail (.locked name provider) else pure ()
  | none => pure ()

def ensureWritableNow (name : Text) (access : AccessMode) : Asking Unit :=
  if access = .ro ∨ map.imposedAccess name = some .ro then fail (.access name .write)
  else do
    if ← map.isAvailable name then do
      let refs ← ofExcept (map.predicateRefs name)
      ensureUnlocked name refs
    else fail (.unavailable name)

def integerLimit (name : Text) (which : Limit) : Asking (Option Int64) := do
  match ← question (.limit name name [] which []) with
  | some value => do
    let value ← ofExcept (skToI64 name value)
    pure (some value)
  | none => pure none

/-- In the limits, and a whole number of increments from the least value, or from 0. -/
def integerInRange (name : Text) (value : Int64) (min max inc : Option Int64) :
    Except GenApiError Unit :=
  if min.any (value < ·) then
    .error (.range name (.int value) (.belowMin (.int (min.getD 0))))
  else if max.any (· < value) then
    .error (.range name (.int value) (.aboveMax (.int (max.getD 0))))
  else
    let base := min.getD 0
    let inc := inc.getD 1
    if 1 < inc ∧ (value.toInt - base.toInt).tmod inc.toInt ≠ 0 then
      .error (.range name (.int value) (.offIncrement base inc))
    else .ok ()

def ensureIntegerInRange (name : Text) (value : Int64) : Asking Unit := do
  let min ← integerLimit name .min
  let max ← integerLimit name .max
  let inc ← integerLimit name .inc
  ofExcept (integerInRange name value min max inc)

def floatInRange (name : Text) (value : Float) (min max : Option Float) :
    Except GenApiError Unit :=
  if min.any (value < ·) then
    .error (.range name (.float value) (.belowMin (.float (min.getD 0))))
  else if max.any (· < value) then
    .error (.range name (.float value) (.aboveMax (.float (max.getD 0))))
  else .ok ()

def ensureFloatInRange (name : Text) (value : Float) : Asking Unit := do
  let min ← question (.limit name name [] .min [])
  let max ← question (.limit name name [] .max [])
  ofExcept (floatInRange name value (min.map Value.asF64) (max.map Value.asF64))

/-- The bytes to write a masked value into: those kept, or the device's. -/
def getRawOrRead (name : Text) (readable : Bool) (address len : Nat) : Getter (List UInt8) := do
  let caches ← action (.caches name)
  match caches.raw.filter (·.length = len) with
  | some bytes => pure bytes
  | none =>
    if readable then action (.read name address len)
    else fail (.maskedWriteUnreadable name address)

def clearRaw (c : Caches) : Caches := { c with raw := none }

/-- Kept bytes that the device may have changed are not written back over it. -/
def dropStaleRaw (name : Text) (readable : Bool) : Getter Unit :=
  if readable then do
    if ← action (.mayServe name) then pure () else action (.keep name clearRaw)
  else pure ()

def freshRaw (name : Text) (readable : Bool) (address len : Nat) : Getter (List UInt8) := do
  dropStaleRaw name readable
  getRawOrRead name readable address len

/-- Leaves what was written in the cache as the mode says; a register that cannot
be read keeps its bytes. -/
def afterRegisterWrite (name : Text) (raw : List UInt8) (readable : Bool)
    (put : Bool → Option (List UInt8) → Caches → Caches) : Getter Unit :=
  if map.keepsWritten name then do
    action (.keep name (put true (some raw)))
    action (.noteRead name)
  else action (.keep name (put false (if readable then none else some raw)))

/-- The integer's cells after a write: the value kept or not, and the bytes. -/
def putInteger (value : Int64) (kept : Bool) (raw : Option (List UInt8)) (c : Caches) : Caches :=
  { c with
    integer := if kept then some value else none
    raw }

def putBool (value : Bool) (kept : Bool) (raw : Option (List UInt8)) (c : Caches) : Caches :=
  { c with
    boolean := if kept then some value else none
    raw }

/-- The bytes that hold the value; a bit field's are inserted into the register's. -/
def integerBytes (node : IntegerNode) (name : Text) (value : Int64) (readable : Bool)
    (address len : Nat) : Getter (List UInt8) :=
  match node.bitfield with
  | some bitfield => do
    let encoded ← ofExcept
      (encodeBitfieldValue name value bitfield.bitLength node.sign.isSigned)
    let raw ← freshRaw name readable address len
    ofExcept ((Genapi.insert raw bitfield encoded).mapError (mapBitopsError name))
  | none => ofExcept (i64ToBytes name value len node.sign node.byteOrder)

def setIntegerRegister (node : IntegerNode) (name : Text) (value : Int64)
    (addressing : Addressing) : Setter Unit := do
  let (address, len) ← asking (map.locateForWrite name addressing)
  let readable := node.access ≠ .wo
  let raw ← reading (integerBytes node name value readable address len)
  action (.write name address raw)
  reading (map.afterRegisterWrite name raw readable (putInteger value))
  action (.invalidateDependents name)

/-- The raw value that a value written to a converter becomes; `OLD` is what the
register holds, where the formula declares it. -/
def converterRawWrite (name : Text) (astTo : AstNode) (varsTo : List FormulaVar) (pValue : Text)
    (value : Value) (mode : EvalMode) : Asking Value :=
  let bound := (lit "FROM", value)
  if varsTo.any (·.name = lit "OLD") then do
    let old ← question (.value pValue [])
    map.evalFormula name astTo varsTo [bound, (lit "OLD", old)] mode []
  else map.evalFormula name astTo varsTo [bound] mode []

def writeConverterRaw (pValue : Text) (raw : Value) : Setter Unit :=
  match map.node pValue with
  | some (.float _) => question (.float pValue raw.asF64)
  | some (.boolean _) => question (.boolean pValue raw.isTruthy)
  | some _ => do question (.integer pValue (← ofExcept (skToI64 pValue raw)))
  | none => fail (.nodeNotFound pValue)

def setConverter (name : Text) (value : Float) : Setter Unit := do
  asking (map.ensureWritableNow name .rw)
  let node ← ofExcept (map.getConverterNode name)
  let raw ← asking (map.converterRawWrite node.name node.astTo node.varsTo node.pValue
    (.float value) (evalMode node.output))
  map.writeConverterRaw node.pValue raw
  action (.invalidateDependents name)

def setIntConverter (name : Text) (value : Int64) : Setter Unit := do
  asking (map.ensureWritableNow name .rw)
  let node ← ofExcept (map.getIntConverterNode name)
  let raw ← asking (map.converterRawWrite node.name node.astTo node.varsTo node.pValue
    (.int value) .integer)
  map.writeConverterRaw node.pValue raw
  action (.invalidateDependents name)

/-- Under its index, a constant keeps what was last written to it. -/
def setInteger (name : Text) (value : Int64) : Setter Unit :=
  match map.node name with
  | some (.intConverter _) => map.setIntConverter name value
  | _ => do
    let node ← ofExcept (map.getIntegerNode name)
    asking (map.ensureWritableNow name node.access)
    asking (ensureIntegerInRange name value)
    match node.value, node.pvalue, node.indexed, node.addressing with
    | some _, _, _, _ => do
      action (.hold name fun held => { held with integer := some value })
      action (.invalidateDependents name)
    | none, some pv, _, _ => question (.integer pv value)
    | none, none, some table, _ => do
      match ← asking (indexedValue name table) with
      | (_, .fromNode target) => question (.integer target value)
      | (slot, .literal _) => do
        action (.hold name fun held =>
          { held with integerEntries := (slot, value) :: held.integerEntries })
        action (.invalidateDependents name)
    | none, none, none, none => fail (.noValueSource name)
    | none, none, none, some addressing => map.setIntegerRegister node name value addressing

def encodeFloatRegister (node : FloatNode) (name : Text) (value : Float) (len : Nat) :
    Except GenApiError (List UInt8) :=
  match node.encoding with
  | .ieee754 => encodeIeee754 name value len node.byteOrder
  | .scaledInteger => do
    let raw ← encodeFloat node value
    i64ToBytes name raw len .signed node.byteOrder

def keepFloat (name : Text) (value : Float) : Getter Unit :=
  if map.keepsWritten name then do
    action (.keep name fun c => { c with float := some value })
    action (.noteRead name)
  else action (.keep name fun c => { c with float := none })

def setFloatRegister (node : FloatNode) (name : Text) (value : Float)
    (addressing : Addressing) : Setter Unit := do
  let (address, len) ← asking (map.locateForWrite name addressing)
  let bytes ← ofExcept (encodeFloatRegister node name value len)
  action (.write name address bytes)
  reading (map.keepFloat name value)
  action (.invalidateDependents name)

def setFloat (name : Text) (value : Float) : Setter Unit :=
  match map.node name with
  | some (.converter _) => map.setConverter name value
  | some (.intConverter _) => do map.setIntConverter name (← ofExcept (roundToI64 name value))
  | _ => do
    let node ← ofExcept (map.getFloatNode name)
    asking (map.ensureWritableNow name node.access)
    asking (ensureFloatInRange name value)
    match node.value, node.pvalue, node.indexed, node.addressing with
    | some _, _, _, _ => do
      action (.hold name fun held => { held with float := some value })
      action (.invalidateDependents name)
    | none, some pv, _, _ => question (.float pv value)
    | none, none, some table, _ => do
      match ← asking (indexedValue name table) with
      | (_, .fromNode target) => question (.float target value)
      | (slot, .literal _) => do
        action (.hold name fun held =>
          { held with floatEntries := (slot, value) :: held.floatEntries })
        action (.invalidateDependents name)
    | none, none, none, none => fail (.noValueSource name)
    | none, none, none, some addressing => map.setFloatRegister node name value addressing

def setBoolRegister (node : BooleanNode) (name : Text) (value : Bool) (addressing : Addressing)
    (bitfield : BitField) : Setter Unit := do
  let (address, len) ← asking (map.locateForWrite name addressing)
  let readable := node.access ≠ .wo
  let bytes ← reading (freshRaw name readable address len)
  let raw ← ofExcept ((Genapi.insert bytes bitfield (if value then 1 else 0)).mapError
    (mapBitopsError name))
  action (.write name address raw)
  reading (map.afterRegisterWrite name raw readable (putBool value))
  action (.invalidateDependents name)

def booleanRaw (node : BooleanNode) (value : Bool) : Int64 :=
  if value then node.onValue.getD 1 else node.offValue.getD 0

def setBool (name : Text) (value : Bool) : Setter Unit := do
  let node ← ofExcept (map.getBoolNode name)
  asking (map.ensureWritableNow name node.access)
  let raw := booleanRaw node value
  match node.pvalue, node.addressing, node.value with
  | some pv, _, _ => question (.integer pv raw)
  | none, none, some _ => do
    action (.hold name fun held => { held with integer := some raw })
    action (.invalidateDependents name)
  | none, none, none => fail (.noValueSource name)
  | none, some addressing, _ =>
    match node.bitfield with
    | none => fail (.declaration name "is a Boolean over a register with no bit field")
    | some bitfield => map.setBoolRegister node name value addressing bitfield

/-- The text's bytes, cut and padded to the register's length. -/
def textBytes (value : Text) (len : Nat) : List UInt8 :=
  let bytes := (Library.Utf8.encode value).take len
  bytes ++ List.replicate (len - bytes.length) 0

/-- The value stamped with the generation, where the mode keeps what is written. -/
def keepStamped {α : Type} (name : Text) (value : α)
    (put : Option (α × Nat) → Caches → Caches) : Getter Unit :=
  if map.keepsWritten name then do
    let generation ← action .generation
    action (.keep name (put (some (value, generation))))
    action (.noteRead name)
  else action (.keep name (put none))

def setStringRegister (name value : Text) (addressing : Addressing) : Setter Unit := do
  let (address, len) ← asking (map.locateForWrite name addressing)
  action (.write name address (textBytes value len))
  action (.invalidateDependents name)
  reading (map.keepStamped name value putText)

def setString (name value : Text) : Setter Unit := do
  let node ← ofExcept (map.getStringNode name)
  asking (map.ensureWritableNow name node.access)
  match node.pvalue, node.addressing, node.value with
  | some pv, _, _ => do
    question (.string pv value)
    action (.invalidateDependents name)
  | none, none, none => fail (.noValueSource name)
  | none, none, some _ => do
    action (.hold name fun held => { held with text := some value })
    action (.invalidateDependents name)
  | none, some addressing, _ => map.setStringRegister name value addressing

def setRegister (name : Text) (data : List UInt8) : Setter Unit := do
  let node ← ofExcept (map.getRegisterNode name)
  asking (map.ensureWritableNow name node.access)
  let (address, len) ← asking (map.locateForWrite name node.addressing)
  if data.length ≠ len then fail (.registerLength name len data.length)
  else do
    action (.write name address data)
    action (.invalidateDependents name)
    reading (map.keepStamped name data putBytes)

/-- An entry's own predicates; the second is read only when the first holds. -/
def entryAvailable (name : Text) (entry : EnumEntryDecl) : Asking Bool := do
  if ← evalPredicate name entry.predicates.pIsImplemented then
    evalPredicate name entry.predicates.pIsAvailable
  else pure false

def clearEntry (c : Caches) : Caches := { c with entry := none }

def clearEntries (c : Caches) : Caches :=
  { c with
    entry := none
    mapping := none }

def setEnumRegister (name : Text) (raw : Int64) (selfClearing : Bool)
    (addressing : Addressing) : Setter Unit := do
  let (address, len) ← asking (map.locateForWrite name addressing)
  let bytes ← ofExcept (i64ToBytes name raw len .signed .big)
  action (.write name address bytes)
  action (.look (.keep name clearEntry))
  action (.look (.noteEntry name selfClearing))
  action (.invalidateDependents name)

def writeEntry (node : EnumNode) (name : Text) (entry : EnumEntryDecl) : Setter Unit := do
  let raw ← asking (resolveEnumEntryValue entry)
  match node.pvalue, node.addressing, node.value with
  | some pv, _, _ => do
    question (.integer pv raw)
    action (.look (.keep name clearEntries))
    action (.look (.noteEntry name entry.isSelfClearing))
    action (.invalidateDependents name)
  | none, none, some _ => do
    action (.hold name fun held => { held with integer := some raw })
    action (.look (.keep name clearEntry))
    action (.invalidateDependents name)
  | none, none, none => fail (.noValueSource name)
  | none, some addressing, _ => map.setEnumRegister name raw entry.isSelfClearing addressing

def setEnum (name entry : Text) : Setter Unit := do
  let node ← ofExcept (map.getEnumNode name)
  asking (map.ensureWritableNow name node.access)
  match node.entries.find? (·.name = entry) with
  | none => fail (.enumNoSuchEntry name entry)
  | some decl => do
    if ← asking (entryAvailable name decl) then map.writeEntry node name decl
    else fail (.enumEntryUnavailable name entry)

def commandValue (node : CommandNode) : Asking Int64 :=
  match node.commandValue with
  | .literal value => pure value
  | .fromNode provider => do
    let value ← question (.value provider [node.name])
    ofExcept (skToI64 provider value)

/-- The links up to the first that the path has already; whether there was one. -/
def extendPath : List Text → List Text → List Text × Bool
  | path, [] => (path, false)
  | path, link :: links => if link ∈ path then (path, true) else extendPath (path ++ [link]) links

def valuePathFrom : Nat → List Text → Text → Asking (List Text)
  | 0, path, _ => pure path
  | fuel + 1, path, current =>
    let (path, met) := extendPath path (map.valueChain current)
    if met then pure path
    else do
      match ← map.indexedTarget (path.getLastD current) with
      | some next => if next ∈ path then pure path else valuePathFrom fuel path next
      | none => pure path

/-- The nodes that a read or a write of `name` passes through now: each round but
the last ends with a node. -/
def valuePathNow (name : Text) : Asking (List Text) :=
  map.valuePathFrom (map.nodes.length + 1) [] name

def writeOnlyNow (name : Text) : Asking Bool := do
  let path ← map.valuePathNow name
  pure (path.any map.declaresWriteOnly)

/-- Whether a command is polled once it is executed: not one that is write-only. -/
def pollsAfter (name pv : Text) : Asking Bool :=
  if map.imposedAccess name = some .wo then pure false
  else do
    let writeOnly ← map.writeOnlyNow pv
    pure !writeOnly

def execThrough (node : CommandNode) (name pv : Text) : Setter Unit := do
  let value ← asking (commandValue node)
  let polls ← asking (map.pollsAfter name pv)
  question (.integer pv value)
  action (.noteCommand name polls)
  action (.invalidateDependents name)

def execCommand (name : Text) : Setter Unit := do
  let node ← ofExcept (map.getCommandNode name)
  asking (map.ensureWritableNow name .rw)
  match node.pvalue with
  | some pv => map.execThrough node name pv
  | none => do
    let value ← asking (commandValue node)
    match node.address with
    | none => fail (.noValueSource name)
    | some address =>
      if node.len = 0 then fail (.declaration name "is a Command with a zero <Length>")
      else do
        let data ← ofExcept (i64ToBytes name value node.len .signed .big)
        action (.write name address data)
        action (.invalidateDependents name)

def invalidateEach : List Text → Setter Unit
  | [] => pure ()
  | name :: names => do
    action (.invalidateDependents name)
    invalidateEach names

/-- A command's register is read past every cache; finished, what depends on it is
read again. -/
def isDone (name : Text) : Setter Bool := do
  let node ← ofExcept (map.getCommandNode name)
  match node.pvalue with
  | none => pure true
  | some target =>
    if map.imposedAccess name = some .wo then pure true
    else do
      let path ← asking (map.valuePathNow target)
      if path.any map.declaresWriteOnly then pure true
      else do
        let expected ← asking (commandValue node)
        reading (invalidateReach path)
        let current ← action (.get (.integer target))
        if current ≠ expected then do
          action (.noteCommand name false)
          action (.invalidateDependents name)
          invalidateEach path
          pure true
        else pure false

/-- The setter that does what another one leaves to it. -/
def setter : ∀ α : Type, Tell α → Setter α
  | _, .integer name value => map.setInteger name value
  | _, .float name value => map.setFloat name value
  | _, .boolean name value => map.setBool name value
  | _, .string name value => map.setString name value

end NodeMap

/-- A setter's call, to a depth of calls in calls. -/
def set {D : Type} (setting : Setting D) (fuel : Nat) : Handler Tell GenApiError (World D) :=
  answers setting.map.setter (fun _ _ => id) (deed setting fuel) fuel

end VivaGenicam.Genapi
