import VivaGenicam.Genapi.FloatCodec
import VivaGenicam.Genapi.World
import VivaGenicam.Library.Utf8

/-!
How a node map reads: addresses, formulas, limits and the value of each kind of
node. A getter that asks for another node's value is a program with a question
for it; its other steps are single actions.
-/

namespace VivaGenicam.Genapi

open GenapiXml Library.Programs

/-- What one getter asks of another. A stack has the formulas being evaluated; a
limit also remembers where its search began and the nodes it has passed, and one
that is a formula's variable is asked for on the formula's behalf. -/
inductive Query : Type → Type where
  | integer (name : Text) : Query Int64
  | float (name : Text) : Query Float
  | boolean (name : Text) : Query Bool
  | enumeration (name : Text) : Query Text
  | string (name : Text) : Query Text
  | register (name : Text) : Query (List UInt8)
  | value (provider : Text) (stack : List Text) : Query Value
  | limit (name current : Text) (visited : List Text) (which : Limit) (stack : List Text) :
      Query (Option Value)
  | limitFor (formula provider : Text) (which : Limit) (stack : List Text) : Query (Option Value)

/-- A getter that only asks other getters. -/
abbrev Asking := Asks Query GenApiError

abbrev Getter := Prog Query Look GenApiError

open Prog (question action fail ofExcept)

/-- An address as an unsigned number of 64 bits. -/
def wrapped (n : Int) : Nat := (n % 2 ^ 64).toNat

/-- The longest register that a length read from the device may give. -/
def maxDeviceLength : Nat := 16 * 1024 * 1024

/-- Where a register's bytes are. -/
inductive Location where
  | device (address len : Nat)
  | data (port : Text) (bytes : List UInt8) (offset : Int64) (len : Nat) (fromEnd : Bool)

/-- A negative offset counts from the end of a chunk; an event has none. -/
def slicePortData (name port : Text) (bytes : List UInt8) (offset : Int64) (len : Nat)
    (fromEnd : Bool) : Except GenApiError (List UInt8) :=
  let outOfRange := .error (.portOutOfRange name port offset len bytes.length)
  let slice (start : Nat) :=
    if start + len ≤ bytes.length then .ok ((bytes.drop start).take len) else outOfRange
  if offset < 0 then
    if fromEnd = false ∨ bytes.length < offset.toInt.natAbs then outOfRange
    else slice (bytes.length - offset.toInt.natAbs)
  else slice offset.toInt.toNat

def evalMode : SkOutput → EvalMode
  | .integer => .integer
  | .float => .float

def exprError (name : Text) : EvalError → GenApiError
  | .unknownVariable var => .unknownVariable name var
  | other => .exprEval name other

def entryIsSelfClearing (node : EnumNode) (entry : Text) : Bool :=
  node.entries.any fun candidate => candidate.name = entry ∧ candidate.isSelfClearing

/-- The value a formula has, its variables bound as `values` says. -/
def evalAst (name : Text) (ast : AstNode) (values : List (Text × Value)) (mode : EvalMode) :
    Except GenApiError Value :=
  let resolver (ident : Text) : Eval Unit Value := ExceptT.mk (pure
    (match values.lookup ident with
    | some value => .ok value
    | none => .error (.unknownVariable ident)))
  (((evaluate resolver mode ast).run ()).1).mapError (exprError name)

def decodeText (raw : List UInt8) : Text := Library.Utf8.decodeLossy (raw.takeWhile (· ≠ 0))

namespace NodeMap

variable (map : NodeMap)

def unsignedPart (name : Text) (value : Int64) : Except GenApiError Nat :=
  if value < 0 then .error (.badIndirectAddress name value) else .ok value.toInt.toNat

def lengthFrom (name provider : Text) : Asking Nat := do
  let len ← question (.integer provider)
  if len < 0 ∨ 2 ^ 32 ≤ len.toInt then fail (.badLength name provider len)
  else pure len.toInt.toNat

/-- A bare index strides by the register's length. -/
def resolveStride (name : Text) (len : Nat) : IndexOffset → Asking Nat
  | .fixed stride => pure stride
  | .node provider => do ofExcept (unsignedPart name (← question (.integer provider)))
  | .length => pure len

def resolveAddressTerm (name : Text) (len : Nat) : AddressTerm → Asking Nat
  | .fixed offset => pure (wrapped offset)
  | .node provider => do ofExcept (unsignedPart name (← question (.integer provider)))
  | .index node offset => do
    let index ← ofExcept (unsignedPart name (← question (.integer node)))
    let stride ← resolveStride name len offset
    pure (index * stride % 2 ^ 64)

/-- The terms add up to an unsigned number of 64 bits, which wraps. -/
def sumTerms (name : Text) (len : Nat) : List AddressTerm → Nat → Asking Nat
  | [], address => pure address
  | term :: terms, address => do
    let part ← resolveAddressTerm name len term
    sumTerms name len terms ((address + part) % 2 ^ 64)

def resolveAddress (name : Text) (addressing : Addressing) : Asking (Nat × Nat) := do
  let len ← match addressing.pLength with
    | some provider => lengthFrom name provider
    | none => pure addressing.len
  let address ← sumTerms name len addressing.terms 0
  pure (address, len)

def resolveDeviceAddress (name : Text) (addressing : Addressing) : Asking (Nat × Nat) := do
  let (address, len) ← resolveAddress name addressing
  match addressing.pLength with
  | some provider =>
    if maxDeviceLength < len then fail (.badLength name provider (.ofNat len))
    else pure (address, len)
  | none => pure (address, len)

/-- The bytes attached to a port, before any of the address is resolved. -/
def locateData (name : Text) (addressing : Addressing) (port : Text) (kind : PortKind)
    (fromEnd : Bool) : Getter Location := do
  match ← action (.attached kind) with
  | none => fail (.notAttached name port)
  | some bytes => do
    let (offset, len) ← resolveAddress name addressing
    pure (.data port bytes (.ofNat offset) len fromEnd)

def locate (name : Text) (addressing : Addressing) : Getter Location := do
  match ← ofExcept (map.route name addressing) with
  | .device => do
    let (address, len) ← resolveDeviceAddress name addressing
    pure (.device address len)
  | .chunk port id => locateData name addressing port (.chunk id) true
  | .event port id => locateData name addressing port (.event id) false

def locateForWrite (name : Text) (addressing : Addressing) : Asking (Nat × Nat) := do
  match ← ofExcept (map.route name addressing) with
  | .device => resolveDeviceAddress name addressing
  | .chunk port _ | .event port _ => fail (.portNotWritable name port)

def readLocation (name : Text) : Location → Getter (List UInt8)
  | .device address len => action (.read name address len)
  | .data port bytes offset len fromEnd =>
    ofExcept (slicePortData name port bytes offset len fromEnd)

/-- The cell of `name` that `pick` names, when a read may be answered from it. -/
def served {α : Type} (name : Text) (pick : Caches → Option α) : Getter (Option α) := do
  if ← action (.mayServe name) then do
    let caches ← action (.caches name)
    pure (pick caches)
  else pure none

/-- A cell stamped with a generation answers only in that generation. -/
def servedNow {α : Type} (name : Text) (pick : Caches → Option (α × Nat)) :
    Getter (Option α) := do
  match ← served name pick with
  | some (value, stamp) => do
    let generation ← action .generation
    pure (if stamp = generation then some value else none)
  | none => pure none

/-- Changes the cells of `name` when a value just read may be kept. -/
def keepRead (name : Text) (change : Caches → Caches) : Getter Unit :=
  if map.mayCache name then action (.keep name change) else pure ()

/-- The bytes of `name`'s register, decoded, and kept as far as its mode allows. -/
def readRegister {α : Type} (name : Text) (addressing : Addressing) (pick : Caches → Option α)
    (decode : List UInt8 → Except GenApiError α)
    (put : Option (α × List UInt8) → Caches → Caches) : Getter α := do
  let location ← map.locate name addressing
  match ← served name pick with
  | some value => pure value
  | none => do
    let raw ← readLocation name location
    let value ← ofExcept (decode raw)
    action (.noteRead name)
    action (.keep name (put (if map.mayCache name then some (value, raw) else none)))
    pure value

/-- A text or a block of bytes is served before its register is located. -/
def readStamped {α : Type} (name : Text) (addressing : Addressing)
    (pick : Caches → Option (α × Nat)) (decode : List UInt8 → α)
    (put : Option (α × Nat) → Caches → Caches) : Getter α := do
  match ← servedNow name pick with
  | some value => pure value
  | none => do
    let location ← map.locate name addressing
    let raw ← readLocation name location
    action (.noteRead name)
    let generation ← action .generation
    action (.keep name (put (if map.mayCache name then some (decode raw, generation) else none)))
    pure (decode raw)

/-- The value that decides an enumeration's entry. -/
def resolveEnumEntryValue (entry : EnumEntryDecl) : Asking Int64 :=
  match entry.value with
  | .literal value => pure value
  | .fromNode provider => question (.integer provider)

def noLimit (formula : Text) (var : FormulaVar) (limit : String) : GenApiError :=
  .exprEval formula (.noLimit var.name var.provider limit)

/-- Where nothing declares a limit, the largest range; a float has no increment. -/
def defaultLimit (formula : Text) (var : FormulaVar) (integral : Bool) (which : Limit) :
    Except GenApiError Value :=
  match integral, which with
  | true, .min => .ok (.int Int64.minValue)
  | true, .max => .ok (.int Int64.maxValue)
  | true, .inc => .ok (.int 1)
  | false, .min => .ok (.float (-f64Max))
  | false, .max => .ok (.float f64Max)
  | false, .inc => .error (noLimit formula var "increment")
where
  f64Max : Float := Float.ofBits 0x7FEFFFFFFFFFFFFF

def resolveLimit (formula : Text) (var : FormulaVar) (which : Limit) (stack : List Text) :
    Asking Value := do
  let integral ← ofExcept (match map.node var.provider with
    | some (.integer _) | some (.intConverter _) => .ok true
    | some (.float _) | some (.converter _) => .ok false
    | some _ => .error (noLimit formula var "minimum, maximum or increment")
    | none => .error (.nodeNotFound var.provider))
  match ← question (.limitFor formula var.provider which stack) with
  | some value =>
    if integral then do
      let value ← ofExcept (skToI64 var.provider value)
      pure (.int value)
    else pure (.float value.asF64)
  | none => ofExcept (defaultLimit formula var integral which)

def resolveFormulaVar (formula : Text) (var : FormulaVar) (stack : List Text) : Asking Value :=
  match var.attr with
  | .value => question (.value var.provider stack)
  | .entry entry => do
    let node ← ofExcept (map.getEnumNode var.provider)
    match node.entries.find? (·.name = entry) with
    | some decl => do
      let value ← resolveEnumEntryValue decl
      pure (.int value)
    | none => fail (.enumNoSuchEntry var.provider entry)
  | .min => map.resolveLimit formula var .min stack
  | .max => map.resolveLimit formula var .max stack
  | .inc => map.resolveLimit formula var .inc stack

/-- The variables that the caller does not bind itself, the last of a name first. -/
def bindVars (formula : Text) (overrides : List (Text × Value)) (stack : List Text) :
    List FormulaVar → List (Text × Value) → Asking (List (Text × Value))
  | [], values => pure values
  | var :: vars, values =>
    if (overrides.lookup var.name).isSome then bindVars formula overrides stack vars values
    else do
      let value ← map.resolveFormulaVar formula var stack
      bindVars formula overrides stack vars ((var.name, value) :: values)

def evalFormula (name : Text) (ast : AstNode) (vars : List FormulaVar)
    (overrides : List (Text × Value)) (mode : EvalMode) (stack : List Text) : Asking Value := do
  let values ← map.bindVars name overrides stack vars []
  ofExcept (evalAst name ast (overrides ++ values) mode)

/-- A formula that is being evaluated already is a cycle. -/
def guarded {Q O : Type → Type} {α : Type} (name : Text) (stack : List Text)
    (evaluation : List Text → Prog Q O GenApiError α) : Prog Q O GenApiError α :=
  if name ∈ stack then fail (.exprEval name (.cycle name)) else evaluation (name :: stack)

/-- The generation is the one in which the evaluation began. -/
def evaluateSwissknife (node : SkNode) (stack : List Text) : Getter Value := do
  match ← servedNow node.name (·.formula) with
  | some value => pure value
  | none =>
    guarded node.name stack fun inner => do
      let generation ← action .generation
      let value ← map.evalFormula node.name node.ast node.vars [] (evalMode node.output) inner
      map.keepRead node.name fun c => { c with formula := some (value, generation) }
      pure value

def evaluateConverter (node : ConverterNode) (stack : List Text) : Asking Value :=
  guarded node.name stack fun inner =>
    map.evalFormula node.name node.astFrom node.varsFrom [] (evalMode node.output) inner

def evaluateIntConverter (node : IntConverterNode) (stack : List Text) : Asking Int64 :=
  guarded node.name stack fun inner => do
    let value ← map.evalFormula node.name node.astFrom node.varsFrom [] .integer inner
    pure value.asI64

def getConverter (name : Text) : Getter Float := do
  let node ← ofExcept (map.getConverterNode name)
  ofExcept (map.ensureNotImposed name .wo)
  match ← servedNow name (·.formula) with
  | some value => pure value.asF64
  | none => do
    let value ← map.evaluateConverter node []
    let generation ← action .generation
    map.keepRead name fun c => { c with formula := some (value, generation) }
    pure value.asF64

def getIntConverter (name : Text) : Getter Int64 := do
  let node ← ofExcept (map.getIntConverterNode name)
  ofExcept (map.ensureNotImposed name .wo)
  match ← servedNow name (·.intFormula) with
  | some value => pure value
  | none => do
    let value ← map.evaluateIntConverter node []
    let generation ← action .generation
    map.keepRead name fun c => { c with intFormula := some (value, generation) }
    pure value

/-- What the index selects now: the entry naming it, or the default. -/
def indexedValue {α : Type} (name : Text) (table : IndexedValue α) :
    Asking (Option Int × IndexedSrc α) := do
  let index ← question (.integer table.index)
  match table.entries.find? (·.index = index.toInt) with
  | some entry => pure (some index.toInt, entry.value)
  | none =>
    match table.default with
    | some value => pure (none, value)
    | none => fail (.noIndexedValue name table.index index)

def indexedTarget (name : Text) : Asking (Option Text) :=
  match map.node name with
  | some (.integer node) =>
    match node.indexed with
    | some table => do
      let (_, source) ← indexedValue name table
      pure source.node
    | none => pure none
  | some (.float node) =>
    match node.indexed with
    | some table => do
      let (_, source) ← indexedValue name table
      pure source.node
    | none => pure none
  | _ => pure none

def decodeInteger (node : IntegerNode) (name : Text) (raw : List UInt8) :
    Except GenApiError Int64 :=
  match node.bitfield with
  | some bitfield => do
    let extracted ← (extract raw bitfield).mapError (mapBitopsError name)
    interpretBitfieldValue name extracted bitfield.bitLength node.sign.isSigned
  | none => bytesToI64 name raw node.sign node.byteOrder

def getPlainInteger (name : Text) : Getter Int64 := do
  let node ← ofExcept (map.getIntegerNode name)
  ofExcept (map.ensureReadableNow node.access name)
  match node.value, node.pvalue, node.indexed, node.addressing with
  | some start, _, _, _ => do
    let held ← action (.held name)
    pure (held.integer.getD start)
  | none, some pv, _, _ => question (.integer pv)
  | none, none, some table, _ => do
    match ← indexedValue name table with
    | (_, .fromNode target) => question (.integer target)
    | (slot, .literal start) => do
      let held ← action (.held name)
      pure ((held.integerEntries.lookup slot).getD start)
  | none, none, none, none => fail (.noValueSource name)
  | none, none, none, some addressing =>
    map.readRegister name addressing (·.integer) (decodeInteger node name) fun kept c =>
      { c with
        integer := kept.map (·.1)
        raw := kept.map (·.2) }

def getInteger (name : Text) : Getter Int64 :=
  match map.node name with
  | some (.intConverter _) => map.getIntConverter name
  | some (.converter _) => do ofExcept (roundToI64 name (← map.getConverter name))
  | some (.swissKnife node) => do
    ofExcept (map.ensureNotImposed name .wo)
    match node.output with
    | .integer => do ofExcept (skToI64 name (← map.evaluateSwissknife node []))
    | .float => fail (.type name "SwissKnife" "an integer formula")
  | _ => map.getPlainInteger name

/-- A scaled raw value is conventionally signed. -/
def decodeFloat (node : FloatNode) (name : Text) (raw : List UInt8) : Except GenApiError Float :=
  match node.encoding with
  | .ieee754 => decodeIeee754 name raw node.byteOrder
  | .scaledInteger => do
    let value ← bytesToI64 name raw .signed node.byteOrder
    pure (applyScale node value.toFloat)

def getPlainFloat (name : Text) : Getter Float := do
  let node ← ofExcept (map.getFloatNode name)
  ofExcept (map.ensureReadableNow node.access name)
  match node.value, node.pvalue, node.indexed, node.addressing with
  | some start, _, _, _ => do
    let held ← action (.held name)
    pure (held.float.getD start)
  | none, some pv, _, _ => question (.float pv)
  | none, none, some table, _ => do
    match ← indexedValue name table with
    | (_, .fromNode target) => question (.float target)
    | (slot, .literal start) => do
      let held ← action (.held name)
      pure ((held.floatEntries.lookup slot).getD start)
  | none, none, none, none => fail (.noValueSource name)
  | none, none, none, some addressing =>
    map.readRegister name addressing (·.float) (decodeFloat node name) fun kept c =>
      { c with float := kept.map (·.1) }

def getFloat (name : Text) : Getter Float :=
  match map.node name with
  | some (.converter _) => map.getConverter name
  | some (.intConverter _) => do
    let value ← map.getIntConverter name
    pure value.toFloat
  | some (.swissKnife node) => do
    ofExcept (map.ensureNotImposed name .wo)
    match node.output with
    | .float => do
      let value ← map.evaluateSwissknife node []
      pure value.asF64
    | .integer => do
      let value ← map.getInteger name
      pure value.toFloat
  | _ => map.getPlainFloat name

/-- Of two entries with one value the first counts, of two with one name the last. -/
def buildMapping : List EnumEntryDecl → EnumMapping → Asking EnumMapping
  | [], mapping => pure mapping
  | entry :: entries, mapping => do
    let value ← resolveEnumEntryValue entry
    buildMapping entries
      { byValue := if (mapping.byValue.lookup value).isSome then mapping.byValue
          else (value, entry.name) :: mapping.byValue
        byName := (entry.name, value) :: mapping.byName }

def buildEnumMapping (node : EnumNode) : Asking EnumMapping :=
  buildMapping node.entries ⟨[], []⟩

def rebuildMapping (node : EnumNode) : Getter EnumMapping := do
  let mapping ← buildEnumMapping node
  action (.keep node.name fun c => { c with mapping := some mapping })
  pure mapping

/-- The mapping kept, or a new one, which is kept. -/
def keptMapping (node : EnumNode) : Getter EnumMapping := do
  let caches ← action (.caches node.name)
  match caches.mapping with
  | some mapping => pure mapping
  | none => rebuildMapping node

/-- A value the mapping lacks makes it anew, once. -/
def lookupEnumEntry (node : EnumNode) (raw : Int64) : Getter Text := do
  let mapping ← keptMapping node
  match mapping.byValue.lookup raw with
  | some entry => pure entry
  | none => do
    let mapping ← rebuildMapping node
    match mapping.byValue.lookup raw with
    | some entry => pure entry
    | none => fail (.enumValueUnknown node.name raw)

def invalidateReach : List Text → Getter Unit
  | [] => pure ()
  | name :: names => do
    action (.invalidateCache name)
    invalidateReach names

/-- While a self-clearing entry is active, no cache answers, nor one behind. -/
def forgetReach (name : Text) (active : Bool) : Getter Unit :=
  if active then invalidateReach (map.valueReach name) else pure ()

def servedEntry (name : Text) (active : Bool) : Getter (Option Text) :=
  if active then pure none else served name (·.entry)

def keepEntry (name entry : Text) : Getter Unit :=
  map.keepRead name fun c => { c with entry := some entry }

def getEnum (name : Text) : Getter Text := do
  let node ← ofExcept (map.getEnumNode name)
  ofExcept (map.ensureReadableNow node.access name)
  let active ← action (.selfClearingActive name)
  map.forgetReach name active
  match node.pvalue, node.addressing, node.value with
  | some pv, _, _ => do
    match ← servedEntry name active with
    | some entry => pure entry
    | none => do
      let raw ← question (.integer pv)
      let entry ← lookupEnumEntry node raw
      action (.noteEntry name (entryIsSelfClearing node entry))
      map.keepEntry name entry
      pure entry
  | none, none, some start => do
    let held ← action (.held name)
    lookupEnumEntry node (held.integer.getD start)
  | none, none, none => fail (.noValueSource name)
  | none, some addressing, _ => do
    let location ← map.locate name addressing
    match ← servedEntry name active with
    | some entry => pure entry
    | none => do
      let bytes ← readLocation name location
      let raw ← ofExcept (bytesToI64 name bytes .signed .big)
      let entry ← lookupEnumEntry node raw
      action (.noteRead name)
      action (.noteEntry name (entryIsSelfClearing node entry))
      map.keepEntry name entry
      pure entry

def getEnumNumeric (name : Text) : Getter Int64 := do
  let entry ← question (.enumeration name)
  let node ← ofExcept (map.getEnumNode name)
  let mapping ← keptMapping node
  match mapping.byName.lookup entry with
  | some value => pure value
  | none => fail (.enumNoSuchEntry name entry)

def decodeBool (bitfield : BitField) (name : Text) (raw : List UInt8) :
    Except GenApiError Bool := do
  let value ← (extract raw bitfield).mapError (mapBitopsError name)
  pure (value ≠ 0)

def getBool (name : Text) : Getter Bool := do
  let node ← ofExcept (map.getBoolNode name)
  ofExcept (map.ensureReadableNow node.access name)
  let on := node.onValue.getD 1
  match node.pvalue, node.addressing, node.value with
  | some pv, _, _ => do
    let raw ← question (.integer pv)
    pure (raw = on)
  | none, none, some start => do
    let held ← action (.held name)
    pure (held.integer.getD start = on)
  | none, none, none => fail (.noValueSource name)
  | none, some addressing, _ =>
    match node.bitfield with
    | none => fail (.declaration name "is a Boolean over a register with no bit field")
    | some bitfield =>
      map.readRegister name addressing (·.boolean) (decodeBool bitfield name) fun kept c =>
        { c with
          boolean := kept.map (·.1)
          raw := kept.map (·.2) }

def putText (kept : Option (Text × Nat)) (c : Caches) : Caches := { c with text := kept }

def putBytes (kept : Option (List UInt8 × Nat)) (c : Caches) : Caches := { c with bytes := kept }

def getString (name : Text) : Getter Text := do
  let node ← ofExcept (map.getStringNode name)
  ofExcept (map.ensureReadableNow node.access name)
  match node.pvalue, node.addressing with
  | some pv, _ => question (.string pv)
  | none, none => do
    let held ← action (.held name)
    match held.text, node.value with
    | some written, _ => pure written
    | none, some start => pure start
    | none, none => fail (.noValueSource name)
  | none, some addressing =>
    map.readStamped name addressing (·.text) decodeText putText

def getRegister (name : Text) : Getter (List UInt8) := do
  let node ← ofExcept (map.getRegisterNode name)
  ofExcept (map.ensureReadableNow node.access name)
  map.readStamped name node.addressing (·.bytes) id putBytes

/-- An integer stays integral on its way into a formula. -/
def resolveValue (provider : Text) (stack : List Text) : Getter Value :=
  match map.node provider with
  | some (.integer _) => do
    let value ← question (.integer provider)
    pure (.int value)
  | some (.float _) => do
    let value ← question (.float provider)
    pure (.float value)
  | some (.boolean _) => do
    let value ← question (.boolean provider)
    pure (.fromBool value)
  | some (.enumeration _) => do
    let value ← map.getEnumNumeric provider
    pure (.int value)
  | some (.swissKnife node) => do
    ofExcept (map.ensureNotImposed provider .wo)
    map.evaluateSwissknife node stack
  | some (.converter node) => do
    ofExcept (map.ensureNotImposed provider .wo)
    (map.evaluateConverter node stack).among
  | some (.intConverter node) => do
    ofExcept (map.ensureNotImposed provider .wo)
    let value ← map.evaluateIntConverter node stack
    pure (.int value)
  | some other => fail (.type provider other.kindName "a node with a value")
  | none => fail (.nodeNotFound provider)

/-- The read direction of a converter. -/
structure FromFormula where
  name : Text
  ast : AstNode
  vars : List FormulaVar
  pValue : Text
  slope : Slope
  mode : EvalMode

def ConverterNode.fromFormula (node : ConverterNode) : FromFormula where
  name := node.name
  ast := node.astFrom
  vars := node.varsFrom
  pValue := node.pValue
  slope := node.slope
  mode := evalMode node.output

def IntConverterNode.fromFormula (node : IntConverterNode) : FromFormula where
  name := node.name
  ast := node.astFrom
  vars := node.varsFrom
  pValue := node.pValue
  slope := node.slope
  mode := .integer

def evalFrom (formula : FromFormula) (raw : Value) (stack : List Text) : Asking Value :=
  map.evalFormula formula.name formula.ast formula.vars [(lit "TO", raw)] formula.mode stack

/-- An undeclared slope is found by evaluating at both bounds; a decreasing one
swaps them. -/
def converterLimitUnguarded (formula : FromFormula) (which : Limit) (stack : List Text) :
    Asking (Option Value) :=
  let bound (rawWhich : Limit) : Asking (Option Value) :=
    question (.limit formula.pValue formula.pValue [] rawWhich stack)
  let mapped (rawWhich : Limit) : Asking (Option Value) := do
    match ← bound rawWhich with
    | some raw => do
      let value ← map.evalFrom formula raw stack
      pure (some value)
    | none => pure none
  match formula.slope, which with
  | .varying, _ => pure none
  | .decreasing, .min => mapped .max
  | .decreasing, .max => mapped .min
  | .increasing, which | .decreasing, which => mapped which
  | .automatic, which => do
    let low ← bound .min
    let high ← bound .max
    match low, high with
    | some low, some high => do
      let a ← map.evalFrom formula low stack
      let b ← map.evalFrom formula high stack
      let (small, large) := if a.asF64 ≤ b.asF64 then (a, b) else (b, a)
      pure (some (if which = .min then small else large))
    | _, _ => pure none

def converterLimit (formula : FromFormula) (which : Limit) (stack : List Text) :
    Asking (Option Value) :=
  if which = .inc then pure none
  else guarded formula.name stack fun inner => map.converterLimitUnguarded formula which inner

/-- The limit of the node that `current` takes its value from, if it has one. -/
def limitBehind (name current : Text) (visited : List Text) (which : Limit) (stack : List Text)
    (pvalue : Option Text) : Asking (Option Value) := do
  let next ← match pvalue with
    | some pv => pure (some pv)
    | none => map.indexedTarget current
  match next with
  | some next => question (.limit name next (current :: visited) which stack)
  | none => pure none

/-- A pointer wins over a constant, and both over the node behind. -/
def limit (name current : Text) (visited : List Text) (which : Limit) (stack : List Text) :
    Asking (Option Value) :=
  if current ∈ visited then fail (.exprEval name (.cycle current))
  else
    match map.node current with
    | some (.integer node) =>
      let (pointer, declared) := match which with
        | .min => (node.pMin, node.min)
        | .max => (node.pMax, node.max)
        | .inc => (node.pInc, node.inc)
      match pointer, declared with
      | some pointer, _ => do
        let value ← question (.value pointer stack)
        let value ← ofExcept (skToI64 pointer value)
        pure (some (.int value))
      | none, some value => pure (some (.int value))
      | none, none => map.limitBehind name current visited which stack node.pvalue
    | some (.float node) =>
      match which with
      | .inc => pure none
      | .min | .max =>
        let (pointer, declared) := if which = .min then (node.pMin, node.min)
          else (node.pMax, node.max)
        match pointer, declared with
        | some pointer, _ => do
          let value ← question (.value pointer stack)
          pure (some (.float value.asF64))
        | none, some value => pure (some (.float value))
        | none, none => map.limitBehind name current visited which stack node.pvalue
    | some (.converter node) => map.converterLimit (ConverterNode.fromFormula node) which stack
    | some (.intConverter node) =>
      map.converterLimit (IntConverterNode.fromFormula node) which stack
    | some _ => pure none
    | none => fail (.nodeNotFound current)

def getter : ∀ α : Type, Query α → Getter α
  | _, .integer name => map.getInteger name
  | _, .float name => map.getFloat name
  | _, .boolean name => map.getBool name
  | _, .enumeration name => map.getEnum name
  | _, .string name => map.getString name
  | _, .register name => map.getRegister name
  | _, .value provider stack => map.resolveValue provider stack
  | _, .limit name current visited which stack => (map.limit name current visited which stack).among
  | _, .limitFor _ provider which stack => (map.limit provider provider [] which stack).among

/-- A cycle met in a variable's limit is the formula's. -/
def reportGet : ∀ α : Type, Query α → GenApiError → GenApiError
  | _, .limitFor formula _ _ _, .exprEval _ (.cycle name) => .exprEval formula (.cycle name)
  | _, _, e => e

end NodeMap

/-- A getter's call, to a depth of calls in calls. -/
def get {D : Type} (setting : Setting D) (fuel : Nat) : Handler Query GenApiError (World D) :=
  answers setting.map.getter NodeMap.reportGet (look setting) fuel

end VivaGenicam.Genapi
