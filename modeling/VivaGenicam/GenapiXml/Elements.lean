import VivaGenicam.GenapiXml.Builders

/-!
The elements of a node and the handlers its parser shares with the others.
An element is what the XML reader yields of it: attributes with their values
normalised, and the string value of its content, or none when it closes itself.
-/

namespace VivaGenicam.GenapiXml

structure Element where
  tag : Tag
  attributes : List (String × Text)
  content : Option Text
deriving DecidableEq, Repr

/-- An attribute's value, if it is there and not blank. -/
def attributeValue (attributes : List (String × Text)) (name : String) : Option Text :=
  match attributes.find? (·.1 = name) with
  | some attr => nonBlank attr.2
  | none => none

def missingAttribute (name : String) : String :=
  if name = "Name" then "attribute Name" else "a required attribute"

def attributeValueRequired (tag : Text) (attributes : List (String × Text)) (name : String) :
    Except XmlError Text :=
  match attributeValue attributes name with
  | some value => .ok value
  | none => .error (.missing tag (missingAttribute name))

/-- The name an embedded knife is declared under. -/
def embeddedKnifeName (e : Element) : Except XmlError Text := do
  let name ← attributeValueRequired (lit "IntSwissKnife") e.attributes "Name"
  if trim name = [] then
    throw (.invalid (lit "<IntSwissKnife>") "embedded in a register has an empty Name")
  pure (trim name)

/-- A reference an element's text makes; a blank text makes none, and what was
declared before stays. -/
def reference (text : Text) (declared : Option Text) : Option Text :=
  (nonBlank text).or declared

/-- The list with the node an element's text names, if it names one. -/
def appendReference (text : Text) (references : List Text) : List Text :=
  references ++ (nonBlank text).toList

/-- The predicates after an element, if it is one of theirs. -/
def handlePredicateStart (e : Element) (text : Text) (prefs : PredicateRefs) :
    Option PredicateRefs :=
  match e.tag with
  | .pIsImplemented => some { prefs with pIsImplemented := reference text prefs.pIsImplemented }
  | .pIsAvailable => some { prefs with pIsAvailable := reference text prefs.pIsAvailable }
  | .pIsLocked => some { prefs with pIsLocked := reference text prefs.pIsLocked }
  | _ => none

def handleInvalidatorStart (e : Element) (text : Text) (invalidators : List Text) :
    Option (List Text) :=
  if e.tag = .pInvalidator then some (appendReference text invalidators) else none

def handlePSelectedStart (text : Text) (selected : List Text) : List Text :=
  appendReference text selected

def indexOffset (e : Element) : Except XmlError IndexOffset :=
  match attributeValue e.attributes "Offset" with
  | some offset => (parseU64 offset).map IndexOffset.fixed
  | none =>
    match (attributeValue e.attributes "pOffset").bind nonBlank with
    | some node => .ok (.node node)
    | none => .ok .length

def parseLength (name text : Text) : Except XmlError Nat := do
  let value ← parseU64 text
  if value < 2 ^ 32 then pure value
  else throw (.invalid name "declares a <Length> out of range")

/-- The builder after an element, if it is one of the addressing's. -/
def handleAddressingStart (name : Text) (e : Element) (text : Text) (a : AddressingBuilder) :
    Except XmlError (Option AddressingBuilder) :=
  match e.tag with
  | .address => do pure (some (a.pushFixedAddress (← parseAddress text)))
  | .pPort =>
    pure (some (match nonBlank text with
      | some target => a.setPort target
      | none => a))
  | .pAddress =>
    pure (some (match nonBlank text with
      | some target => a.pushPAddress target
      | none => a))
  | .pIndex => do
    let offset ← indexOffset e
    pure (some (match nonBlank text with
      | some target => a.pushIndex target offset
      | none => a))
  | .intSwissKnife => do pure (some (a.pushPAddress (← embeddedKnifeName e)))
  | .length => do pure (some (a.setLength (← parseLength name text)))
  | .pLength =>
    match nonBlank text with
    | some target => pure (some (a.setPLength target))
    | none => throw (.invalid name "has an empty <pLength>")
  | _ => pure none

/-- The builder after an element that closes itself, if it is one of the
addressing's. -/
def handleAddressingEmpty (e : Element) (a : AddressingBuilder) :
    Except XmlError (Option AddressingBuilder) :=
  match e.tag with
  | .pAddress =>
    pure (some (match (attributeValue e.attributes "Name").bind nonBlank with
      | some target => a.pushPAddress target
      | none => a))
  | .pIndex =>
    match (attributeValue e.attributes "Name").bind nonBlank with
    | some target => do pure (some (a.pushIndex target (← indexOffset e)))
    | none => pure (some a)
  | _ => pure none

structure IndexedBuilder (α : Type) where
  index : Option (Text × IndexOffset) := none
  entries : List (IndexedEntry α) := []
  default : Option (IndexedSrc α) := none
deriving DecidableEq, Repr

namespace IndexedBuilder

variable {α : Type}

/-- The value of one of the four value elements, its text not blank. -/
def source (parse : Text → Except XmlError α) (tag : Tag) (text : Text) :
    Except XmlError (IndexedSrc α) :=
  if tag = .valueIndexed ∨ tag = .valueDefault then (parse text).map .literal
  else .ok (.fromNode text)

/-- The builder after an element, if it is one of the five. -/
def handleStart (parse : Text → Except XmlError α) (e : Element) (text : Text)
    (b : IndexedBuilder α) : Except XmlError (Option (IndexedBuilder α)) :=
  match e.tag with
  | .valueIndexed | .pValueIndexed => do
    let name := if e.tag = .valueIndexed then lit "ValueIndexed" else lit "pValueIndexed"
    let index ← parseI64 (← attributeValueRequired name e.attributes "Index")
    match nonBlank text with
    | none => pure (some b)
    | some text => do
      let value ← source parse e.tag text
      pure (some { b with entries := b.entries ++ [{ index, value }] })
  | .valueDefault | .pValueDefault =>
    match nonBlank text with
    | none => pure (some b)
    | some text => do
      let value ← source parse e.tag text
      pure (some { b with default := some value })
  | .pIndex =>
    match nonBlank text with
    | none => pure (some b)
    | some text => do
      let offset ← indexOffset e
      pure (some { b with index := some (text, offset) })
  | _ => pure none

/-- The indexed value, if the node declares one. On a node with an address
term of its own and no values, the index is a term of that address. -/
def finish (b : IndexedBuilder α) (name : Text) (a : AddressingBuilder) :
    Except XmlError (Option (IndexedValue α) × AddressingBuilder) :=
  let hasValues := b.entries ≠ [] ∨ b.default.isSome
  match b.index with
  | none =>
    if hasValues then .error (.missing name "<pIndex>") else .ok (none, a)
  | some (index, offset) =>
    if a.hasTerms ∧ ¬hasValues then .ok (none, a.pushIndex index offset)
    else .ok (some { index, entries := b.entries, default := b.default }, a)

end IndexedBuilder

structure NodeMetaBuilder where
  visibility : Option Visibility := none
  description : Option Text := none
  tooltip : Option Text := none
  displayName : Option Text := none
  representation : Option Representation := none
  imposedAccess : Option AccessMode := none
  streamable : Bool := false
  cachable : Option CachingMode := none
  pollingTimeMs : Option Nat := none
  ignored : List Tag := []
deriving DecidableEq, Repr

/-- One that is not a number is a hint lost. -/
def parsePollingTime (text : Text) : Option Nat :=
  match parseU64 text with
  | .ok ms => some ms
  | .error _ => none

/-- The tags `NodeMetaBuilder.handleStart` reads. -/
def isMetaTag : Tag → Bool
  | .visibility | .description | .tooltip | .displayName | .representation
  | .imposedAccessMode | .streamable | .cachable | .cacheable | .pollingTime => true
  | _ => false

namespace NodeMetaBuilder

/-- The builder after an element, if it is a metadata element. -/
def handleStart (b : NodeMetaBuilder) (e : Element) (text : Text) : Option NodeMetaBuilder :=
  match e.tag with
  | .visibility => some { b with visibility := Visibility.parse text }
  | .description => some { b with description := reference text b.description }
  | .tooltip => some { b with tooltip := reference text b.tooltip }
  | .displayName => some { b with displayName := reference text b.displayName }
  | .representation => some { b with representation := Representation.parse text }
  | .imposedAccessMode => some { b with imposedAccess := some (AccessMode.parse text) }
  | .streamable => some { b with streamable := trim text = lit "Yes" }
  | .cachable | .cacheable => some { b with cachable := some (CachingMode.parse text) }
  | .pollingTime => some { b with pollingTimeMs := parsePollingTime text }
  | _ => none

def ignore (b : NodeMetaBuilder) (e : Element) : NodeMetaBuilder :=
  { b with ignored := b.ignored ++ [e.tag] }

def handleOrIgnore (b : NodeMetaBuilder) (e : Element) (text : Text) : NodeMetaBuilder :=
  (b.handleStart e text).getD (b.ignore e)

/-- An empty metadata element means its default and is not recorded. -/
def ignoreEmpty (b : NodeMetaBuilder) (e : Element) : NodeMetaBuilder :=
  if isMetaTag e.tag then b else b.ignore e

/-- Fill what this builder lacks from `outer`. -/
def inherit (b outer : NodeMetaBuilder) : NodeMetaBuilder where
  visibility := b.visibility.or outer.visibility
  description := b.description.or outer.description
  tooltip := b.tooltip.or outer.tooltip
  displayName := b.displayName.or outer.displayName
  representation := b.representation.or outer.representation
  imposedAccess := b.imposedAccess.or outer.imposedAccess
  streamable := b.streamable || outer.streamable
  cachable := b.cachable.or outer.cachable
  pollingTimeMs := b.pollingTimeMs.or outer.pollingTimeMs
  ignored := b.ignored ++ outer.ignored

def build (b : NodeMetaBuilder) : NodeMeta where
  visibility := b.visibility.getD .beginner
  description := b.description
  tooltip := b.tooltip
  displayName := b.displayName
  representation := b.representation
  imposedAccess := b.imposedAccess
  streamable := b.streamable
  cachable := b.cachable
  pollingTimeMs := b.pollingTimeMs
  ignored := b.ignored

end NodeMetaBuilder

end VivaGenicam.GenapiXml
