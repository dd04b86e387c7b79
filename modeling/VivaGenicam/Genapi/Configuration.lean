import VivaGenicam.GenapiXml.Text
import VivaGenicam.Library.FoldM
import VivaGenicam.Library.Lines

/-!
A saved configuration as a file: the text written for it, and what is read
from a text.
-/

namespace VivaGenicam.Genapi

open GenapiXml Library.Lines

structure DocumentIdentity where
  vendorName : Text
  modelName : Text
  version : Text
deriving DecidableEq, Repr

structure SavedValue where
  feature : Text
  selectors : List (Text × Text)
  value : Text
deriving DecidableEq, Repr

structure Omission where
  feature : Text
  selectors : List (Text × Text)
  reason : Text
deriving DecidableEq, Repr

structure Configuration where
  identity : DocumentIdentity
  values : List SavedValue
  omitted : List Omission
deriving DecidableEq, Repr

structure ParseConfigurationError where
  line : Nat
  message : String
deriving DecidableEq, Repr

def Configuration.default : Configuration := ⟨⟨[], [], []⟩, [], []⟩

def fileMagic : Text := lit "\x7b05D8C294-F295-4dfb-9D01-096BD04049F4\x7d"

def baggerMagic : Text := lit "\x7b4709CB3C-7322-4460-84C3-DA11DDA09939\x7d"

def keyVendor : Text := lit "VendorName"

def keyModel : Text := lit "ModelName"

def keyVersion : Text := lit "DeviceXmlVersion"

def selectorPair (pair : Text × Text) : Text := pair.1 ++ '=' :: pair.2

def writeSelectors (selectors : List (Text × Text)) : Text :=
  if selectors = [] then []
  else '[' :: [',', ' '].intercalate (selectors.map selectorPair) ++ [']']

def identityComment (key value : Text) : Text := lit "# " ++ key ++ lit " = " ++ value

def omissionComment (omission : Omission) : Text :=
  lit "# not saved: " ++ omission.feature ++ writeSelectors omission.selectors ++ lit ": " ++
    omission.reason

def comments (configuration : Configuration) : List Text :=
  [lit "# " ++ fileMagic, lit "# viva-genicam configuration",
    identityComment keyVendor configuration.identity.vendorName,
    identityComment keyModel configuration.identity.modelName,
    identityComment keyVersion configuration.identity.version] ++
  configuration.omitted.map omissionComment

def selectorGroup (selectors : List (Text × Text)) : Text :=
  if selectors = [] then []
  else '{' :: ['\t'].intercalate (selectors.map selectorPair) ++ ['}', '\t']

def valueLine (value : SavedValue) : Text :=
  value.feature ++ '\t' :: (selectorGroup value.selectors ++ value.value)

def toText (configuration : Configuration) : Text :=
  (comments configuration ++ configuration.values.map valueLine).flatMap (· ++ ['\n'])

def stripPrefix (c : Char) : Text → Option Text
  | [] => none
  | d :: rest => if d = c then some rest else none

def assignment (comment : Text) : Option (Text × Text) :=
  (splitOnce '=' comment).map fun parts => (trim parts.1, trim parts.2)

def DocumentIdentity.set (identity : DocumentIdentity) (key value : Text) : DocumentIdentity :=
  if key = keyVendor then { identity with vendorName := value }
  else if key = keyModel then { identity with modelName := value }
  else if key = keyVersion then { identity with version := value }
  else identity

def readComment (identity : DocumentIdentity) (comment : Text) :
    Except String DocumentIdentity :=
  if baggerMagic <:+: comment then
    .error "written by GenApi's CFeatureBagger, a format this reader does not read"
  else
    match assignment comment with
    | some (key, value) => .ok (identity.set key value)
    | none => .ok identity

def readPair (pair : Text) : Except String (Text × Text) :=
  match splitOnce '=' pair with
  | some (selector, entry) =>
    if trim selector ≠ [] ∧ trim entry ≠ [] then .ok (trim selector, trim entry)
    else .error "expected Selector=Entry in the group"
  | none => .error "expected Selector=Entry in the group"

/-- The selector group, if there is one, and the value after it. -/
def readSelectors (rest : Text) : Except String (List (Text × Text) × Text) :=
  match stripPrefix '{' rest with
  | some group =>
    match splitOnce '}' group with
    | none => .error "a selector group without its closing brace"
    | some (inner, after) =>
      match stripPrefix '\t' after with
      | none => .error "expected a tab after the selector group"
      | some value => do
        let selectors ← (inner.splitOn '\t').mapM readPair
        pure (selectors, value)
  | none => .ok ([], rest)

def readValue (text : Text) : Except String SavedValue :=
  match splitOnce '\t' text with
  | none => .error "expected a feature name, a tab and a value"
  | some (name, rest) =>
    if trim name = [] then .error "no feature name before the tab"
    else do
      let (selectors, value) ← readSelectors rest
      if value = [] then throw "no value after the tab"
      pure ⟨trim name, selectors, value⟩

def readLine (configuration : Configuration) (text : Text) : Except String Configuration :=
  if trim text = [] then .ok configuration
  else
    match stripPrefix '#' text with
    | some comment => do
      let identity ← readComment configuration.identity (trim comment)
      pure { configuration with identity := identity }
    | none => do
      let value ← readValue text
      pure { configuration with values := configuration.values ++ [value] }

def readLines (index : Nat) (configuration : Configuration) :
    List Text → Except ParseConfigurationError Configuration
  | [] => .ok configuration
  | text :: rest =>
    match readLine configuration text with
    | .ok configuration => readLines (index + 1) configuration rest
    | .error message => .error ⟨index + 1, message⟩

def parse (text : Text) : Except ParseConfigurationError Configuration :=
  readLines 0 .default (lines '\n' '\r' text)

end VivaGenicam.Genapi
