import VivaGenicam.Genapi.LoadConfiguration
import VivaGenicam.Library.Attempts

/-!
Event notification set up on a camera and undone again. Both go through selectors, so
which register a feature stands for depends on what was written before; a setup keeps what
it read before it changed anything, under the selector it was read under.
-/

namespace VivaGenicam.Camera

open GenapiXml Genapi Library.Attempts Library.Bytes

/-- The features of an event setup, under each name they go by. -/
inductive EventFeature where
  | eventSelector
  | eventNotification
  | gevMessageChannelSelector
  | messageChannelSelector
  | gevMessageChannelIPAddress
  | messageChannelIPAddress
  | gevMessageChannelPort
  | messageChannelPort
  | gevMessageChannelEnable
  | messageChannelEnable
deriving DecidableEq, Repr

namespace EventFeature

def name : EventFeature → Text
  | eventSelector => lit "EventSelector"
  | eventNotification => lit "EventNotification"
  | gevMessageChannelSelector => lit "GevMessageChannelSelector"
  | messageChannelSelector => lit "MessageChannelSelector"
  | gevMessageChannelIPAddress => lit "GevMessageChannelIPAddress"
  | messageChannelIPAddress => lit "MessageChannelIPAddress"
  | gevMessageChannelPort => lit "GevMessageChannelPort"
  | messageChannelPort => lit "MessageChannelPort"
  | gevMessageChannelEnable => lit "GevMessageChannelEnable"
  | messageChannelEnable => lit "MessageChannelEnable"

end EventFeature

def eventNotifOn : Text := ['O', 'n']

def msgSel : List EventFeature := [.gevMessageChannelSelector, .messageChannelSelector]

def msgIp : List EventFeature := [.gevMessageChannelIPAddress, .messageChannelIPAddress]

def msgPort : List EventFeature := [.gevMessageChannelPort, .messageChannelPort]

def msgEn : List EventFeature := [.gevMessageChannelEnable, .messageChannelEnable]

def messageDestinationPort : Nat := 0xB00

def messageDestinationAddress : Nat := 0xB10

/-- An enumeration's entries with their values. The parser trims names; an entry is known
by its name. -/
structure EntryTable where
  entries : List (Text × Int64)
  names_nodup : (entries.map Prod.fst).Nodup
  names_trimmed : ∀ entry ∈ entries, trim entry.1 = entry.1

def EntryTable.names (table : EntryTable) : List Text := table.entries.map Prod.fst

def EntryTable.value (table : EntryTable) (name : Text) : Option Int64 :=
  (table.entries.find? fun entry => entry.1 = name).map Prod.snd

/-- The entry of a value: the first that has it. -/
def EntryTable.entry (table : EntryTable) (raw : Int64) : Option Text :=
  (table.entries.find? fun entry => entry.2 = raw).map Prod.fst

/-- How a feature is read and set; `other` stands for the kinds a setup only reads and
restores. -/
inductive EventKind where
  | enumeration (table : EntryTable)
  | integer
  | boolean (onValue offValue : Int64)
  | other (kind : String) (shown : List UInt8 → Except GenApiError Text)
      (parsed : Text → Except GenApiError (List UInt8))

def EventKind.kindName : EventKind → String
  | enumeration _ => "Enumeration"
  | integer => "Integer"
  | boolean _ _ => "Boolean"
  | other kind _ _ => kind

/-- A feature over a register. `accepts` is its limits and its increment; a set is followed
by the features that depend on it. -/
structure EventNode where
  kind : EventKind
  length : Nat
  sign : Sign
  byteOrder : ByteOrder
  accepts : Int64 → Bool
  caching : CachingMode
  dependents : List EventFeature

namespace EventNode

variable (node : EventNode) (name : Text)

def load (bytes : List UInt8) : Except GenApiError Int64 :=
  bytesToI64 name bytes node.sign node.byteOrder

def store (value : Int64) : Except GenApiError (List UInt8) :=
  if node.accepts value then i64ToBytes name value node.length node.sign node.byteOrder
  else .error (.range name (.int value) .unrepresentable)

/-- A register's content as the feature's text. -/
def shown (bytes : List UInt8) : Except GenApiError Text :=
  match node.kind with
  | .enumeration table => do
    let raw ← node.load name bytes
    match table.entry raw with
    | some entry => .ok entry
    | none => .error (.enumValueUnknown name raw)
  | .integer => (node.load name bytes).map decimalText
  | .boolean onValue _ => (node.load name bytes).map fun raw => boolText (raw = onValue)
  | .other _ shown _ => shown bytes

/-- What `set_enum` writes. -/
def encodeEnum (entry : Text) : Except GenApiError (List UInt8) :=
  match node.kind with
  | .enumeration table =>
    match table.value entry with
    | some value => node.store name value
    | none => .error (.enumNoSuchEntry name entry)
  | other => .error (.type name other.kindName "an Enumeration")

/-- What `set_integer` writes. -/
def encodeInteger (value : Int64) : Except GenApiError (List UInt8) :=
  match node.kind with
  | .integer => node.store name value
  | other => .error (.type name other.kindName "an Integer")

/-- What `set_bool` writes. -/
def encodeBool (value : Bool) : Except GenApiError (List UInt8) :=
  match node.kind with
  | .boolean onValue offValue => node.store name (if value then onValue else offValue)
  | other => .error (.type name other.kindName "a Boolean")

/-- What `set_text` writes; the text of an integer whose negation overflows is not one
that a feature shows. -/
def encode (text : Text) : Except GenApiError (List UInt8) :=
  match node.kind with
  | .enumeration _ => node.encodeEnum name (trim text)
  | .integer =>
    match Genapi.parseInteger text with
    | some (some value) => node.encodeInteger name (.ofInt value)
    | _ => .error (.invalidText name "an integer" text)
  | .boolean _ _ =>
    match parseBool text with
    | some value => node.encodeBool name value
    | none => .error (.invalidText name "a boolean" text)
  | .other _ _ parsed => parsed text

def enumEntries : Except GenApiError (List Text) :=
  match node.kind with
  | .enumeration table => .ok table.names
  | other => .error (.type name other.kindName "an Enumeration")

end EventNode

structure EventCamera where
  node : EventFeature → Option EventNode
  identity : Nat

/-- The registers of the device: one for a feature, or one for each value of its selector,
and those of the bootstrap. -/
inductive EventRegister where
  | plain (feature : EventFeature)
  | selected (feature : EventFeature) (entry : Option Int64)
  | bootstrap (address : Nat)
deriving DecidableEq

abbrev EventMemory := EventRegister → List UInt8

namespace EventCamera

variable (camera : EventCamera)

def findAlias (names : List EventFeature) : Option EventFeature :=
  names.find? fun feature => (camera.node feature).isSome

def channelSelector : Option EventFeature := camera.findAlias msgSel

def selection (memory : EventMemory) (selector : EventFeature) : Option Int64 :=
  (camera.node selector).bind fun node =>
    (node.load selector.name (memory (.plain selector))).toOption

def locate (memory : EventMemory) : EventFeature → EventRegister
  | .eventSelector => .plain .eventSelector
  | .gevMessageChannelSelector => .plain .gevMessageChannelSelector
  | .messageChannelSelector => .plain .messageChannelSelector
  | .eventNotification => .selected .eventNotification (camera.selection memory .eventSelector)
  | feature =>
    match camera.channelSelector with
    | some selector => .selected feature (camera.selection memory selector)
    | none => .plain feature

end EventCamera

inductive ControlState where
  | held
  | monitor
  | lost
  | released
deriving DecidableEq, Repr

inductive EventError where
  | genApi (error : GenApiError)
  | noEventSelection (events : List Text)
  | notInControl (state : ControlState)

/-- The registers, what the node map keeps of them, and the accesses so far; `writes` are
those sent, whether they failed or not. -/
structure EventSession where
  memory : EventMemory
  cache : EventFeature → Option (List UInt8)
  accesses : Nat
  writes : List (EventRegister × List UInt8)

/-- What happens outside the program: which accesses fail (and whether a write that fails
reaches the register), who has control, and which polled values may still be served, each
by the number of accesses so far. -/
structure EventLine where
  failure : Nat → Option Bool
  control : Nat → ControlState
  fresh : EventFeature → Nat → Bool

abbrev EventStep (α : Type) := Attempt EventSession EventError α

namespace EventSession

def read (line : EventLine) (register : EventRegister) : EventStep (List UInt8) := fun s =>
  match line.failure s.accesses with
  | some _ => (.error (.genApi (.io "read")), { s with accesses := s.accesses + 1 })
  | none => (.ok (s.memory register), { s with accesses := s.accesses + 1 })

def sent (s : EventSession) (register : EventRegister) (data : List UInt8) : EventSession :=
  { s with accesses := s.accesses + 1, writes := s.writes ++ [(register, data)] }

def stored (s : EventSession) (register : EventRegister) (data : List UInt8) : EventSession :=
  { s with memory := Function.update s.memory register data }

def write (line : EventLine) (register : EventRegister) (data : List UInt8) : EventStep Unit :=
  fun s =>
    match line.failure s.accesses with
    | some true => (.error (.genApi (.io "write")), (s.sent register data).stored register data)
    | some false => (.error (.genApi (.io "write")), s.sent register data)
    | none => (.ok (), (s.sent register data).stored register data)

def keep (s : EventSession) (feature : EventFeature) (bytes : Option (List UInt8)) : EventSession :=
  { s with cache := Function.update s.cache feature bytes }

def invalidateAll (s : EventSession) : EventSession := { s with cache := fun _ => none }

def invalidateDependents (s : EventSession) (node : EventNode) : EventSession :=
  { s with cache := fun feature => if feature ∈ node.dependents then none else s.cache feature }

end EventSession

def genApi {α : Type} (r : Except GenApiError α) : EventStep α := .ofExcept (r.mapError .genApi)

namespace EventCamera

variable (camera : EventCamera) (line : EventLine)

def findNode (feature : EventFeature) : EventStep EventNode :=
  genApi ((camera.node feature).elim (.error (.nodeNotFound feature.name)) .ok)

/-- What a read may be answered with without asking the device. -/
def served (node : EventNode) (feature : EventFeature) (s : EventSession) : Option (List UInt8) :=
  if node.caching ≠ .noCache ∧ line.fresh feature s.accesses then s.cache feature else none

def get (feature : EventFeature) : EventStep Text := do
  let node ← camera.findNode feature
  let s ← Attempt.get
  match served line node feature s with
  | some bytes => genApi (node.shown feature.name bytes)
  | none => do
    let bytes ← EventSession.read line (camera.locate s.memory feature)
    let text ← genApi (node.shown feature.name bytes)
    Attempt.modify fun s => s.keep feature (if node.caching = .noCache then none else some bytes)
    pure text

/-- Writes a feature's register, and keeps what was written where that is cached. -/
def put (feature : EventFeature) (encode : EventNode → Except GenApiError (List UInt8)) :
    EventStep Unit := do
  let node ← camera.findNode feature
  let bytes ← genApi (encode node)
  let s ← Attempt.get
  EventSession.write line (camera.locate s.memory feature) bytes
  Attempt.modify fun s =>
    (s.keep feature (if node.caching = .writeThrough then some bytes else none)).invalidateDependents
      node

def setEnum (feature : EventFeature) (entry : Text) : EventStep Unit :=
  camera.put line feature fun node => node.encodeEnum feature.name entry

def setInteger (feature : EventFeature) (value : Int64) : EventStep Unit :=
  camera.put line feature fun node => node.encodeInteger feature.name value

def setBool (feature : EventFeature) (value : Bool) : EventStep Unit :=
  camera.put line feature fun node => node.encodeBool feature.name value

def set (feature : EventFeature) (text : Text) : EventStep Unit :=
  camera.put line feature fun node => node.encode feature.name text

def enumEntries (feature : EventFeature) : EventStep (List Text) := do
  let node ← camera.findNode feature
  genApi (node.enumEntries feature.name)

/-- The entries that `feature_state` reports; it reads the value as well. -/
def stateEntries (feature : EventFeature) : EventStep (List Text) := do
  let node ← camera.findNode feature
  let _ ← camera.get line feature
  pure ((node.enumEntries feature.name).toOption.getD [])

def setIfChanged (feature : EventFeature) (value : Text) : EventStep Unit := do
  Attempt.modify EventSession.invalidateAll
  let current ← camera.get line feature
  if current = value then pure () else camera.set line feature value

end EventCamera

/-- The channel's registers before the setup; the selector with its entry before, and the
entry the setup configures. -/
structure EventChannel where
  raw : List (Nat × List UInt8)
  selector : Option (EventFeature × Text × Text)
  features : List (EventFeature × Text)

structure EventConfiguration where
  identity : Nat
  eventSelector : Option Text
  notifications : List (Text × Text)
  channel : Option EventChannel

inductive EventRestoreSkipped where
  | differentCamera
  | notInControl (state : ControlState)
deriving DecidableEq, Repr

structure EventRestoreReport where
  failures : List (Text × EventError)
  skipped : Option EventRestoreSkipped

namespace EventRestoreReport

def empty : EventRestoreReport := ⟨[], none⟩

def isComplete (report : EventRestoreReport) : Bool :=
  report.failures.isEmpty && report.skipped.isNone

end EventRestoreReport

structure EventSetupError where
  source : EventError
  restoration : EventRestoreReport

def EventLine.skipped (line : EventLine) (s : EventSession) : Option EventRestoreSkipped :=
  match line.control s.accesses with
  | .held => none
  | state => some (.notInControl state)

structure Restoration where
  report : EventRestoreReport
  session : EventSession

def restoreStep (line : EventLine) (setting : Text) (restore : EventStep Unit) (r : Restoration) :
    Bool × Restoration :=
  match line.skipped r.session with
  | some reason => (false, { r with report := { r.report with skipped := some reason } })
  | none =>
    match restore r.session with
    | (.ok (), s) => (true, { r with session := s })
    | (.error error, s) =>
      (false, ⟨{ r.report with failures := r.report.failures ++ [(setting, error)] }, s⟩)

namespace EventCamera

variable (camera : EventCamera) (line : EventLine)

def notificationSetting (selector : Text) : Text :=
  EventFeature.eventNotification.name ++ '[' :: selector ++ [']']

/-- A notification is restored only once its selector is set. -/
def restoreNotifications : List (Text × Text) → Restoration → Restoration
  | [], r => r
  | (selector, previous) :: rest, r =>
    let selected := restoreStep line EventFeature.eventSelector.name
      (camera.setIfChanged line .eventSelector selector) r
    if selected.1 then
      restoreNotifications rest (restoreStep line (notificationSetting selector)
        (camera.setIfChanged line .eventNotification previous) selected.2).2
    else if selected.2.report.skipped.isSome then selected.2
    else restoreNotifications rest selected.2

def restoreFeatures (features : List (EventFeature × Text)) (r : Restoration) : Restoration :=
  features.foldr (fun saved r =>
    (restoreStep line saved.1.name (camera.setIfChanged line saved.1 saved.2) r).2) r

/-- A bootstrap register as a setting's name. -/
def rawSetting (address : Nat) : Text := '0' :: 'x' :: (Nat.toDigits 16 address).leftpad 8 '0'

/-- A register is written only where it no longer holds what it held. -/
def restoreRegister (address : Nat) (previous : List UInt8) : EventStep Unit := do
  let current ← EventSession.read line (.bootstrap address)
  if current = previous then pure () else EventSession.write line (.bootstrap address) previous

def restoreRaw (raw : List (Nat × List UInt8)) (r : Restoration) : Restoration :=
  raw.foldr (fun saved r =>
    (restoreStep line (rawSetting saved.1) (restoreRegister line saved.1 saved.2) r).2) r

def restoreSelector (previous : Option (EventFeature × Text)) (r : Restoration) :
    Bool × Restoration :=
  match previous with
  | some (name, value) => restoreStep line name.name (camera.setIfChanged line name value) r
  | none => (true, r)

/-- The features of the channel are restored only once it is selected. -/
def restoreChannel (channel : EventChannel) (r : Restoration) : Restoration :=
  let selected := camera.restoreSelector line
    (channel.selector.map fun selector => (selector.1, selector.2.2)) r
  let restored := if selected.1 then camera.restoreFeatures line channel.features selected.2
    else selected.2
  (camera.restoreSelector line (channel.selector.map fun selector => (selector.1, selector.2.1))
    (restoreRaw line channel.raw restored)).2

def restoreSaved (saved : EventConfiguration) (r : Restoration) : Restoration :=
  let notified := camera.restoreNotifications line saved.notifications r
  let selected := (camera.restoreSelector line
    (saved.eventSelector.map fun previous => (.eventSelector, previous)) notified).2
  match saved.channel with
  | some channel => camera.restoreChannel line channel selected
  | none => selected

def restoreEvents (saved : EventConfiguration) (s : EventSession) : Restoration :=
  if saved.identity ≠ camera.identity then ⟨⟨[], some .differentCamera⟩, s⟩
  else
    match line.skipped s with
    | some reason => ⟨⟨[], some reason⟩, s⟩
    | none => camera.restoreSaved line saved ⟨.empty, s⟩

end EventCamera

/-- A setup under way, with what it has saved so far. -/
abbrev SetupStep (α : Type) := Attempt (EventSession × EventConfiguration) EventError α

def saving (change : EventConfiguration → EventConfiguration) : SetupStep Unit :=
  Attempt.modify fun s => (s.1, change s.2)

namespace EventCamera

variable (camera : EventCamera) (line : EventLine)

def snapshotEach : List Text → SetupStep Unit
  | [] => pure ()
  | selector :: rest => do
    let s ← Attempt.get
    if s.2.notifications.any fun saved => saved.1 = selector then snapshotEach rest
    else do
      (camera.setIfChanged line .eventSelector selector).first
      let entries ← (camera.stateEntries line .eventNotification).first
      if eventNotifOn ∈ entries then do
        let previous ← (camera.get line .eventNotification).first
        saving fun saved =>
          { saved with notifications := saved.notifications ++ [(selector, previous)] }
        snapshotEach rest
      else
        .fail (.genApi (.enumNoSuchEntry EventFeature.eventNotification.name eventNotifOn))

def snapshotNotifications (selectors : List Text) : SetupStep Unit := do
  let entries ← (camera.stateEntries line .eventSelector).first
  match selectors.find? fun selector => selector ∉ entries with
  | some selector =>
    .fail (.genApi (.enumNoSuchEntry EventFeature.eventSelector.name selector))
  | none => do
    let previous ← (camera.get line .eventSelector).first
    saving fun saved => { saved with eventSelector := some previous }
    camera.snapshotEach line selectors
    (camera.setIfChanged line .eventSelector previous).first

def savingChannel (change : EventChannel → EventChannel) : SetupStep Unit :=
  saving fun saved => { saved with channel := saved.channel.map change }

def snapshotRaw : List Nat → SetupStep Unit
  | [] => pure ()
  | address :: rest => do
    let bytes ← (EventSession.read line (.bootstrap address)).first
    savingChannel fun channel => { channel with raw := channel.raw ++ [(address, bytes)] }
    snapshotRaw rest

def snapshotFeatures : List (List EventFeature) → SetupStep Unit
  | [] => pure ()
  | aliases :: rest =>
    match camera.findAlias aliases with
    | some name => do
      let value ← (camera.get line name).first
      savingChannel fun channel => { channel with features := channel.features ++ [(name, value)] }
      snapshotFeatures rest
    | none => snapshotFeatures rest

/-- The first entry is the channel that is configured. -/
def snapshotSelector : SetupStep (Option (EventFeature × Text)) :=
  match camera.channelSelector with
  | some name => do
    let original ← (camera.get line name).first
    let entries ← (camera.enumEntries name).first
    match entries with
    | [] => .fail (.genApi (.enumNoSuchEntry name.name (lit "a message channel")))
    | target :: _ => do
      savingChannel fun channel => { channel with selector := some (name, original, target) }
      (camera.setIfChanged line name target).first
      pure (some (name, original))
  | none => pure none

def snapshotChannel : SetupStep Unit := do
  saving fun saved => { saved with channel := some ⟨[], none, []⟩ }
  snapshotRaw line [messageDestinationAddress, messageDestinationPort]
  let selected ← camera.snapshotSelector line
  camera.snapshotFeatures line [msgIp, msgPort, msgEn]
  match selected with
  | some (name, previous) => (camera.setIfChanged line name previous).first
  | none => pure ()

def firstEntry (selector : EventFeature) : Option Text :=
  (camera.node selector).bind fun node => (node.enumEntries selector.name).toOption.bind List.head?

/-- The channel's selector is set to its first entry; a failure is noted only. -/
def selectChannel : EventStep Bool :=
  match camera.channelSelector with
  | some selector =>
    match camera.firstEntry selector with
    | some entry => (camera.setEnum line selector entry).succeeds
    | none => pure false
  | none => pure false

/-- A feature of the channel is set, where there is one. -/
def setChannelFeature (aliases : List EventFeature) (put : EventFeature → EventStep Unit) :
    EventStep Bool :=
  match camera.findAlias aliases with
  | some feature => (put feature).succeeds
  | none => pure false

def configureChannel (ip : UInt32) (port : UInt16) : EventStep Bool := do
  let selected ← camera.selectChannel line
  let addressed ← camera.setChannelFeature msgIp
    fun feature => camera.setInteger line feature (.ofNat ip.toNat)
  let ported ← camera.setChannelFeature msgPort
    fun feature => camera.setInteger line feature (.ofNat port.toNat)
  let enabled ← camera.setChannelFeature msgEn fun feature => camera.setBool line feature true
  pure (selected && addressed && ported && enabled)

/-- `configure_message_channel_raw`. -/
def configureMessageChannelRaw (ip : UInt32) (port : UInt16) : EventStep Unit := do
  EventSession.write line (.bootstrap messageDestinationAddress) (encodeBE 4 ip.toNat)
  EventSession.write line (.bootstrap messageDestinationPort) (encodeBE 4 port.toNat)

def enableEach : List Text → EventStep Unit
  | [] => pure ()
  | name :: rest => do
    camera.setEnum line .eventSelector name
    camera.setEnum line .eventNotification eventNotifOn
    enableEach rest

def enableEvents (enableIds : List Text) : EventStep Unit :=
  if ((camera.node .eventSelector).isNone ∨ (camera.node .eventNotification).isNone) ∧
      enableIds ≠ [] then
    .fail (.noEventSelection enableIds)
  else camera.enableEach line enableIds

def configureEvents (ip : UInt32) (port : UInt16) (enableIds : List Text) : EventStep Unit := do
  let channelConfigured ← camera.configureChannel line ip port
  if channelConfigured then pure () else configureMessageChannelRaw line ip port
  camera.enableEvents line enableIds

def restoreSelectors (saved : EventConfiguration) : EventStep Unit := do
  match saved.eventSelector with
  | some selector => camera.setIfChanged line .eventSelector selector
  | none => pure ()
  match saved.channel.bind EventChannel.selector with
  | some (name, previous, _) => camera.setIfChanged line name previous
  | none => pure ()

/-- The snapshots, before anything is configured. -/
def prepare (selectors : List Text) : SetupStep Unit := do
  camera.snapshotNotifications line selectors
  camera.snapshotChannel line

def nothingSaved : EventConfiguration := ⟨camera.identity, none, [], none⟩

def setUp (ip : UInt32) (port : UInt16) (selectors : List Text) : SetupStep Unit := do
  camera.prepare line selectors
  (camera.configureEvents line ip port selectors).first
  let s ← Attempt.get
  (camera.restoreSelectors line s.2).first

/-- A setup that fails restores what it saved. -/
def configureEventsRestorable (ip : UInt32) (port : UInt16) (selectors : List Text)
    (s : EventSession) : Except EventSetupError EventConfiguration × EventSession :=
  match line.control s.accesses with
  | .held =>
    match camera.setUp line ip port selectors (s, camera.nothingSaved) with
    | (.ok (), s', saved) => (.ok saved, s')
    | (.error source, s', saved) =>
      let restored := camera.restoreEvents line saved s'
      (.error ⟨source, restored.report⟩, restored.session)
  | state => (.error ⟨.notInControl state, .empty⟩, s)

end EventCamera

end VivaGenicam.Camera
