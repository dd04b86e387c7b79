import VivaGenicam.Genapi.Conversions
import VivaGenicam.Genapi.NodeMap
import VivaGenicam.Library.Programs

/-!
What changes while a node map is used: the device, the caches, the values the
host holds itself, the data attached to ports and the record of changes; and the
single actions that getters and setters take on it.
-/

namespace VivaGenicam.Genapi

open GenapiXml Library.Programs

/-- The values an enumeration's entries had when they were last read. -/
structure EnumMapping where
  byValue : List (Int64 × Text)
  byName : List (Text × Int64)

/-- The cells in which one node keeps what it read; a generation says when. -/
structure Caches where
  integer : Option Int64 := none
  raw : Option (List UInt8) := none
  float : Option Float := none
  boolean : Option Bool := none
  entry : Option Text := none
  mapping : Option EnumMapping := none
  formula : Option (Value × Nat) := none
  intFormula : Option (Int64 × Nat) := none
  text : Option (Text × Nat) := none
  bytes : Option (List UInt8 × Nat) := none

/-- What was written to a node that has no register, and to the constants of an
indexed node, each under its index. -/
structure Held where
  integer : Option Int64 := none
  float : Option Float := none
  text : Option Text := none
  integerEntries : List (Option Int × Int64) := []
  floatEntries : List (Option Int × Float) := []

/-- A read or a write of the device on behalf of a node. -/
inductive Access where
  | read (node : Text) (address len : Nat)
  | wrote (node : Text) (address : Nat) (data : List UInt8)

def Access.node : Access → Text
  | .read node _ _ => node
  | .wrote node _ _ => node

/-- A transport, with a state of its own. -/
structure RegisterIo (D : Type) where
  read : D → Nat → Nat → Except GenApiError (List UInt8) × D
  write : D → Nat → List UInt8 → Except GenApiError Unit × D

/-- `chunks` has the first chunk of an id first; `ticks` counts the readings of
the clock, and `accesses` those of the device. -/
structure World (D : Type) where
  device : D
  caches : Text → Caches := fun _ => {}
  held : Text → Held := fun _ => {}
  generation : Nat := 0
  changed : Text → Option Nat := fun _ => none
  allChanged : Nat := 0
  since : Text → Option Nat := fun _ => none
  chunks : List (Nat × List UInt8) := []
  events : Nat → Option (List UInt8) := fun _ => none
  ticks : Nat := 0
  accesses : List Access := []

/-- What the calls on a node map do not change: the map, the transport and the
clock, by how often it was read. -/
structure Setting (D : Type) where
  map : NodeMap
  io : RegisterIo D
  clock : Nat → Nat

namespace World

variable {D : Type}

def now (setting : Setting D) (w : World D) : Nat × World D :=
  (setting.clock w.ticks, { w with ticks := w.ticks + 1 })

def setCaches (w : World D) (name : Text) (caches : Caches) : World D :=
  { w with caches := Function.update w.caches name caches }

def setHeld (w : World D) (name : Text) (held : Held) : World D :=
  { w with held := Function.update w.held name held }

def setSince (w : World D) (name : Text) (since : Option Nat) : World D :=
  { w with since := Function.update w.since name since }

def invalidateCache (w : World D) (name : Text) : World D := w.setCaches name {}

def bumpGeneration (w : World D) : World D :=
  { w with generation := (w.generation + 1) % 2 ^ 64 }

def noteChanged (w : World D) (name : Text) : World D :=
  { w with changed := Function.update w.changed name (some w.generation) }

/-- Each node of `names` loses its cache and counts as changed. -/
def invalidateAllOf (w : World D) (names : List Text) : World D :=
  names.foldl (fun w name => (w.invalidateCache name).noteChanged name) w

def invalidateDependents (map : NodeMap) (w : World D) (name : Text) : World D :=
  (w.bumpGeneration.noteChanged name).invalidateAllOf (map.touchedBy name)

/-- Whether a read of `name` may be answered from its own cache now. -/
def mayServe (setting : Setting D) (w : World D) (name : Text) : Bool × World D :=
  if ¬setting.map.mayCache name then (false, w)
  else
    match setting.map.polled.lookup name with
    | none | some (.command, _) => (true, w)
    | some (.selfClearing, _) => ((w.since name).isNone, w)
    | some (.value, period) =>
      match w.since name with
      | none => (false, w)
      | some since => let (now, w) := w.now setting; (now - since < period, w)

/-- A polled value's polling time starts now. -/
def noteRead (setting : Setting D) (w : World D) (name : Text) : World D :=
  match setting.map.polled.lookup name with
  | some (.value, _) => let (now, w) := w.now setting; w.setSince name (some now)
  | _ => w

/-- Polling of an enumeration starts, or stops. -/
def noteEntry (setting : Setting D) (w : World D) (name : Text) (selfClearing : Bool) : World D :=
  match setting.map.polled.lookup name with
  | some (.selfClearing, _) =>
    if selfClearing then let (now, w) := w.now setting; w.setSince name (some now)
    else w.setSince name none
  | _ => w

def noteCommand (setting : Setting D) (w : World D) (name : Text) (running : Bool) : World D :=
  match setting.map.polled.lookup name with
  | some (.command, _) =>
    if running then let (now, w) := w.now setting; w.setSince name (some now)
    else w.setSince name none
  | _ => w

def selfClearingActive (map : NodeMap) (w : World D) (name : Text) : Bool :=
  match map.polled.lookup name with
  | some (.selfClearing, _) => (w.since name).isSome
  | _ => false

def readDevice (setting : Setting D) (w : World D) (name : Text) (address len : Nat) :
    Outcome GenApiError (List UInt8) × World D :=
  let (outcome, device) := setting.io.read w.device address len
  (outcome.mapError .error,
    { w with
      device
      accesses := w.accesses ++ [.read name address len] })

def writeDevice (setting : Setting D) (w : World D) (name : Text) (address : Nat)
    (data : List UInt8) : Outcome GenApiError Unit × World D :=
  let (outcome, device) := setting.io.write w.device address data
  (outcome.mapError .error,
    { w with
      device
      accesses := w.accesses ++ [.wrote name address data] })

/-- The data attached to a chunk or event port; the first chunk of an id counts. -/
def attached (w : World D) : PortKind → Option (List UInt8)
  | .device => none
  | .chunk chunkId => w.chunks.lookup chunkId
  | .event eventId => w.events eventId

end World

/-- The single actions of a getter. -/
inductive Look : Type → Type where
  | caches (name : Text) : Look Caches
  | keep (name : Text) (change : Caches → Caches) : Look Unit
  | invalidateCache (name : Text) : Look Unit
  | held (name : Text) : Look Held
  | mayServe (name : Text) : Look Bool
  | generation : Look Nat
  | noteRead (name : Text) : Look Unit
  | noteEntry (name : Text) (selfClearing : Bool) : Look Unit
  | selfClearingActive (name : Text) : Look Bool
  | attached (kind : PortKind) : Look (Option (List UInt8))
  | read (name : Text) (address len : Nat) : Look (List UInt8)

variable {D : Type}

def look (setting : Setting D) : Handler Look GenApiError (World D)
  | _, .caches name, w => (.ok (w.caches name), w)
  | _, .keep name change, w => (.ok (), w.setCaches name (change (w.caches name)))
  | _, .invalidateCache name, w => (.ok (), w.invalidateCache name)
  | _, .held name, w => (.ok (w.held name), w)
  | _, .mayServe name, w => (.ok (w.mayServe setting name).1, (w.mayServe setting name).2)
  | _, .generation, w => (.ok w.generation, w)
  | _, .noteRead name, w => (.ok (), w.noteRead setting name)
  | _, .noteEntry name selfClearing, w => (.ok (), w.noteEntry setting name selfClearing)
  | _, .selfClearingActive name, w => (.ok (w.selfClearingActive setting.map name), w)
  | _, .attached kind, w => (.ok (w.attached kind), w)
  | _, .read name address len, w => w.readDevice setting name address len

end VivaGenicam.Genapi
