import Mathlib.Data.List.AList
import Mathlib.Tactic

/-!
The viewer's cache of live feature state. Controls follow features; the store
reads from the camera what is followed, in one bulk read for all the requests
of a tick, and reads again what the camera changes by itself. Names, listeners
and what a state says beyond its refresh are left open.
-/

namespace VivaGenicam.Studio

/-- What the store looks at of a feature's state; `value` is the rest of it. -/
structure FeatureState (V : Type) where
  value : V
  pollingMs : Option Nat
  caching : Option String
deriving DecidableEq, Repr

def noCacheRefreshMs : Nat := 1000

def minRefreshMs : Nat := 50

/-- How often to read a feature again while it is shown. -/
def refreshInterval {V : Type} (state : FeatureState V) : Option Nat :=
  match state.pollingMs with
  | some (polling + 1) => some (max minRefreshMs (polling + 1))
  | _ => if state.caching = some "NoCache" then some noCacheRefreshMs else none

abbrev Listener := Nat

structure FeatureStore (Name V : Type) where
  states : Name → Option (FeatureState V) := fun _ => none
  listeners : AList fun _ : Name => List Listener := ∅
  queued : List Name := []
  versions : Name → Nat := fun _ => 0
  flushScheduled : Bool := false
  due : AList fun _ : Name => Nat := ∅
  pollTimer : Option Nat := none
  generation : Nat := 0
  enabled : Bool := false

/-- What a read took along when it was sent: for a bulk read of the queue, the
version of each of its features. -/
structure Sent (Name : Type) where
  names : List Name
  generation : Nat
  tickets : Option (Name → Option Nat)

namespace FeatureStore

variable {Name V : Type} [DecidableEq Name]

def isWatched (s : FeatureStore Name V) (name : Name) : Bool :=
  (s.listeners.lookup name).isSome

def armPollTimer (now : Nat) (s : FeatureStore Name V) : FeatureStore Name V :=
  { s with
    pollTimer := if s.enabled then (s.due.entries.map (·.2)).min?.map (max now) else none }

/-- The names not queued yet, after those that are. -/
def enqueue (queued names : List Name) : List Name :=
  names.foldl (fun queued name => if name ∈ queued then queued else queued ++ [name]) queued

def request (names : List Name) (s : FeatureStore Name V) : FeatureStore Name V :=
  if s.enabled = false ∨ names = [] then s
  else { s with queued := enqueue s.queued names, flushScheduled := true }

def listenersOf (s : FeatureStore Name V) (name : Name) : List Listener :=
  (s.listeners.lookup name).getD []

def subscribe (name : Name) (listener : Listener) (s : FeatureStore Name V) :
    FeatureStore Name V :=
  let first := s.listenersOf name = []
  let followed := { s with
    listeners := s.listeners.insert name (s.listenersOf name ++ [listener]) }
  match s.states name with
  | none => followed.request [name]
  | some cached =>
    if first ∧ (refreshInterval cached).isSome then followed.request [name] else followed

/-- Stop polling a feature, if it is polled. -/
def undue (now : Nat) (name : Name) (s : FeatureStore Name V) : FeatureStore Name V :=
  if (s.due.lookup name).isSome then armPollTimer now { s with due := s.due.erase name } else s

/-- What `subscribe` returns, called for a listener that still follows. -/
def unsubscribe (now : Nat) (name : Name) (listener : Listener) (s : FeatureStore Name V) :
    FeatureStore Name V :=
  let set := (s.listenersOf name).erase listener
  if set = [] then undue now name { s with listeners := s.listeners.erase name }
  else { s with listeners := s.listeners.insert name set }

/-- Forget everything: the device went away or another one connected. -/
def clear (now : Nat) (s : FeatureStore Name V) : FeatureStore Name V :=
  { armPollTimer now { s with generation := s.generation + 1, queued := [], due := ∅ } with
    states := fun _ => none }

def refresh (s : FeatureStore Name V) : FeatureStore Name V := s.request s.listeners.keys

def setEnabled (now : Nat) (enabled : Bool) (s : FeatureStore Name V) : FeatureStore Name V :=
  if enabled = s.enabled then s
  else
    let restarted := clear now { s with enabled }
    if enabled then restarted.refresh else restarted

def bump (name : Name) (s : FeatureStore Name V) : FeatureStore Name V :=
  { s with versions := Function.update s.versions name (s.versions name + 1) }

/-- Poll a feature at its refresh interval while it is on screen. -/
def schedule (now : Nat) (name : Name) (state : FeatureState V) (s : FeatureStore Name V) :
    FeatureStore Name V :=
  match refreshInterval state with
  | none => undue now name s
  | some interval =>
    if s.isWatched name then armPollTimer now { s with due := s.due.insert name (now + interval) }
    else undue now name s

def install (now : Nat) (name : Name) (state : FeatureState V) (s : FeatureStore Name V) :
    FeatureStore Name V :=
  schedule now name state { s with states := Function.update s.states name (some state) }

/-- Store a state that arrived some other way: a write's reply, an event. -/
def set (now : Nat) (name : Name) (state : FeatureState V) (s : FeatureStore Name V) :
    FeatureStore Name V :=
  install now name state (s.bump name)

def setMany (now : Nat) (states : List (Name × FeatureState V)) (s : FeatureStore Name V) :
    FeatureStore Name V :=
  states.foldl (fun s entry => set now entry.1 entry.2 s) s

/-- Features on screen are read again; the rest are forgotten. -/
def invalidate (names : List Name) (s : FeatureStore Name V) : FeatureStore Name V :=
  request (names.filter s.isWatched) { s with
    states := fun name => if name ∈ names ∧ s.isWatched name = false then none
      else s.states name }

/-- What `load` sends, if it sends a read. -/
def load (names : List Name) (s : FeatureStore Name V) : Option (Sent Name) :=
  if s.enabled = false ∨ names = [] then none
  else some { names, generation := s.generation, tickets := none }

/-- The answer to a `load`. -/
def loadAnswered (now : Nat) (sent : Sent Name) (states : List (Name × FeatureState V))
    (s : FeatureStore Name V) : FeatureStore Name V :=
  if sent.generation ≠ s.generation then s else s.setMany now states

/-- The queued requests as one bulk read, if there are any. -/
def flush (s : FeatureStore Name V) : FeatureStore Name V × Option (Sent Name) :=
  let names := s.queued
  let emptied := { s with queued := [], flushScheduled := false }
  if names = [] then (emptied, none)
  else
    let bumped := names.foldl (fun s name => s.bump name) emptied
    (bumped, some {
      names, generation := s.generation
      tickets := some fun name => if name ∈ names then some (bumped.versions name) else none })

/-- The answer to a bulk read: only the newest read of a feature, with nothing
stored since, lands. -/
def flushAnswered (now : Nat) (sent : Sent Name) (tickets : Name → Option Nat)
    (states : List (Name × FeatureState V)) (s : FeatureStore Name V) : FeatureStore Name V :=
  if sent.generation ≠ s.generation then s
  else states.foldl (fun s entry =>
    if tickets entry.1 = some (s.versions entry.1) then install now entry.1 entry.2 s else s) s

def pollDue (now : Nat) (s : FeatureStore Name V) : FeatureStore Name V :=
  let names := (s.due.entries.filter (·.2 ≤ now)).map (·.1)
  let taken := { s with pollTimer := none, due := names.foldl (fun due name => due.erase name) s.due }
  armPollTimer now (taken.request (names.filter s.isWatched))

end FeatureStore

end VivaGenicam.Studio
