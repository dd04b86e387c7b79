import VivaGenicam.Studio.FeatureView
import VivaGenicam.Library.Transition

/-!
The store, its user and the camera. Reads are answered in any order, or fail;
each is known by the order it was sent in, and each held state by the read it
came from. What superseded a state, and when, is kept beside the store.
-/

namespace VivaGenicam.Studio

open Library.Transition

/-- Where a state came from: it was given to the store, or it answered a read. -/
inductive Origin where
  | given
  | fetch (id : Nat)
deriving DecidableEq, Repr

def FeatureState.tag {V : Type} (origin : Origin) (state : FeatureState V) :
    FeatureState (V × Origin) :=
  { state with value := (state.value, origin) }

/-- A read on its way; reads are numbered as they are sent. -/
structure Read (Name : Type) extends Sent Name where
  id : Nat

/-- The version of a feature that a bulk read took along. -/
def Read.ticket {Name : Type} (read : Read Name) (name : Name) : Option Nat :=
  read.tickets.bind (· name)

inductive Event (Name V : Type) where
  | subscribe (name : Name) (listener : Listener)
  | unsubscribe (name : Name) (listener : Listener)
  | setEnabled (enabled : Bool)
  | set (name : Name) (state : FeatureState V)
  | setMany (states : List (Name × FeatureState V))
  | invalidate (names : List Name)
  | refresh
  | load (names : List Name)
  | clear
  | microtask
  | timer
  | answer (id : Nat) (states : List (Name × FeatureState V))
  | fail (id : Nat)
  | elapse (ms : Nat)

structure World (Name V : Type) where
  store : FeatureStore Name (V × Origin) := {}
  now : Nat := 0
  inFlight : List (Read Name) := []
  sent : Nat := 0
  /-- How many reads had been sent when a feature was last set or invalidated. -/
  superseded : Name → Nat := fun _ => 0
  /-- How many reads had been sent when the store last started over. -/
  restarted : Nat := 0
  /-- The last read sent of a feature, and whether it failed or left it out. -/
  lastRead : Name → Option Nat := fun _ => none
  missed : Name → Bool := fun _ => false

namespace World

variable {Name V : Type} [DecidableEq Name]

def send (w : World Name V) (sent : Sent Name) : World Name V :=
  { w with
    inFlight := w.inFlight ++ [{ sent with id := w.sent }]
    sent := w.sent + 1
    lastRead := fun name => if name ∈ sent.names then some w.sent else w.lastRead name
    missed := fun name => if name ∈ sent.names then false else w.missed name }

/-- A read is over; it may have failed, or left features out. -/
def finished (w : World Name V) (read : Read Name) (answered : List Name) : World Name V :=
  { w with
    inFlight := w.inFlight.filter (·.id ≠ read.id)
    missed := fun name =>
      if name ∈ read.names ∧ name ∉ answered ∧ w.lastRead name = some read.id then true
      else w.missed name }

def land (w : World Name V) (read : Read Name) (states : List (Name × FeatureState V)) :
    FeatureStore Name (V × Origin) :=
  let tagged := states.map fun entry => (entry.1, entry.2.tag (.fetch read.id))
  match read.tickets with
  | none => w.store.loadAnswered w.now read.toSent tagged
  | some tickets => w.store.flushAnswered w.now read.toSent tickets tagged

/-- An event that cannot happen changes nothing: a listener that follows
already or no more, a timer that is not armed, an answer to no read or with
features that were not asked for. -/
def step (w : World Name V) : Event Name V → World Name V
  | .subscribe name listener =>
    if listener ∈ w.store.listenersOf name then w
    else { w with store := w.store.subscribe name listener }
  | .unsubscribe name listener =>
    if listener ∈ w.store.listenersOf name then
      { w with store := w.store.unsubscribe w.now name listener }
    else w
  | .setEnabled enabled =>
    if enabled = w.store.enabled then w
    else { w with store := w.store.setEnabled w.now enabled, restarted := w.sent }
  | .set name state =>
    { w with
      store := w.store.set w.now name (state.tag .given)
      superseded := Function.update w.superseded name w.sent }
  | .setMany states =>
    if (states.map (·.1)).Nodup then
      { w with
        store := w.store.setMany w.now (states.map fun entry => (entry.1, entry.2.tag .given))
        superseded := fun name =>
          if name ∈ states.map (·.1) then w.sent else w.superseded name }
    else w
  | .invalidate names =>
    { w with
      store := w.store.invalidate names
      superseded := fun name => if name ∈ names then w.sent else w.superseded name }
  | .refresh => { w with store := w.store.refresh }
  | .load names =>
    match w.store.load names with
    | none => w
    | some sent => w.send sent
  | .clear => { w with store := w.store.clear w.now, restarted := w.sent }
  | .microtask =>
    if w.store.flushScheduled then
      match w.store.flush with
      | (store, none) => { w with store }
      | (store, some sent) => { w with store }.send sent
    else w
  | .timer => if w.store.pollTimer.isSome then { w with store := w.store.pollDue w.now } else w
  | .answer id states =>
    match w.inFlight.find? (·.id = id) with
    | none => w
    | some read =>
      if (states.map (·.1)).Nodup ∧ ∀ name ∈ states.map (·.1), name ∈ read.names then
        finished { w with store := w.land read states } read (states.map (·.1))
      else w
  | .fail id =>
    match w.inFlight.find? (·.id = id) with
    | none => w
    | some read => w.finished read []
  | .elapse ms => { w with now := w.now + ms }

end World

/-- What the invariants read of the world beside the feature they are about. -/
structure Shared (Name : Type) where
  reads : List (Read Name)
  generation : Nat
  enabled : Bool
  sent : Nat
  restarted : Nat

structure Feature (V : Type) where
  view : FeatureView (V × Origin)
  superseded : Nat
  lastRead : Option Nat
  missed : Bool

def FeatureView.heldFrom {V : Type} (view : FeatureView (V × Origin)) : Option Nat :=
  match view.held with
  | some ⟨(_, .fetch id), _, _⟩ => some id
  | _ => none

/-- A state is held that is to be read again by itself. -/
def FeatureView.isPolled {V : Type} (view : FeatureView V) : Prop :=
  ∃ state, view.held = some state ∧ (refreshInterval state).isSome

namespace World

variable {Name V : Type} [DecidableEq Name]

def shared (w : World Name V) : Shared Name where
  reads := w.inFlight
  generation := w.store.generation
  enabled := w.store.enabled
  sent := w.sent
  restarted := w.restarted

def feature (w : World Name V) (name : Name) : Feature V where
  view := w.store.view name
  superseded := w.superseded name
  lastRead := w.lastRead name
  missed := w.missed name

end World

namespace Shared

variable {Name V : Type}

/-- A bulk read that is still the newest of the feature: its answer lands. -/
structure Newest (c : Shared Name) (name : Name) (version : Nat) (read : Read Name) : Prop where
  mem : read ∈ c.reads
  generation : read.generation = c.generation
  ticket : read.ticket name = some version

/-- A read of the feature whose answer lands. -/
structure Lands (c : Shared Name) (name : Name) (version : Nat) (read : Read Name) : Prop where
  mem : read ∈ c.reads
  generation : read.generation = c.generation
  named : name ∈ read.names
  ticket : read.tickets.isSome → read.ticket name = some version

/-- What holds of the reads and the store whatever the feature. -/
structure Inv (c : Shared Name) : Prop where
  id_lt : ∀ read ∈ c.reads, read.id < c.sent
  distinct : ∀ read ∈ c.reads, ∀ other ∈ c.reads, read.id = other.id → read = other
  generation_le : ∀ read ∈ c.reads, read.generation ≤ c.generation
  recent : ∀ read ∈ c.reads, read.generation = c.generation → c.restarted ≤ read.id
  restarted_le : c.restarted ≤ c.sent
  disabled : c.enabled = false →
    c.restarted = c.sent ∧ ∀ read ∈ c.reads, read.generation ≠ c.generation
  named : ∀ read ∈ c.reads, ∀ name version, read.ticket name = some version → name ∈ read.names

/-- What holds of each feature. -/
structure FeatureInv (c : Shared Name) (name : Name) (x : Feature V) : Prop where
  ticket_le : ∀ read ∈ c.reads, ∀ version, read.ticket name = some version →
    version ≤ x.view.version
  superseded_le : x.superseded ≤ c.sent
  quiet : c.enabled = false → x.view.queued = false
  held : ∀ id, x.view.heldFrom = some id → id < c.sent ∧ c.restarted ≤ id
  fresh : (∀ id, x.view.heldFrom = some id → x.superseded ≤ id) ∨ x.view.queued = true ∨
    ∃ read, c.Lands name x.view.version read ∧ x.superseded ≤ read.id
  newest : ∀ read, c.Newest name x.view.version read → x.superseded ≤ read.id ∨ x.view.queued = true
  later : ∀ read, c.Newest name x.view.version read → ∀ id, x.view.heldFrom = some id → id < read.id
  unique : ∀ read other, c.Newest name x.view.version read → c.Newest name x.view.version other → read = other
  polled : c.enabled = true → x.view.watched = true → x.view.isPolled →
    x.view.isDue = true ∨ x.view.queued = true ∨
      (∃ read, c.Lands name x.view.version read ∧ x.lastRead = some read.id) ∨ x.missed = true

namespace FeatureInv

variable {c : Shared Name} {name : Name} {x : Feature V}

theorem queueing {x' : Feature V} (h : c.FeatureInv name x)
    (hversion : x'.view.version = x.view.version) (hheld : x'.view.held = x.view.held)
    (hsuperseded : x'.superseded = x.superseded) (hlast : x'.lastRead = x.lastRead)
    (hmissed : x'.missed = x.missed)
    (hqueued : x.view.queued = true → x'.view.queued = true)
    (hquiet : c.enabled = false → x'.view.queued = false)
    (hpolled : c.enabled = true → x'.view.watched = true → x'.view.isPolled → x'.view.queued = true ∨
      x.view.watched = true ∧ (x.view.isDue = true → x'.view.isDue = true ∨ x'.view.queued = true)) :
    c.FeatureInv name x' := by
  have hfrom : x'.view.heldFrom = x.view.heldFrom := by simp only [FeatureView.heldFrom, hheld]
  have hnewest : ∀ read, c.Newest name x'.view.version read → c.Newest name x.view.version read :=
    fun read hread => ⟨hread.mem, hread.generation, hversion ▸ hread.ticket⟩
  have hlands : ∀ read, c.Lands name x.view.version read → c.Lands name x'.view.version read :=
    fun read hread => ⟨hread.mem, hread.generation, hread.named, hversion ▸ hread.ticket⟩
  exact {
    ticket_le := fun read hread version hticket => hversion ▸ h.ticket_le read hread version hticket
    superseded_le := hsuperseded ▸ h.superseded_le
    quiet := hquiet
    held := fun id hid => h.held id (hfrom ▸ hid)
    fresh := by
      rw [hfrom, hsuperseded]
      rcases h.fresh with hfresh | hfresh | ⟨read, hread, hle⟩
      · exact .inl hfresh
      · exact .inr (.inl (hqueued hfresh))
      · exact .inr (.inr ⟨read, hlands read hread, hle⟩)
    newest := fun read hread => by
      rw [hsuperseded]
      exact (h.newest read (hnewest read hread)).imp id hqueued
    later := fun read hread id hid => h.later read (hnewest read hread) id (hfrom ▸ hid)
    unique := fun read other hread hother =>
      h.unique read other (hnewest read hread) (hnewest other hother)
    polled := fun henabled hwatched hpoll => by
      rcases hpolled henabled hwatched hpoll with hq | ⟨hw, hdue⟩
      · exact .inr (.inl hq)
      · have hisPolled : x.view.isPolled := by
          obtain ⟨state, hstate, hinterval⟩ := hpoll
          exact ⟨state, hheld ▸ hstate, hinterval⟩
        rcases h.polled henabled hw hisPolled with hd | hq | ⟨read, hread, hlastRead⟩ | hm
        · rcases hdue hd with hd | hq
          · exact .inl hd
          · exact .inr (.inl hq)
        · exact .inr (.inl (hqueued hq))
        · exact .inr (.inr (.inl ⟨read, hlands read hread, hlast ▸ hlastRead⟩))
        · exact .inr (.inr (.inr (hmissed ▸ hm))) }

theorem set (h : c.FeatureInv name x) (state : FeatureState V) :
    c.FeatureInv name
      ({ x with view := x.view.set (state.tag .given), superseded := c.sent } : Feature V) where
  ticket_le read hread version hticket := (h.ticket_le read hread version hticket).trans (Nat.le_succ _)
  superseded_le := le_refl _
  quiet := h.quiet
  held _ hid := by cases hid
  fresh := .inl fun _ hid => by cases hid
  newest read hread := absurd (h.ticket_le read hread.mem _ hread.ticket) (Nat.not_succ_le_self _)
  later _ _ _ hid := by cases hid
  unique read _ hread _ :=
    absurd (h.ticket_le read hread.mem _ hread.ticket) (Nat.not_succ_le_self _)
  polled _ hwatched hpolled := by
    obtain ⟨held, hheld, hinterval⟩ := hpolled
    cases hheld
    left
    simp only [FeatureView.set, FeatureView.install] at hwatched ⊢
    simp [hinterval, hwatched]

theorem invalidateShown (h : c.FeatureInv name x) (hc : c.Inv) :
    c.FeatureInv name
      ({ x with view := x.view.request c.enabled, superseded := c.sent } : Feature V) := by
  have hrequest := @queueing _ _ _ _ _ { x with view := x.view.request c.enabled } h rfl rfl rfl rfl rfl
    (fun hq => by simp [FeatureView.request, hq])
    (fun henabled => by simp [FeatureView.request, h.quiet henabled, henabled])
    (fun henabled _ _ => by simp [FeatureView.request, henabled])
  cases henabled : c.enabled with
  | true =>
    have hqueued : (x.view.request true).queued = true := by simp [FeatureView.request]
    rw [henabled] at hrequest
    exact { hrequest with
      superseded_le := le_refl _
      fresh := .inr (.inl hqueued)
      newest := fun _ _ => .inr hqueued }
  | false =>
    obtain ⟨hrestarted, hnone⟩ := hc.disabled henabled
    rw [henabled] at hrequest
    exact { hrequest with
      superseded_le := le_refl _
      fresh := .inl fun id hid => by
        have := hrequest.held id hid
        change c.sent ≤ id
        omega
      newest := fun read hread => absurd hread.generation (hnone read hread.mem) }

theorem invalidateHidden (h : c.FeatureInv name x) (hwatched : x.view.watched = false)
    (hnone : ∀ read, ¬c.Newest name x.view.version read) :
    c.FeatureInv name
      ({ x with view := { x.view with held := none }, superseded := c.sent } : Feature V) where
  ticket_le := h.ticket_le
  superseded_le := le_refl _
  quiet := h.quiet
  held _ hid := by cases hid
  fresh := .inl fun _ hid => by cases hid
  newest read hread := absurd ⟨hread.mem, hread.generation, hread.ticket⟩ (hnone read)
  later _ _ _ hid := by cases hid
  unique read _ hread _ := absurd ⟨hread.mem, hread.generation, hread.ticket⟩ (hnone read)
  polled _ hw _ := by simp [hwatched] at hw

theorem startOver (h : c.FeatureInv name x) (hc : c.Inv) {enabled queued : Bool}
    (hqueued : enabled = false → queued = false) :
    Shared.FeatureInv
      { c with generation := c.generation + 1, enabled, restarted := c.sent } name
      ({ x with view := { x.view with held := none, queued, isDue := false } } : Feature V) where
  ticket_le := h.ticket_le
  superseded_le := h.superseded_le
  quiet := hqueued
  held _ hid := by cases hid
  fresh := .inl fun _ hid => by cases hid
  newest read hread := by
    have hle := hc.generation_le read hread.mem
    have heq : read.generation = c.generation + 1 := hread.generation
    omega
  later _ _ _ hid := by cases hid
  unique read _ hread _ := by
    have hle := hc.generation_le read hread.mem
    have heq : read.generation = c.generation + 1 := hread.generation
    omega
  polled _ _ hpolled := by
    obtain ⟨_, hheld, -⟩ := hpolled
    cases hheld

theorem sent [DecidableEq Name] (h : c.FeatureInv name x) {read : Read Name} (hid : read.id = c.sent)
    (hgeneration : read.generation = c.generation) (hticket : read.ticket name = none)
    (htickets : name ∈ read.names → read.tickets = none) :
    Shared.FeatureInv { c with reads := c.reads ++ [read], sent := c.sent + 1 } name
      ({ x with
        lastRead := if name ∈ read.names then some c.sent else x.lastRead
        missed := if name ∈ read.names then false else x.missed } : Feature V) := by
  have hnewest : ∀ other, Shared.Newest { c with reads := c.reads ++ [read], sent := c.sent + 1 }
      name x.view.version other → c.Newest name x.view.version other := by
    intro other hother
    rcases List.mem_append.mp hother.mem with hmem | hmem
    · exact ⟨hmem, hother.generation, hother.ticket⟩
    · rw [List.mem_singleton.mp hmem] at hother
      have := hother.ticket
      rw [hticket] at this
      cases this
  exact {
    ticket_le := fun other hother version hversion => by
      rcases List.mem_append.mp hother with hmem | hmem
      · exact h.ticket_le other hmem version hversion
      · rw [List.mem_singleton.mp hmem, hticket] at hversion
        cases hversion
    superseded_le := h.superseded_le.trans (Nat.le_succ _)
    quiet := h.quiet
    held := fun id hheld => ⟨(h.held id hheld).1.trans (Nat.lt_succ_self _), (h.held id hheld).2⟩
    fresh := by
      rcases h.fresh with hfresh | hfresh | ⟨other, hother, hle⟩
      · exact .inl hfresh
      · exact .inr (.inl hfresh)
      · exact .inr (.inr ⟨other, ⟨List.mem_append_left _ hother.mem, hother.generation,
          hother.named, hother.ticket⟩, hle⟩)
    newest := fun other hother => h.newest other (hnewest other ⟨hother.mem, hother.generation,
      hother.ticket⟩)
    later := fun other hother => h.later other (hnewest other ⟨hother.mem, hother.generation,
      hother.ticket⟩)
    unique := fun other third hother hthird => h.unique other third
      (hnewest other ⟨hother.mem, hother.generation, hother.ticket⟩)
      (hnewest third ⟨hthird.mem, hthird.generation, hthird.ticket⟩)
    polled := fun henabled hwatched hpolled => by
      by_cases hname : name ∈ read.names
      · refine .inr (.inr (.inl ⟨read, ⟨by simp, hgeneration, hname, ?_⟩, ?_⟩))
        · simp [htickets hname]
        · simp [hname, hid]
      · simp only [hname, if_false]
        rcases h.polled henabled hwatched hpolled with hd | hq | ⟨other, hother, hlast⟩ | hm
        · exact .inl hd
        · exact .inr (.inl hq)
        · exact .inr (.inr (.inl ⟨other, ⟨List.mem_append_left _ hother.mem, hother.generation,
            hother.named, hother.ticket⟩, hlast⟩))
        · exact .inr (.inr (.inr hm)) }

theorem flushed (h : c.FeatureInv name x) {read : Read Name} {version : Nat}
    (hid : read.id = c.sent) (hgeneration : read.generation = c.generation)
    (hname : name ∈ read.names) (hlt : x.view.version < version)
    (hticket : read.ticket name = some version) :
    Shared.FeatureInv { c with reads := c.reads ++ [read], sent := c.sent + 1 } name
      ({ x with
        view := { x.view with queued := false, version }
        lastRead := some c.sent, missed := false } : Feature V) := by
  have hnewest : ∀ other, Shared.Newest { c with reads := c.reads ++ [read], sent := c.sent + 1 }
      name version other → other = read := by
    intro other hother
    rcases List.mem_append.mp hother.mem with hmem | hmem
    · have := h.ticket_le other hmem _ hother.ticket
      exact absurd hlt (Nat.not_lt.mpr this)
    · exact List.mem_singleton.mp hmem
  have hlands : Shared.Lands { c with reads := c.reads ++ [read], sent := c.sent + 1 } name
      version read := ⟨by simp, hgeneration, hname, fun _ => hticket⟩
  exact {
    ticket_le := fun other hother version' hversion => by
      rcases List.mem_append.mp hother with hmem | hmem
      · exact (h.ticket_le other hmem version' hversion).trans hlt.le
      · rw [List.mem_singleton.mp hmem, hticket] at hversion
        cases hversion
        exact le_refl _
    superseded_le := h.superseded_le.trans (Nat.le_succ _)
    quiet := fun _ => rfl
    held := fun id hheld => ⟨(h.held id hheld).1.trans (Nat.lt_succ_self _), (h.held id hheld).2⟩
    fresh := .inr (.inr ⟨read, ⟨hlands.mem, hlands.generation, hlands.named, hlands.ticket⟩,
      hid ▸ h.superseded_le⟩)
    newest := fun other hother => by
      rw [hnewest other ⟨hother.mem, hother.generation, hother.ticket⟩, hid]
      exact .inl h.superseded_le
    later := fun other hother id hheld => by
      rw [hnewest other ⟨hother.mem, hother.generation, hother.ticket⟩, hid]
      exact (h.held id hheld).1
    unique := fun other third hother hthird => by
      rw [hnewest other ⟨hother.mem, hother.generation, hother.ticket⟩,
        hnewest third ⟨hthird.mem, hthird.generation, hthird.ticket⟩]
    polled := fun _ _ _ => .inr (.inr (.inl ⟨read, ⟨hlands.mem, hlands.generation, hlands.named,
      hlands.ticket⟩, by rw [hid]⟩)) }

def without (c : Shared Name) (read : Read Name) : Shared Name :=
  { c with reads := c.reads.filter (·.id ≠ read.id) }

variable {read : Read Name}

theorem mem_without {other : Read Name} :
    other ∈ (without c read).reads ↔ other ∈ c.reads ∧ other.id ≠ read.id := by
  simp [without]

theorem answered (h : c.FeatureInv name x) (hc : c.Inv)
    (hread : c.Newest name x.view.version read) (state : FeatureState V) :
    (without c read).FeatureInv name
      ({ x with view := x.view.install (state.tag (.fetch read.id)) } : Feature V) := by
  have hnone : ∀ other, ¬(without c read).Newest name x.view.version other := by
    intro other hother
    obtain ⟨hmem, hne⟩ := mem_without.mp hother.mem
    exact hne (congrArg Read.id (h.unique other read ⟨hmem, hother.generation, hother.ticket⟩ hread))
  exact {
    ticket_le := fun other hother => h.ticket_le other (mem_without.mp hother).1
    superseded_le := h.superseded_le
    quiet := h.quiet
    held := fun id hid => by
      cases hid
      exact ⟨hc.id_lt read hread.mem, hc.recent read hread.mem hread.generation⟩
    fresh := by
      rcases h.newest read hread with hle | hq
      · left
        intro id hid
        cases hid
        exact hle
      · exact .inr (.inl hq)
    newest := fun other hother =>
      absurd ⟨hother.mem, hother.generation, hother.ticket⟩ (hnone other)
    later := fun other hother =>
      absurd ⟨hother.mem, hother.generation, hother.ticket⟩ (hnone other)
    unique := fun other _ hother =>
      absurd ⟨hother.mem, hother.generation, hother.ticket⟩ (hnone other)
    polled := fun _ hwatched hpolled => by
      obtain ⟨held, hheld, hinterval⟩ := hpolled
      cases hheld
      left
      simp only [FeatureView.install] at hwatched ⊢
      simp [hinterval, hwatched] }

theorem loaded (h : c.FeatureInv name x) (hc : c.Inv) (hmem : read ∈ c.reads)
    (hgeneration : read.generation = c.generation)
    (hcurrent : x.superseded ≤ read.id ∨ x.view.queued = true) (state : FeatureState V) :
    (without c read).FeatureInv name
      ({ x with view := x.view.set (state.tag (.fetch read.id)) } : Feature V) := by
  have hnone : ∀ other, ¬(without c read).Newest name (x.view.version + 1) other := by
    intro other hother
    exact Nat.not_succ_le_self _
      (h.ticket_le other (mem_without.mp hother.mem).1 _ hother.ticket)
  exact {
    ticket_le := fun other hother version hticket =>
      (h.ticket_le other (mem_without.mp hother).1 version hticket).trans (Nat.le_succ _)
    superseded_le := h.superseded_le
    quiet := h.quiet
    held := fun id hid => by
      cases hid
      exact ⟨hc.id_lt read hmem, hc.recent read hmem hgeneration⟩
    fresh := by
      rcases hcurrent with hle | hq
      · left
        intro id hid
        cases hid
        exact hle
      · exact .inr (.inl hq)
    newest := fun other hother => absurd hother (hnone other)
    later := fun other hother => absurd hother (hnone other)
    unique := fun other _ hother => absurd hother (hnone other)
    polled := fun _ hwatched hpolled => by
      obtain ⟨held, hheld, hinterval⟩ := hpolled
      cases hheld
      left
      simp only [FeatureView.set, FeatureView.install] at hwatched ⊢
      simp [hinterval, hwatched] }

/-- A read is over without a state for the feature: nothing waited for it, or
the feature is read again anyway. -/
theorem dropped (h : c.FeatureInv name x) (hc : c.Inv) (hmem : read ∈ c.reads)
    {missed : Bool} (hmissed : x.missed = true → missed = true)
    (hcovered : c.Lands name x.view.version read → (∀ id, x.view.heldFrom = some id → x.superseded ≤ id) ∨
      x.view.queued = true ∨
        ∃ other, c.Lands name x.view.version other ∧ other.id ≠ read.id ∧ x.superseded ≤ other.id)
    (hlast : c.Lands name x.view.version read → x.lastRead = some read.id → missed = true) :
    (without c read).FeatureInv name ({ x with missed } : Feature V) := by
  have hlands : ∀ other, c.Lands name x.view.version other → other.id ≠ read.id →
      (without c read).Lands name x.view.version other :=
    fun other hother hne => ⟨mem_without.mpr ⟨hother.mem, hne⟩, hother.generation, hother.named,
      hother.ticket⟩
  have hnewest : ∀ other, (without c read).Newest name x.view.version other →
      c.Newest name x.view.version other :=
    fun other hother => ⟨(mem_without.mp hother.mem).1, hother.generation, hother.ticket⟩
  exact {
    ticket_le := fun other hother => h.ticket_le other (mem_without.mp hother).1
    superseded_le := h.superseded_le
    quiet := h.quiet
    held := h.held
    fresh := by
      rcases h.fresh with hfresh | hq | ⟨other, hother, hle⟩
      · exact .inl hfresh
      · exact .inr (.inl hq)
      · by_cases hsame : other.id = read.id
        · rw [hc.distinct other hother.mem read hmem hsame] at hother
          rcases hcovered hother with hfresh | hq | ⟨third, hthird, hne, hle⟩
          · exact .inl hfresh
          · exact .inr (.inl hq)
          · exact .inr (.inr ⟨third, hlands third hthird hne, hle⟩)
        · exact .inr (.inr ⟨other, hlands other hother hsame, hle⟩)
    newest := fun other hother => h.newest other (hnewest other hother)
    later := fun other hother => h.later other (hnewest other hother)
    unique := fun other third hother hthird =>
      h.unique other third (hnewest other hother) (hnewest third hthird)
    polled := fun henabled hwatched hpolled => by
      rcases h.polled henabled hwatched hpolled with hd | hq | ⟨other, hother, hlastRead⟩ | hm
      · exact .inl hd
      · exact .inr (.inl hq)
      · by_cases hsame : other.id = read.id
        · rw [hc.distinct other hother.mem read hmem hsame] at hother
          rw [hsame] at hlastRead
          exact .inr (.inr (.inr (hlast hother hlastRead)))
        · exact .inr (.inr (.inl ⟨other, hlands other hother hsame, hlastRead⟩))
      · exact .inr (.inr (.inr (hmissed hm))) }

end FeatureInv

end Shared

end VivaGenicam.Studio
