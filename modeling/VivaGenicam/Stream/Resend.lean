import Mathlib.Tactic
import Mathlib.Data.Rat.Floor

/-!
Which lost packets of a block to ask for again, and when. A packet beyond the
next one expected opens a gap, a run of missing ids with its own retry
history; the history survives when a packet splits the gap. Instants and
durations are whole nanoseconds. The budget, a floating-point share in the
source, is an exact rational here.
-/

namespace VivaGenicam.Stream

abbrev Instant := Nat
abbrev Duration := Nat

structure ResendConfig where
  enabled : Bool
  /-- Age a gap must reach before it is asked for. -/
  delay : Duration
  /-- Time between requests for a gap still open. -/
  retryInterval : Duration
  /-- Requests per gap, the first included. -/
  maxRequests : Nat
  /-- Share of a block's packets that may be asked for, retries included. -/
  budget : ℚ

def ResendConfig.default : ResendConfig where
  enabled := false
  delay := 2000000
  retryInterval := 20000000
  maxRequests := 3
  budget := 1 / 4

/-- One range to ask for. -/
structure ResendRequest where
  blockId : Nat
  first : Nat
  last : Nat
  extendedIds : Bool
deriving DecidableEq, Repr

/-- A run of missing packet ids. -/
structure Gap where
  first : Nat
  last : Nat
  /-- Requests sent for it so far. -/
  requests : Nat
  /-- When to ask next; `none` once it has been asked for as often as allowed. -/
  due : Option Instant
deriving DecidableEq, Repr

def Gap.len (gap : Gap) : Nat := gap.last - gap.first + 1

def Gap.contains (gap : Gap) (id : Nat) : Bool :=
  decide (gap.first ≤ id) && decide (id ≤ gap.last)

structure ResendState where
  /-- The next packet id not yet seen. -/
  frontier : Nat := 0
  gaps : List Gap := []
  /-- Packets asked for, retries included, against the budget. -/
  asked : Nat := 0
  /-- The budget is spent: no further requests for this block. -/
  spent : Bool := false
deriving DecidableEq, Repr

/-- What `due` did. -/
structure Due where
  newlyRequested : Nat := 0
  budgetSpent : Bool := false
deriving DecidableEq, Repr

/-- How a camera answered a resend request it could not serve. -/
inductive Answer where
  | gone
  | goneWithPrevious
deriving DecidableEq, Repr

/-- `id.saturating_add(1)` on 32 bits. -/
def nextId (id : Nat) : Nat := min (id + 1) (2 ^ 32 - 1)

/-- What is left of a gap once `id`, inside it, is no longer missing. -/
def Gap.without (gap : Gap) (id : Nat) : List Gap :=
  match id == gap.first, id == gap.last with
  | true, true => []
  | true, false => [{ gap with first := id + 1 }]
  | false, true => [{ gap with last := id - 1 }]
  | false, false => [{ gap with last := id - 1 }, { gap with first := id + 1 }]

/-- Take `id` out of the first gap that holds it. -/
def removeFrom (id : Nat) : List Gap → Option Gap × List Gap
  | [] => (none, [])
  | gap :: rest =>
    if gap.contains id then
      (some gap, gap.without id ++ rest)
    else
      let (removed, rest) := removeFrom id rest
      (removed, gap :: rest)

/-- Cut the last gap off before `id`. -/
def trimLast (id : Nat) : List Gap → List Gap
  | [] => []
  | [gap] => [{ gap with last := min gap.last (id - 1) }]
  | gap :: next :: rest => gap :: trimLast id (next :: rest)

/-- Close every id up to `id`, counting those that had been asked for. -/
def closeThrough (id : Nat) : List Gap → Nat × List Gap
  | [] => (0, [])
  | gap :: rest =>
    let (gone, kept) := closeThrough id rest
    if gap.first > id then
      (gone, gap :: kept)
    else
      let lastGone := min gap.last id
      let gone := if gap.requests > 0 then lastGone - gap.first + 1 + gone else gone
      if gap.last ≤ id then
        (gone, kept)
      else
        (gone, { gap with first := id + 1 } :: kept)

/-- What one pass over the gaps did. -/
structure DuePass where
  gaps : List Gap
  asked : Nat
  done : Due
  requests : List ResendRequest

/-- `(packets as f64 * budget).ceil() as u64`. -/
def budgetOf (packets : Nat) (budget : ℚ) : Nat :=
  min ⌈(packets : ℚ) * budget⌉₊ (2 ^ 64 - 1)

/-- The loop of `due`: ask for each gap that is due, and stop at the first one
that would exceed the budget. -/
def dueGaps (now : Instant) (config : ResendConfig) (budget : Nat) (block : Nat × Bool) :
    List Gap → Nat → DuePass
  | [], asked => { gaps := [], asked, done := {}, requests := [] }
  | gap :: rest, asked =>
    if !gap.due.any (fun due => decide (due ≤ now)) then
      let pass := dueGaps now config budget block rest asked
      { pass with gaps := gap :: pass.gaps }
    else if asked + gap.len > budget then
      { gaps := gap :: rest, asked, done := { budgetSpent := true }, requests := [] }
    else
      let pass := dueGaps now config budget block rest (asked + gap.len)
      let requests := gap.requests + 1
      let again :=
        if requests < config.maxRequests then some (now + config.retryInterval) else none
      let newly := if gap.requests = 0 then gap.len else 0
      { gaps := { gap with requests, due := again } :: pass.gaps
        asked := pass.asked
        done := { pass.done with newlyRequested := newly + pass.done.newlyRequested }
        requests :=
          { blockId := block.1, first := gap.first, last := gap.last, extendedIds := block.2 } ::
            pass.requests }

namespace ResendState

/-- Remove just this missing id, preserving retry history on either side. -/
def removePacket (state : ResendState) (id : Nat) : Option Gap × ResendState :=
  let (removed, gaps) := removeFrom id state.gaps
  (removed, { state with gaps })

/-- Packet `id` arrived at `now`. The flag says whether it had been asked for. -/
def arrived (state : ResendState) (id : Nat) (now : Instant) (delay : Duration) :
    Bool × ResendState :=
  if id ≥ state.frontier then
    let gaps :=
      if id > state.frontier then
        state.gaps ++
          [{ first := state.frontier, last := id - 1, requests := 0, due := some (now + delay) }]
      else
        state.gaps
    (false, { state with gaps, frontier := nextId id })
  else
    let (removed, state) := state.removePacket id
    (removed.any (fun gap => decide (gap.requests > 0)), state)

/-- The trailer, packet `id`, arrived: nothing beyond it belongs to the block. -/
def trailer (state : ResendState) (id : Nat) : ResendState :=
  { state with
    gaps := trimLast id (state.gaps.filter (fun gap => decide (gap.first < id)))
    frontier := min state.frontier (nextId id) }

/-- The camera answered `answer` for packet `id`. Returns how many packets
asked for it has thereby declared unavailable. -/
def unavailable (state : ResendState) (id : Nat) (answer : Answer) : Nat × ResendState :=
  match answer with
  | .gone =>
    if !state.gaps.any (fun gap => gap.contains id && decide (gap.requests > 0)) then
      (0, state)
    else
      let (removed, state) := state.removePacket id
      (if removed.isSome then 1 else 0, state)
  | .goneWithPrevious =>
    let (gone, gaps) := closeThrough id state.gaps
    (gone, { state with gaps })

/-- Append the requests due at `now` for a block whose packets, leader and
trailer included, number `packets`. -/
def due (state : ResendState) (now : Instant) (config : ResendConfig) (packets : Nat)
    (block : Nat × Bool) : Due × ResendState × List ResendRequest :=
  if state.spent then
    ({}, state, [])
  else
    let pass := dueGaps now config (budgetOf packets config.budget) block state.gaps state.asked
    (pass.done,
      { state with gaps := pass.gaps, asked := pass.asked, spent := pass.done.budgetSpent },
      pass.requests)

end ResendState

end VivaGenicam.Stream
