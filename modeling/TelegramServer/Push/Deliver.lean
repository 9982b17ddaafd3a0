import TelegramServer.Api.Hydrate
import TelegramServer.Conc.Program
import Mathlib.Data.List.InsertIdx

/-!
# Delivery to one connection

`deliverAtSuppressed` follows one connection of the owner through a delivery: the
owner's other connections only contribute their watermarks and their wish to retry.
Every access to the connection is a critical section of its own. Loops that the
source leaves unbounded take a bound on the number of rounds they are followed for.

While a sender's RPC result is being prepared, its connection holds a barrier so
that a push cannot run ahead of the result. Each function is one critical section
under the connection's write lock. The three parallel slices of the regular queue
are one list of entries. Attempt ids come from a 64-bit counter that skips zero
when it wraps; a connection does not live through that many attempts, so it is a
natural number here.
-/

namespace TelegramServer.Push

open Conc TelegramServer.Api

/-- One barrier: the attempt it belongs to, the pts of its event (zero while the
store has not answered) and whether the result reached the wire. -/
structure Pending where
  id : Nat
  pts : Int
  ready : Bool := false
  deriving DecidableEq

structure Conn where
  owner : Int
  authKeyID : Int
  lastPushedPts : Int
  pendingRPCOwner : Int := 0
  pendingRPCAuthKey : Int := 0
  pendingRPC : List Pending := []
  pendingRPCOverflow : List Pending := []
  pendingRPCOverflowSaturated : Bool := false
  nextPendingRPCID : Nat := 0

/-- One request attempt's hold on the barrier queue. An attempt that found the pts it
retries already queued owns nothing. -/
structure Reservation where
  owner : Int := 0
  authKey : Int := 0
  id : Nat := 0
  owned : Bool := false
  overflow : Bool := false

namespace Conn

variable (c : Conn)

/-- Take the regular entry at `i` out; an empty queue has no owner. -/
def removePendingRPCAt (i : Nat) : Conn :=
  let rest := c.pendingRPC.eraseIdx i
  { c with
    pendingRPC := rest
    pendingRPCOwner := if rest = [] then 0 else c.pendingRPCOwner
    pendingRPCAuthKey := if rest = [] then 0 else c.pendingRPCAuthKey }

def removePendingRPCOverflowAt (i : Nat) : Conn :=
  { c with pendingRPCOverflow := c.pendingRPCOverflow.eraseIdx i }

/-- `PendingRPCUpdate`: the first barrier's pts; zero for an event whose pts is not
known yet. -/
def pendingRPCUpdate (owner : Int) : Option Int :=
  if c.pendingRPCOwner = owner ∧ c.pendingRPC ≠ [] then c.pendingRPC.head?.map (·.pts)
  else if c.owner = owner then
    if c.pendingRPCOverflow ≠ [] then c.pendingRPCOverflow.head?.map (·.pts)
    else if c.pendingRPCOverflowSaturated then some 0
    else none
  else none

def pendingRPCUpdateReady (owner : Int) : Bool :=
  if c.pendingRPCOwner = owner ∧ c.pendingRPC ≠ [] then c.pendingRPC.head?.any (·.ready)
  else if c.owner = owner then c.pendingRPCOverflow.head?.any (·.ready)
  else false

def pushedUpTo (pts : Int) : Conn :=
  { c with lastPushedPts := max c.lastPushedPts pts }

/-- `MarkRPCUpdate`: account for the event of a sender result. The first barrier
decides: one without a pts, or for another event, keeps the watermark. -/
def markRPCUpdate (owner authKeyID pts : Int) : Bool × Conn :=
  if authKeyID = 0 ∨ pts ≤ 0 then (false, c)
  else if c.owner ≠ owner ∨ c.authKeyID ≠ authKeyID then (false, c)
  else
    match c.pendingRPC, c.pendingRPCOverflow with
    | e :: _, _ =>
      if e.pts = 0 then (false, c)
      else if e.pts ≠ pts then (pts ≤ c.lastPushedPts, c)
      else (true, (c.pushedUpTo pts).removePendingRPCAt 0)
    | [], e :: _ =>
      if e.pts = 0 then (false, c)
      else if e.pts ≠ pts then (pts ≤ c.lastPushedPts, c)
      else (true, (c.pushedUpTo pts).removePendingRPCOverflowAt 0)
    | [], [] => (true, c.pushedUpTo pts)

end Conn

/-- The update that a keyed notification lets one auth key skip; a generic notification
has key zero. -/
structure Suppressed where
  authKeyID : Int := 0
  pts : Int := 0

/-- What the serve loop is doing about the sender result it is preparing: nothing, the
store has not answered, the store has answered with the event's pts, that pts stands
on the barrier, or a retry whose pts was known from the start. -/
inductive Attempt where
  | none
  | begun (r : Reservation)
  | committed (r : Reservation) (pts : Int)
  | set (r : Reservation) (pts : Int)
  | known (r : Reservation) (pts : Int)

def Attempt.event : Attempt → Option Int
  | none => .none
  | begun _ => .none
  | committed _ pts => some pts
  | set _ pts => some pts
  | known _ pts => some pts

/-- A push as it was written: the events it carried, and the barrier's event and the
written results at that moment. -/
structure Written where
  sent : List Int
  held : Option Int
  results : List Int

/-- The committed database, the connection and its serve loop, with the history that the
properties are about: results written here, keyed notifications of the owner, pushes
written here, and events that a batch passed over because they hydrated to nothing. -/
structure Shared where
  db : State
  conn : Conn
  attempt : Attempt := .none
  results : List Int := []
  keyed : List Suppressed := []
  pushes : List Written := []
  skipped : List Int := []

/-- The critical sections of a delivery. `suffix more` looks for the next barrier after a
keyed event; `more` says whether the batch holds anything behind that event. -/
inductive Section where
  | lastPushed
  | pending
  | ready
  | mark
  | suffix (more : Bool)
  | push
  | build

/-- What a delivery is told: the other connections' watermarks and whether one of them
retries, and whether its next write or read fails. -/
structure Outside where
  watermarks : List Int := []
  retry : Bool := false
  fails : Bool := false

abbrev Task (A : Type) := Prog Shared Section Outside A

def lastPushedPts : Task Int :=
  .read .lastPushed (·.conn.lastPushedPts)

def pendingRPCUpdate (u : Int) : Task (Option Int) :=
  .read .pending (·.conn.pendingRPCUpdate u)

def pendingRPCUpdateReady (u : Int) : Task Bool :=
  .read .ready (·.conn.pendingRPCUpdateReady u)

def markRPCUpdate (u key pts : Int) : Task Bool :=
  .atomic .mark fun s =>
    ((s.conn.markRPCUpdate u key pts).1, { s with conn := (s.conn.markRPCUpdate u key pts).2 })

inductive PushOutcome where
  | pushed
  | stale
  | dropped
  | failed
  deriving DecidableEq

/-- `PushToAtWatermark`: write the updates only if the watermark is the one they were
chosen for. -/
def pushToAtWatermark (u expected : Int) (ups : List (Int × Wire.Update)) (pts : Int) (s : Shared) :
    PushOutcome × Shared :=
  if s.conn.owner ≠ u then (.dropped, s)
  else if s.conn.lastPushedPts ≠ expected then (.stale, s)
  else
    (.pushed, { s with
      conn := if 0 < pts then s.conn.pushedUpTo pts else s.conn
      pushes := s.pushes ++ [⟨ups.map (·.1), s.attempt.event, s.results⟩] })

def pushOrdered (u expected : Int) (ups : List (Int × Wire.Update)) (pts : Int) :
    Task PushOutcome := do
  let o ← .told
  if o.fails then return .failed
  else .atomic .push (pushToAtWatermark u expected ups pts)

/-! ## One connection -/

def isRPCResultUpdate : Wire.Update → Bool
  | .newMessage .. => true
  | .editMessage .. => true
  | _ => false

/-- The index holds the sender event `pts`. -/
def holdsResult (b : UpdateBatch) (i : Nat) (pts : Int) : Bool :=
  b.ups[i]?.any fun x => x.1 = pts && isRPCResultUpdate x.2

def slice (b : UpdateBatch) (i j : Nat) : List (Int × Wire.Update) :=
  (b.ups.take j).drop i

def ptsAt (b : UpdateBatch) (i : Nat) : Int :=
  (b.ups[i]?.map (·.1)).getD 0

/-- Release the first barrier when delivery has reached its immediate prefix; the new
watermark if it was released. -/
def accountPendingRPCUpdate (u key : Int) (b : UpdateBatch) (watermark pendingPts : Int) :
    Task (Option Int) :=
  if pendingPts ≤ 0 then return none
  else if watermark < pendingPts ∧ (pendingPts ≠ watermark + 1 ∨
      b.search pendingPts < b.search (watermark + 1) ∨
      holdsResult b (b.search pendingPts) pendingPts = false) then return none
  else do
    if ← markRPCUpdate u key pendingPts then return some (← lastPushedPts)
    else return none

/-- Push what precedes the barrier at `target`; true asks for a retry. -/
def deliverBeforePendingRPC (u : Int) (b : UpdateBatch) (watermark : Int) (target : Nat) :
    Task Bool :=
  let start := b.search (watermark + 1)
  if target ≤ start then return false
  else do
    let o ← pushOrdered u watermark (slice b start target) (ptsAt b (target - 1))
    return o = .stale

/-- What the loop over the barriers carries: the watermark it has reached, the first
barrier and whether its result is out. -/
structure Wait where
  watermark : Int
  pending : Option Int
  ready : Bool

/-- The keyed notification is the one that accounts for this barrier. -/
def keyedPending (key : Int) (suppressed : Suppressed) (watermark pendingPts : Int) : Bool :=
  0 < pendingPts ∧ suppressed.authKeyID ≠ 0 ∧ suppressed.pts = pendingPts ∧
    watermark < suppressed.pts ∧ key = suppressed.authKeyID

def lookAgain (u watermark : Int) (ready : Bool) : Task Wait := do
  let pending ← pendingRPCUpdate u
  if pending.isSome then return ⟨watermark, pending, ← pendingRPCUpdateReady u⟩
  else return ⟨watermark, pending, ready⟩

/-- Work off the barriers whose results are out; `none` asks for a retry. -/
def pendingLoop (u key : Int) (b : UpdateBatch) (suppressed : Suppressed) :
    Nat → Wait → Task (Option Wait)
  | 0, _ => .halt
  | n + 1, w =>
    match w.pending with
    | none => return some w
    | some pendingPts =>
      if keyedPending key suppressed w.watermark pendingPts ∨ w.ready = false ∨ pendingPts = 0 ∨
          b.state.pts < pendingPts then return some w
      else do
        match ← accountPendingRPCUpdate u key b w.watermark pendingPts with
        | some next => do
            let w' ← lookAgain u next w.ready
            pendingLoop u key b suppressed n w'
        | none =>
          if w.watermark < pendingPts ∧ holdsResult b (b.search pendingPts) pendingPts then do
            if ← deliverBeforePendingRPC u b w.watermark (b.search pendingPts) then return none
            else do
              let next ← lastPushedPts
              if w.watermark < next then do
                let w' ← lookAgain u next w.ready
                pendingLoop u key b suppressed n w'
              else return some w
          else return some w

/-- Where the suffix behind a keyed event ends: before the next barrier, if the batch
reaches it. -/
def suffixEnd (b : UpdateBatch) (suppressed : Suppressed) (target : Nat)
    (next : Option Int) : Nat :=
  match next with
  | some nextPts =>
    if suppressed.pts < nextPts ∧ b.search nextPts < b.ups.length ∧
        target + 1 ≤ b.search nextPts then b.search nextPts
    else b.ups.length
  | none => b.ups.length

/-- Account for the keyed event in place of pushing it, and push what follows it. -/
def deliverSuffix (u : Int) (b : UpdateBatch) (target : Nat) (suppressed : Suppressed) :
    Task Bool := do
  if ← markRPCUpdate u suppressed.authKeyID suppressed.pts then do
    let next ← .read (.suffix (target + 1 < b.ups.length)) (·.conn.pendingRPCUpdate u)
    let stop := suffixEnd b suppressed target next
    if stop ≤ target + 1 then return false
    else do
      let o ← pushOrdered u suppressed.pts (slice b (target + 1) stop) (ptsAt b (stop - 1))
      return o = .stale
  else return false

/-- Push the updates around the keyed event; true asks for a retry. -/
def deliverWithSuppression (u : Int) (b : UpdateBatch) (watermark : Int) (start target : Nat)
    (suppressed : Suppressed) : Task Bool :=
  if start < target then do
    match ← pushOrdered u watermark (slice b start target) (ptsAt b (target - 1)) with
    | .stale | .failed => return true
    | .dropped => return false
    | .pushed => deliverSuffix u b target suppressed
  else deliverSuffix u b target suppressed

structure ConnResult where
  ahead : Bool := false
  retry : Bool := false

def stillAhead (b : UpdateBatch) : Task ConnResult := do
  let w ← lastPushedPts
  return { ahead := b.more && w < b.state.pts }

/-- The batch for a connection whose barriers do not stand in its way. -/
def deliverUpdates (u key : Int) (b : UpdateBatch) (suppressed : Suppressed) (watermark : Int) :
    Task ConnResult :=
  if b.above watermark = [] then stillAhead b
  else
    let start := b.search (watermark + 1)
    let target := b.search suppressed.pts
    if suppressed.authKeyID ≠ 0 ∧ watermark < suppressed.pts ∧ key = suppressed.authKeyID ∧
        holdsResult b target suppressed.pts ∧ start ≤ target then do
      if ← deliverWithSuppression u b watermark start target suppressed
        then return { retry := true }
      else stillAhead b
    else do
      let o ← pushOrdered u watermark (b.above watermark) b.state.pts
      return { retry := o = .stale }

/-- `deliverConn`: one connection's part of a delivery window that starts at `fromPts`. -/
def deliverConn (u key : Int) (fromPts : Int) (b : UpdateBatch) (suppressed : Suppressed)
    (bound : Nat) :
    Task ConnResult := do
  let watermark ← lastPushedPts
  if watermark < fromPts then return {}
  else if b.state.pts ≤ watermark then return { ahead := b.more }
  else do
    let pending ← pendingRPCUpdate u
    if pending.isSome then do
      let ready ← pendingRPCUpdateReady u
      match ← pendingLoop u key b suppressed bound ⟨watermark, pending, ready⟩ with
      | none => return { retry := true }
      | some w =>
        if w.pending.any fun p => keyedPending key suppressed w.watermark p = false ∧
            (p = 0 ∨ p ≤ b.state.pts) then return {}
        else deliverUpdates u key b suppressed w.watermark
    else deliverUpdates u key b suppressed watermark

def maxDeliveryRounds : Nat := 2

def maxDeliveryRetries : Nat := 4

/-- Where the window starts: at the lowest watermark, or in a second round within one
batch of the head. -/
def windowStart (round : Nat) (head : Int) (watermark : Int) (others : List Int) : Int :=
  let lo := others.foldl min watermark
  let hi := others.foldl max watermark
  if round = 0 then lo
  else
    let tail := head - maxDiffEvents
    if hi < tail then hi else max lo tail

end TelegramServer.Push
