import TelegramServer.Sessions.Registry
import TelegramServer.Sessions.FolderSync

/-!
# Connections that come and go

The `bind` closure of `serveConn` (`mtproto/server.go`), one per connection, beside the
deliveries that drop a connection after a failed push (`handlePushFailure` in
`api/notify.go`), and the sweep that walks the recovery list after the listener was down
(`recoverDialogFilters`). Each step is one registry operation, one status callback or one
owner change.
-/

namespace TelegramServer.Sessions

open Conc

/-- Where the serve loop of a connection is; `reg` is `registeredUser`, with 0 for none. -/
inductive Phase : Type where
  /-- No `bind` is running. -/
  | bound (reg : Int)
  /-- `setOwner(userID)` is done and `reg` is to be deregistered. -/
  | owned (reg userID : Int)
  /-- `Remove` is done; the user's connections are to be read. -/
  | removed (reg userID : Int)
  /-- None were left: the offline callback is next. -/
  | offline (reg userID : Int)
  /-- `registeredUser` is 0; `userID` is to be registered. -/
  | cleared (userID : Int)
  /-- `Add` was refused; the connection is to be disowned. -/
  | refused
  /-- `Add` is done: the online callback is next. -/
  | added (userID : Int)
deriving DecidableEq

/-- The recovery sweep: `recoveryScanEpoch`, `recoveryScanRemaining`, and whether a tick has looked
at the epoch and not yet asked for candidates. The last two fields are not in the source: the
connections that were registered when the scan began and have been ever since, and what the scan
has handed to `enqueueRecoveryBatch`. -/
structure Scan where
  epoch : Nat := 0
  remaining : Nat := 0
  ticking : Bool := false
  began : List Nat := []
  handed : List Nat := []

structure World where
  registry : SessionRegistry := {}
  phase : Nat → Phase := fun _ => .bound 0
  /-- `conn.owner`. -/
  owner : Nat → Int := fun _ => 0
  /-- What deliveries have read with `Conns`: a user and one of the connections. -/
  seen : List (Int × Nat) := []
  /-- The pushes that failed and whose connections are still to be removed. -/
  failed : List (Int × Nat) := []
  /-- The last `onStatusChange` callback for each user. -/
  status : Int → Option Bool := fun _ => none
  clock : DialogFilterClock := {}
  scan : Scan := {}

inductive Action : Type where
  /-- `bind(userID)` on a connection, up to the end of `setOwner`. -/
  | bind (c : Nat) (userID : Int)
  | remove (c : Nat)
  | check (c : Nat)
  | goOffline (c : Nat)
  | add (c : Nat)
  | disown (c : Nat)
  | goOnline (c : Nat)
  /-- A delivery reads a user's connections. -/
  | snapshot (u : Int)
  /-- Its push to one of them fails on the transport. -/
  | fail (u : Int) (c : Nat)
  /-- `handlePushFailure`. -/
  | evict (u : Int) (c : Nat)
  | candidates (limit : Nat)
  /-- A folder invalidation draws its generation. -/
  | invalidate
  | listenerReconnected
  /-- A tick of the sweep looks at the epoch. -/
  | tick
  /-- The tick asks for candidates and hands them over. -/
  | sweep
deriving DecidableEq

def dialogFilterRecoveryBatch : Nat := 64

namespace World

def setPhase (w : World) (c : Nat) (p : Phase) : World :=
  { w with phase := Function.update w.phase c p }

def setOwner (w : World) (c : Nat) (userID : Int) : World :=
  { w with owner := Function.update w.owner c userID }

def setStatus (w : World) (u : Int) (online : Bool) : World :=
  { w with status := Function.update w.status u (some online) }

def removeConn (w : World) (u : Int) (c : Nat) : World :=
  { w with
    registry := w.registry.remove u c
    scan := { w.scan with
      began := if c ∈ w.registry.conns u then w.scan.began.erase c else w.scan.began } }

/-- The first half of `recoverDialogFilters`: a new epoch starts a scan of as many connections as
there are. -/
def tick (w : World) : World :=
  if w.clock.globalEpoch ≠ w.scan.epoch then
    { w with scan := {
      epoch := w.clock.globalEpoch
      remaining := w.registry.totalConns.toNat
      ticking := true
      began := w.registry.registered } }
  else { w with scan := { w.scan with ticking := true } }

def sweep (w : World) : World :=
  if w.scan.remaining > 0 then
    let limit := min dialogFilterRecoveryBatch w.scan.remaining
    let (candidates, registry) := w.registry.dialogFilterRecoveryCandidates limit
    { w with
      registry
      scan := { w.scan with
        ticking := false
        remaining := if candidates.length < limit then 0 else w.scan.remaining - candidates.length
        handed := w.scan.handed ++ candidates } }
  else { w with scan := { w.scan with ticking := false } }

def step (w : World) : Action → Option World
  | .bind c userID =>
    match w.phase c with
    | .bound reg =>
      if userID = reg then none
      else some ((w.setOwner c userID).setPhase c
        (if reg = 0 then .cleared userID else .owned reg userID))
    | _ => none
  | .remove c =>
    match w.phase c with
    | .owned reg userID => some ((w.removeConn reg c).setPhase c (.removed reg userID))
    | _ => none
  | .check c =>
    match w.phase c with
    | .removed reg userID =>
      some (w.setPhase c
        (if w.registry.conns reg = [] then .offline reg userID else .cleared userID))
    | _ => none
  | .goOffline c =>
    match w.phase c with
    | .offline reg userID => some ((w.setStatus reg false).setPhase c (.cleared userID))
    | _ => none
  | .add c =>
    match w.phase c with
    | .cleared userID =>
      if userID = 0 then some (w.setPhase c (.bound 0))
      else match w.registry.add userID c with
        | (true, registry) => some ({ w with registry }.setPhase c (.added userID))
        | (false, _) => some (w.setPhase c .refused)
    | _ => none
  | .disown c =>
    match w.phase c with
    | .refused => some ((w.setOwner c 0).setPhase c (.bound 0))
    | _ => none
  | .goOnline c =>
    match w.phase c with
    | .added userID => some ((w.setStatus userID true).setPhase c (.bound userID))
    | _ => none
  | .snapshot u => some { w with seen := w.seen ++ (w.registry.conns u).map fun c => (u, c) }
  | .fail u c =>
    -- the push checks the owner under the write lock before it writes
    if (u, c) ∈ w.seen ∧ w.owner c = u then some { w with failed := (u, c) :: w.failed } else none
  | .evict u c =>
    if (u, c) ∈ w.failed then some { w.removeConn u c with failed := w.failed.erase (u, c) }
      else none
  | .candidates limit =>
    some { w with registry := (w.registry.dialogFilterRecoveryCandidates limit).2 }
  | .invalidate => some { w with clock := w.clock.next }
  | .listenerReconnected => some { w with clock := w.clock.listenerReconnected }
  | .tick => if w.scan.ticking then none else some w.tick
  | .sweep => if w.scan.ticking then some w.sweep else none

inductive Steps (w : World) : Action → World → Prop where
  | bind {c reg userID} (hc : w.phase c = .bound reg) : w.Steps (.bind c userID)
      ((w.setOwner c userID).setPhase c (if reg = 0 then .cleared userID else .owned reg userID))
  | remove {c reg userID} (hc : w.phase c = .owned reg userID) :
      w.Steps (.remove c) ((w.removeConn reg c).setPhase c (.removed reg userID))
  | check {c reg userID} (hc : w.phase c = .removed reg userID) : w.Steps (.check c)
      (w.setPhase c (if w.registry.conns reg = [] then .offline reg userID else .cleared userID))
  | goOffline {c reg userID} (hc : w.phase c = .offline reg userID) :
      w.Steps (.goOffline c) ((w.setStatus reg false).setPhase c (.cleared userID))
  | unbound {c} (hc : w.phase c = .cleared 0) : w.Steps (.add c) (w.setPhase c (.bound 0))
  | added {c userID registry} (hc : w.phase c = .cleared userID) (hne : userID ≠ 0)
      (hadd : w.registry.add userID c = (true, registry)) :
      w.Steps (.add c) ({ w with registry }.setPhase c (.added userID))
  | refused {c userID} (hc : w.phase c = .cleared userID) : w.Steps (.add c) (w.setPhase c .refused)
  | disown {c} (hc : w.phase c = .refused) :
      w.Steps (.disown c) ((w.setOwner c 0).setPhase c (.bound 0))
  | goOnline {c userID} (hc : w.phase c = .added userID) :
      w.Steps (.goOnline c) ((w.setStatus userID true).setPhase c (.bound userID))
  | snapshot (u) : w.Steps (.snapshot u)
    { w with seen := w.seen ++ (w.registry.conns u).map fun c => (u, c) }
  | fail (u c) : w.Steps (.fail u c) { w with failed := (u, c) :: w.failed }
  | evict (u c) : w.Steps (.evict u c) { w.removeConn u c with failed := w.failed.erase (u, c) }
  | candidates (limit) : w.Steps (.candidates limit)
      { w with registry := (w.registry.dialogFilterRecoveryCandidates limit).2 }
  | invalidate : w.Steps .invalidate { w with clock := w.clock.next }
  | listenerReconnected :
    w.Steps .listenerReconnected { w with clock := w.clock.listenerReconnected }
  | tick : w.Steps .tick w.tick
  | sweep : w.Steps .sweep w.sweep

theorem steps_of_step {w w' : World} {a : Action} (hs : w.step a = some w') : w.Steps a w' := by
  cases a
  case bind =>
    simp only [step] at hs
    split at hs
    · split at hs <;> cases hs
      exact .bind ‹_›
    · cases hs
  case add =>
    simp only [step] at hs
    split at hs
    · split at hs
      · cases hs
        exact .unbound (by simp_all)
      · split at hs <;> cases hs
        · exact .added ‹_› ‹_› ‹_›
        · exact .refused ‹_›
    · cases hs
  case remove | check | goOffline | disown | goOnline =>
    simp only [step] at hs
    split at hs <;> cases hs
    constructor
    assumption
  case fail | evict | tick | sweep =>
    simp only [step] at hs
    split at hs <;> cases hs
    constructor
  all_goals
    cases hs
    constructor

end World

def machine : Machine World Action := ⟨World.step⟩

end TelegramServer.Sessions
