import Mathlib
import TelegramServer.Conc.Machine

/-!
# Folder invalidations

`api/dialog_filter_sync.go` and the connection's side of it in `mtproto/send.go`: which
folder invalidations a connection has yet to fetch, and the bounded pushes that remind it.
The state of a connection is one immutable record that every operation replaces by
compare-and-swap, so each operation here is one atomic update of it.
-/

namespace TelegramServer.Sessions

/-- The replica's `uint64` counters, in runs of fewer than `2 ^ 64` draws. -/
structure DialogFilterClock where
  sequence : Nat := 0
  globalEpoch : Nat := 0
deriving DecidableEq

namespace DialogFilterClock

/-- `next`: the generation that an invalidation draws is the new `sequence`. -/
def next (clock : DialogFilterClock) : DialogFilterClock :=
  { clock with sequence := clock.sequence + 1 }

def listenerReconnected (clock : DialogFilterClock) : DialogFilterClock :=
  { sequence := clock.sequence + 1, globalEpoch := clock.sequence + 1 }

end DialogFilterClock

structure DialogFilterRecovery where
  owner : Int := 0
  session : Int := 0
  generation : Nat := 0
  covered : Nat := 0
  initialized : Bool := false
  firstDifference : Bool := false
  pushEligible : Bool := false
  cycle : Bool := false
  attempts : Nat := 0
  nextAttempt : Option Int := none
  inFlight : Bool := false
  claimID : Nat := 0
deriving DecidableEq

namespace DialogFilterRecovery

def reset (owner session : Int) : DialogFilterRecovery :=
  { owner, session, firstDifference := true }

/-- The record is about this owner and session and has been initialized. -/
def binds (state : DialogFilterRecovery) (owner session : Int) : Bool :=
  state.owner = owner ∧ state.session = session ∧ state.initialized

/-- An invalidation, or the replica's epoch, is not covered. -/
def pending (state : DialogFilterRecovery) (globalEpoch : Nat) : Bool :=
  max state.generation globalEpoch > state.covered

def ensureBinding (state : DialogFilterRecovery) (owner session : Int) (initialCoverage : Nat) :
    DialogFilterRecovery :=
  if state.binds owner session then state
  else { owner, session, covered := initialCoverage, initialized := true, firstDifference := true }

/-- `MarkDialogFilterRecovery`; `none` where it reports false. -/
def mark (state : DialogFilterRecovery) (owner session : Int) (generation globalEpoch : Nat) :
    Option DialogFilterRecovery :=
  if state.owner ≠ owner ∨ state.session ≠ session then none
  else
    let next := if state.initialized then state
      else { owner, session, covered := max (generation - 1) globalEpoch, initialized := true
             firstDifference := true }
    let marked := { next with generation := max next.generation generation }
    if next.pending globalEpoch = false ∧ marked.pending globalEpoch = true then
      some { marked with cycle := false, attempts := 0, nextAttempt := none }
    else some marked

def acknowledgeFetch (state : DialogFilterRecovery) (owner session : Int)
    (captured globalEpoch : Nat) : DialogFilterRecovery :=
  if state.binds owner session then
    let next := { state with covered := max state.covered captured, pushEligible := true }
    if next.pending globalEpoch then next
    else
      { next with
        cycle := false, attempts := 0, nextAttempt := none, inFlight := false, claimID := 0 }
  else state

def acknowledgeDifference (state : DialogFilterRecovery) (owner session : Int)
    (consumeFirst : Bool) : DialogFilterRecovery :=
  if consumeFirst ∧ state.binds owner session ∧ state.firstDifference then
    { state with firstDifference := false, pushEligible := true }
  else state

/-- `ClaimDialogFilterRecoveryAttempt` with the id that the connection's counter gave; `none` where
it reports false. -/
def claimAttempt (state : DialogFilterRecovery) (owner session : Int) (globalEpoch : Nat)
    (now : Int) (claimID : Nat) : Option DialogFilterRecovery :=
  if state.binds owner session = false ∨ state.pushEligible = false ∨ state.inFlight then none
  else if state.pending globalEpoch = false ∨ state.attempts ≥ 3 then none
  else if state.attempts > 0 ∧ state.nextAttempt.any (now < ·) then none
  else some { state with
    cycle := true
    attempts := state.attempts + 1
    inFlight := true
    claimID
    nextAttempt := match state.attempts + 1 with
      | 1 => some (now + 20)
      | 2 => some (now + 40)
      | _ => none }

/-- The claim is the one that the record holds for this owner and session. -/
def claimed (state : DialogFilterRecovery) (owner session : Int) (claimID : Nat) : Bool :=
  state.owner = owner ∧ state.session = session ∧ state.inFlight ∧ state.claimID = claimID

def finishAttempt (state : DialogFilterRecovery) (owner session : Int) (claimID : Nat) :
    DialogFilterRecovery :=
  if state.claimed owner session claimID then { state with inFlight := false, claimID := 0 }
    else state

variable {state next : DialogFilterRecovery} {owner session now : Int} {epoch g id : Nat}

theorem binds_iff : state.binds owner session ↔
    state.owner = owner ∧ state.session = session ∧ state.initialized := by
  simp [binds]

theorem pending_iff : state.pending epoch ↔ state.covered < max state.generation epoch := by
  simp [pending]

theorem ensureBinding_of_binds (h : state.binds owner session) :
    state.ensureBinding owner session g = state := if_pos h

theorem mark_initialized (h : state.mark owner session g epoch = some next)
    (hinit : state.initialized) :
    next.owner = state.owner ∧ next.session = state.session ∧ next.initialized ∧
      next.covered = state.covered ∧ next.generation = max state.generation g ∧
      next.inFlight = state.inFlight ∧ next.claimID = state.claimID ∧
      next.attempts ≤ state.attempts ∧
      (state.pending epoch → next.attempts = state.attempts) := by
  unfold mark at h
  obtain ⟨-, h⟩ := Option.ite_none_left_eq_some.mp h
  simp only [hinit, if_true] at h
  split at h
  · rename_i hreset
    cases h
    exact ⟨rfl, rfl, rfl, rfl, rfl, rfl, rfl, Nat.zero_le _, by simp [hreset.1]⟩
  · cases h
    exact ⟨rfl, rfl, rfl, rfl, rfl, rfl, rfl, Nat.le_refl _, fun _ => rfl⟩

theorem mark_uninitialized (h : state.mark owner session g epoch = some next)
    (hinit : state.initialized = false) :
    next.initialized ∧ next.covered = max (g - 1) epoch ∧ next.generation = g ∧
      next.inFlight = false ∧ next.attempts = 0 := by
  unfold mark at h
  obtain ⟨-, h⟩ := Option.ite_none_left_eq_some.mp h
  simp only [hinit, if_false, Bool.false_eq_true] at h
  split at h <;> obtain rfl := Option.some.inj h <;> simp

/-- An acknowledgement covers what was captured; it gives up the claim and the attempts only where
nothing is pending then. -/
theorem acknowledgeFetch_binds (g epoch : Nat) (h : state.binds owner session) :
    let next := state.acknowledgeFetch owner session g epoch
    next.binds owner session ∧ next.covered = max state.covered g ∧
      next.generation = state.generation ∧
      (next.pending epoch → next.inFlight = state.inFlight ∧ next.claimID = state.claimID ∧
        next.attempts = state.attempts) ∧
      (next.pending epoch = false → next.inFlight = false ∧ next.attempts = 0) := by
  have hb := binds_iff.mp h
  simp only [acknowledgeFetch, h, if_true]
  split
  · simp_all [binds, pending]
  · simp_all only [pending, binds, decide_true, and_self, decide_eq_true_eq, Nat.not_lt,
      decide_eq_false_iff_not, true_and, imp_self, and_true]
    omega

theorem claimAttempt_eq_some (h : state.claimAttempt owner session epoch now id = some next) :
    state.binds owner session ∧ state.inFlight = false ∧ state.pending epoch ∧ state.attempts < 3 ∧
      next.binds owner session ∧ next.covered = state.covered ∧
      next.generation = state.generation ∧ next.inFlight ∧ next.claimID = id ∧
      next.attempts = state.attempts + 1 := by
  unfold claimAttempt at h
  obtain ⟨hfree, h⟩ := Option.ite_none_left_eq_some.mp h
  obtain ⟨hdue, h⟩ := Option.ite_none_left_eq_some.mp h
  obtain ⟨-, h⟩ := Option.ite_none_left_eq_some.mp h
  cases h
  simp only [not_or, Bool.not_eq_false, Bool.not_eq_true, ge_iff_le, Nat.not_le] at hfree hdue
  exact ⟨hfree.1, hfree.2.2, hdue.1, hdue.2, hfree.1, rfl, rfl, rfl, rfl, rfl⟩

end DialogFilterRecovery

/-! ## Recovery on one connection

The replica's clock and one connection, with everything that can happen to its recovery
record: invalidations that draw a generation and mark it later, fetches that capture the
clock before they read and acknowledge afterwards, the sweep's claims with their
asynchronous pushes, and rebinding. A clock that was read earlier may be used at any later
time. -/

open Conc

structure Capture where
  owner : Int := 0
  session : Int := 0
  generation : Nat := 0
  firstDifference : Bool := false
  pending : Bool := false
deriving DecidableEq

/-- A claimed push: what the sweep's goroutine was given, and which binding of the connection it
was granted in (not in the source). -/
structure Claim where
  owner : Int
  session : Int
  claimID : Nat
  binding : Nat
deriving DecidableEq

/-- Who holds the connection's `writeMu`. -/
inductive WriteLock : Type where
  | free
  /-- A change of owner, session or key, before it has reset the recovery record. -/
  | rebinding
  /-- A recovery push that passed its checks. -/
  | writing (claim : Claim)
deriving DecidableEq

structure Folder where
  clock : DialogFilterClock := {}
  owner : Int := 0
  sessionID : Int := 0
  authKeyID : Int := 0
  /-- `dialogFilterRecovery`. -/
  recovery : DialogFilterRecovery := .reset 0 0
  /-- `dialogFilterRecoveryClaim`, a `uint64`: fewer than `2 ^ 64` claims. -/
  claimCounter : Nat := 0
  lock : WriteLock := .free
  /-- The clocks that some operation has read. -/
  loads : List DialogFilterClock := []
  /-- The clocks that invalidations have got from `next`. -/
  drawn : List DialogFilterClock := []
  captures : List Capture := []
  /-- The pushes that were claimed and have not finished. -/
  claims : List Claim := []
  /-- The changes of owner or session so far; not in the source. -/
  bindings : Nat := 0
  /-- The claims whose push was written, with the binding it was written in; not in the source. -/
  written : List (Claim × Nat) := []
deriving DecidableEq

inductive FolderAction : Type where
  /-- Any operation reads the clock. -/
  | load
  /-- `OwnerInvalidation` or `RequesterRepair` draws. -/
  | draw
  | listenerReconnected
  | ensureBinding (clock : DialogFilterClock) (owner session : Int)
  /-- The end of `Capture`. -/
  | capture (clock : DialogFilterClock) (owner session : Int)
  | mark (drawn : DialogFilterClock) (owner session : Int)
  | acknowledgeFetch (captured : Capture) (clock : DialogFilterClock) (owner session : Int)
  | acknowledgeDifference (owner session : Int) (consumeFirst : Bool)
  /-- The sweep claims; `lost` is how many ids it used up on lost swaps. -/
  | claim (clock : DialogFilterClock) (owner session now : Int) (lost : Nat)
  /-- `PushDialogFilterRecovery` takes the write lock. -/
  | push (claim : Claim)
  /-- Its write has ended. -/
  | pushed
  | finish (claim : Claim)
  | setOwner (userID : Int)
  | setSession (id : Int)
  | setKey (keyID : Int)
  /-- The end of a rebinding. -/
  | reset

namespace Folder

/-- `Capture` after it has read the clock and ensured the binding. -/
def captured (s : Folder) (clock : DialogFilterClock) (owner session : Int) : Capture :=
  if s.recovery.binds owner session then
    { owner, session
      generation := max clock.sequence clock.globalEpoch
      firstDifference := s.recovery.firstDifference
      pending := s.recovery.pending clock.globalEpoch }
  else {}

/-- What `PushDialogFilterRecovery` checks under the write lock. -/
def current (s : Folder) (c : Claim) : Bool :=
  s.owner = c.owner ∧ s.sessionID = c.session ∧ s.recovery.initialized ∧
    s.recovery.claimed c.owner c.session c.claimID

def step (s : Folder) : FolderAction → Option Folder
  | .load => some { s with loads := s.clock :: s.loads }
  | .draw => some { s with clock := s.clock.next, drawn := s.clock.next :: s.drawn }
  | .listenerReconnected => some { s with clock := s.clock.listenerReconnected }
  | .ensureBinding clock owner session =>
    if clock ∈ s.loads ∧ owner ≠ 0 then
      some { s with recovery := s.recovery.ensureBinding owner session clock.sequence }
    else none
  | .capture clock owner session =>
    if clock ∈ s.loads ∧ owner ≠ 0 then
      some { s with captures := s.captured clock owner session :: s.captures }
    else none
  | .mark drawn owner session =>
    if drawn ∈ s.drawn ∧ owner ≠ 0 then
      (s.recovery.mark owner session drawn.sequence drawn.globalEpoch).map fun recovery =>
        { s with recovery }
    else none
  | .acknowledgeFetch captured clock owner session =>
    if captured ∈ s.captures ∧ clock ∈ s.loads ∧ captured.owner = owner ∧
        captured.session = session then
      some { s with
        recovery :=
      s.recovery.acknowledgeFetch owner session captured.generation clock.globalEpoch }
    else none
  | .acknowledgeDifference owner session consumeFirst =>
    some { s with recovery := s.recovery.acknowledgeDifference owner session consumeFirst }
  | .claim clock owner session now lost =>
    let claimID := s.claimCounter + lost + 1
    if clock ∈ s.loads ∧ owner > 0 then
      (s.recovery.claimAttempt owner session clock.globalEpoch now claimID).map fun recovery =>
        { s with
          recovery
          claimCounter := claimID
          claims := { owner, session, claimID, binding := s.bindings } :: s.claims }
    else none
  | .push c =>
    if c ∈ s.claims ∧ s.lock = .free then
      some (if s.current c then
        { s with lock := .writing c, written := (c, s.bindings) :: s.written } else s)
    else none
  | .pushed =>
    match s.lock with
    | .writing _ => some { s with lock := .free }
    | _ => none
  | .finish c =>
    if c ∈ s.claims then
      some { s with
        recovery := s.recovery.finishAttempt c.owner c.session c.claimID
        claims := s.claims.erase c }
    else none
  | .setOwner userID =>
    if s.lock = .free ∧ s.owner ≠ userID then
      some { s with owner := userID, bindings := s.bindings + 1, lock := .rebinding }
    else none
  | .setSession id =>
    if s.lock = .free ∧ s.sessionID ≠ id then
      some { s with sessionID := id, bindings := s.bindings + 1, lock := .rebinding }
    else none
  | .setKey keyID =>
    if s.lock = .free ∧ s.authKeyID ≠ keyID then
      some { s with authKeyID := keyID, lock := .rebinding }
    else none
  | .reset =>
    if s.lock = .rebinding then
      some { s with recovery := .reset s.owner s.sessionID, lock := .free }
    else none

end Folder

def folderMachine : Machine Folder FolderAction := ⟨Folder.step⟩

def FolderReached (s : Folder) : Prop :=
  folderMachine.Reach free {} s

end TelegramServer.Sessions
