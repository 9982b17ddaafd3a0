import TelegramServer.Conc.Machine

/-!
# The notification scheduler

`store/notify_scheduler.go`: callbacks wait in one lane per key, and the lanes that have
work pass through the `ready` channel to a fixed set of workers. Lanes are shared by
pointer, so they live in a heap and the map, the channel and the workers hold addresses.
-/

namespace TelegramServer.Notify

def notificationWorkerCount : Nat := 8

/-- The capacity of `ready`, the most lanes at a time, and the shared bound on waiting tasks. -/
def notificationQueueLimit : Nat := 256

def notificationLanePendingLimit : Nat := 32

/-- `notificationTask`; a nil context or callback is `none`. -/
structure Task (C R : Type) where
  ctx : Option C
  run : Option R
  coalesce : Bool
  /-- Which call of `submit` brought the task; not in the source. -/
  ticket : Nat := 0
deriving DecidableEq

def Task.inContext {C R : Type} (task : Task C R) (ctx : C) : Task C R :=
  { task with ctx := some (task.ctx.getD ctx) }

structure Lane (K C R : Type) where
  key : K
  queued : Bool := false
  running : Bool := false
  pending : List (Task C R) := []

variable {K C R : Type}

/-- The task that `task` takes the place of: the last waiting one, if both may be coalesced. -/
def Lane.coalesced (lane : Lane K C R) (task : Task C R) : Option (Task C R) :=
  if task.coalesce then lane.pending.getLast?.filter (·.coalesce) else none

/-- `notificationScheduler`. `lanes` holds the values of the source's map; a lane's key never
changes, so it is the key that the lane is stored under. -/
structure Scheduler (K C R : Type) where
  ctx : C
  cancelled : Bool := false
  heap : Nat → Lane K C R
  fresh : Nat := 0
  lanes : List Nat := []
  pending : Int := 0
  ready : List Nat := []

def newNotificationScheduler [Inhabited K] (ctx : C) : Scheduler K C R :=
  { ctx, heap := fun _ => { key := default } }

namespace Scheduler

def lookup [DecidableEq K] (s : Scheduler K C R) (key : K) : Option Nat :=
  s.lanes.find? fun p => (s.heap p).key = key

def delete [DecidableEq K] (s : Scheduler K C R) (key : K) : Scheduler K C R :=
  { s with lanes := s.lanes.filter fun p => (s.heap p).key ≠ key }

def setLane (s : Scheduler K C R) (p : Nat) (lane : Lane K C R) : Scheduler K C R :=
  { s with heap := Function.update s.heap p lane }

def addLane (s : Scheduler K C R) (key : K) : Scheduler K C R :=
  { s with heap := Function.update s.heap s.fresh { key }, fresh := s.fresh + 1
           lanes := s.lanes ++ [s.fresh] }

end Scheduler

inductive Outcome : Type where
  | refused | coalesced | appended | queued
  /-- The `default` branch: `ready` had no room. -/
  | overflow
deriving DecidableEq

def Outcome.accepted : Outcome → Bool
  | .coalesced | .appended | .queued => true
  | .refused | .overflow => false

namespace Scheduler

def enqueue [DecidableEq K] (s : Scheduler K C R) (p : Nat) (newLane : Bool) (task : Task C R) :
    Outcome × Scheduler K C R :=
  let lane := s.heap p
  if (lane.coalesced task).isSome then
    (.coalesced, s.setLane p { lane with pending := lane.pending.dropLast ++ [task] })
  else if lane.pending.length ≥ notificationLanePendingLimit then (.refused, s)
  else if s.pending ≥ notificationQueueLimit ∧ newLane = false then
    (.refused, if lane.pending = [] ∧ lane.running = false ∧ lane.queued = false then
      s.delete lane.key else s)
  else
    let added := { lane with pending := lane.pending ++ [task] }
    let s := { s with pending := s.pending + 1 }
    if lane.running ∨ lane.queued then (.appended, s.setLane p added)
    else if s.ready.length < notificationQueueLimit then
      (.queued, { s.setLane p { added with queued := true } with ready := s.ready ++ [p] })
    else
      (.overflow,
        ({ s.setLane p { lane with queued := false } with pending := s.pending - 1 }).delete
        lane.key)

def submit [DecidableEq K] (s : Scheduler K C R) (key : K) (task : Task C R) :
    Outcome × Scheduler K C R :=
  let task := task.inContext s.ctx
  if s.cancelled ∨ task.run.isNone then (.refused, s)
  else match s.lookup key with
    | some p => s.enqueue p false task
    | none =>
      if s.lanes.length ≥ notificationQueueLimit then (.refused, s)
      else (s.addLane key).enqueue s.fresh true task

def next (s : Scheduler K C R) (p : Nat) : Option (Task C R) × Scheduler K C R :=
  let lane := s.heap p
  match s.cancelled, lane.queued, lane.pending with
  | false, true, task :: rest =>
    (some task, { s.setLane p { lane with pending := rest, queued := false, running := true } with
      pending := s.pending - 1 })
  | _, _, _ => (none, s)

/-- `finish` up to its unlock; the answer is whether the lane is then sent to `ready`. -/
def finish [DecidableEq K] (s : Scheduler K C R) (p : Nat) : Bool × Scheduler K C R :=
  let lane := { s.heap p with running := false }
  if s.cancelled ∨ lane.pending = [] then (false, (s.setLane p lane).delete lane.key)
  else (true, s.setLane p { lane with queued := true })

end Scheduler

/-! ## The scheduler with its workers and its callers -/

/-- Where one `worker` is: waiting at the channel, with a lane it has received, running a task,
back from it, or sending the lane that it has finished. -/
inductive Worker (C R : Type) : Type where
  | idle
  | received (p : Nat)
  | running (p : Nat) (task : Task C R)
  | returned (p : Nat)
  | sending (p : Nat)
  | exited
deriving DecidableEq

namespace Worker

def receives (p : Nat) : Worker C R → Bool
  | received q => q = p
  | _ => false

def sends (p : Nat) : Worker C R → Bool
  | sending q => q = p
  | _ => false

/-- The worker is between `next` and `finish` with the lane. -/
def works (p : Nat) : Worker C R → Bool
  | running q _ => q = p
  | returned q => q = p
  | _ => false

end Worker

/-- The scheduler, its workers, and what has happened: the key and the answer of every call of
`submit` (a task's ticket is its place in this list), the tickets that were started for a key,
and the replaced tasks of a key with the tasks that took their places. -/
structure Service (K C R : Type) where
  sched : Scheduler K C R
  workers : List (Worker C R)
  calls : List (K × Bool) := []
  started : K → List Nat := fun _ => []
  replaced : K → List (Task C R × Task C R) := fun _ => []

def Service.new [Inhabited K] (ctx : C) : Service K C R :=
  { sched := newNotificationScheduler ctx, workers := List.replicate notificationWorkerCount .idle }

/-- Who moves: a caller of `submit`, worker `i`, or whoever stops the scheduler. -/
inductive Action (K C R : Type) : Type where
  | submit (key : K) (task : Task C R)
  | receive (i : Nat)
  | next (i : Nat)
  | complete (i : Nat)
  | finish (i : Nat)
  | send (i : Nat)
  | quit (i : Nat)
  | stop

namespace Service

/-- The pending task that a call of `submit` would replace. -/
def replacing [DecidableEq K] (s : Service K C R) (key : K) (task : Task C R) : Option (Task C R) :=
  (s.sched.lookup key).bind fun p => (s.sched.heap p).coalesced task

def submit [DecidableEq K] (s : Service K C R) (key : K) (task : Task C R) : Service K C R :=
  let task := { task with ticket := s.calls.length }
  let (outcome, sched) := s.sched.submit key task
  { s with
    sched
    calls := s.calls ++ [(key, outcome.accepted)]
    replaced := if outcome = .coalesced then
        Function.update s.replaced key
          (s.replaced key ++ (s.replacing key task).toList.map fun old => (old, task))
      else s.replaced }

def setWorker (s : Service K C R) (i : Nat) (w : Worker C R) : Service K C R :=
  { s with workers := s.workers.set i w }

def next [DecidableEq K] (s : Service K C R) (i p : Nat) : Service K C R :=
  match s.sched.next p with
  | (some task, sched) =>
    { s.setWorker i (.running p task) with
      sched
      started := Function.update s.started (s.sched.heap p).key
        (s.started (s.sched.heap p).key ++ [task.ticket]) }
  | (none, sched) => { s.setWorker i .idle with sched }

def finish [DecidableEq K] (s : Service K C R) (i p : Nat) : Service K C R :=
  match s.sched.finish p with
  | (true, sched) => { s.setWorker i (.sending p) with sched }
  | (false, sched) => { s.setWorker i .idle with sched }

/-- One move. Workers' moves are split where others can come in between: a receive from
`ready` and `next`'s lock, the two ends of a task, `finish`'s unlock and its send. -/
def step [DecidableEq K] (s : Service K C R) : Action K C R → Option (Service K C R)
  | .submit key task => some (s.submit key task)
  | .receive i =>
    match s.workers[i]?, s.sched.ready with
    | some .idle, p :: ready =>
      some { s.setWorker i (.received p) with sched := { s.sched with ready } }
    | _, _ => none
  | .next i =>
    match s.workers[i]? with
    | some (.received p) => some (s.next i p)
    | _ => none
  | .complete i =>
    match s.workers[i]? with
    | some (.running p _) => some (s.setWorker i (.returned p))
    | _ => none
  | .finish i =>
    match s.workers[i]? with
    | some (.returned p) => some (s.finish i p)
    | _ => none
  | .send i =>
    match s.workers[i]? with
    | some (.sending p) =>
      if s.sched.ready.length < notificationQueueLimit then
        some { s.setWorker i .idle with sched := { s.sched with ready := s.sched.ready ++ [p] } }
      else none
    | _ => none
  | .quit i =>
    -- `<-s.ctx.Done()`, at the channel or instead of a send
    match s.sched.cancelled, s.workers[i]? with
    | true, some .idle => some (s.setWorker i .exited)
    | true, some (.sending _) => some (s.setWorker i .idle)
    | _, _ => none
  | .stop => some { s with sched := { s.sched with cancelled := true } }

end Service

def machine (K C R : Type) [DecidableEq K] : Conc.Machine (Service K C R) (Action K C R) :=
  ⟨Service.step⟩

def Action.live : Action K C R → Bool
  | .stop => false
  | _ => true

def Action.work : Action K C R → Bool
  | .submit _ _ | .stop => false
  | _ => true

/-- What the scheduler can come to before it is stopped. -/
def Reached [DecidableEq K] [Inhabited K] (ctx : C) (s : Service K C R) : Prop :=
  (machine K C R).Reach (fun _ a => a.live) (Service.new ctx) s

end TelegramServer.Notify
