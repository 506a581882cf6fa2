import Omoikane.Base.Greatest
import Omoikane.Base.Run

/-!
# The resource queue

Owners submit jobs to a queue whose handles share one pool of workers.  Each
access to the state behind the mutex, each look at a cancellation token, the call
of a job's work, its return and each send on a channel is one action, and the
actions of owners and workers come in any order.  What the work of a job returns
is part of the action, so a run stands for any work.

The state the mutex guards is `State`; a `System` is that state with everything
else the actions touch.
-/

namespace Omoikane.Resource

open Base

/-! ## Jobs -/

/-- Scheduling priority. -/
inductive ResourcePriority where
  | background
  | normal
  | critical
deriving DecidableEq, Repr

/-- The order of the priorities. -/
def ResourcePriority.rank : ResourcePriority → Nat
  | .background => 0
  | .normal => 1
  | .critical => 2

instance : LinearOrder ResourcePriority :=
  LinearOrder.lift' ResourcePriority.rank fun p q h => by
    cases p <;> cases q <;> first | rfl | cases h

/-- Resource category. -/
inductive ResourceKind where
  | stylesheet
  | font
  | image
  | script
  | other
deriving DecidableEq, Repr

/-- Terminal outcome of one submitted job. -/
inductive ResourceOutcome (T : Type) where
  | complete (value : T)
  | cancelled
  | panicked

/-- A document's cancellation lifetime. -/
abbrev ResourceScope := Nat

/-- The two ends of a completion channel. -/
abbrev Channel := Nat

/-- A waker of an owner. -/
abbrev Waker := Nat

/-- Completion handle of a job. -/
structure ResourceTask where
  id : Nat
  kind : ResourceKind
  receiver : Channel
deriving DecidableEq

/-- What the closure of a job holds beside the work itself. -/
structure Work where
  token : ResourceScope
  sender : Channel
  waker : Option Waker
deriving DecidableEq

/-- A queued job. -/
structure Queued where
  priority : ResourcePriority
  id : Nat
  work : Work
deriving DecidableEq

/-- `cmp`: by priority, and earlier submissions first. -/
def Queued.cmp (job other : Queued) : Ordering :=
  (compare job.priority other.priority).then (compare other.id job.id)

/-- What the mutex guards. -/
structure State where
  jobs : List Queued
  nextId : Nat
  started : Bool
  stopped : Bool

/-- `default`. -/
def State.default : State := { jobs := [], nextId := 0, started := false, stopped := false }

/-! ## Workers -/

/-- How far the closure of a job has come. -/
inductive Stage (T : Type) where
  /-- Taken from the queue. -/
  | taken
  /-- The work has been called. -/
  | working
  /-- The work has returned, or panicked. -/
  | returned (result : Option T)
  | decided (outcome : ResourceOutcome T)

/-- A worker thread. -/
inductive Worker (T : Type) where
  /-- At the head of its loop. -/
  | idle
  | exited
  | busy (job : Queued) (stage : Stage T)

/-- Why a submission is refused. -/
inductive SubmitError where
  /-- "resource queue is stopped". -/
  | stopped
  /-- A thread could not be created. -/
  | spawn
  /-- "resource job identity exhausted". -/
  | exhausted
deriving DecidableEq, Repr

/-- What the actions report. -/
inductive Event (T : Type) where
  | submitted (job : Queued) (task : ResourceTask)
  | refused (error : SubmitError)
  | popped (job : Queued)
  | called (job : Queued)
  | sent (sender : Channel) (outcome : ResourceOutcome T)
  | woke (waker : Waker)

variable {T : Type}

/-- The end of the closure of a job: the outcome is sent, and then the owner woken. -/
def Queued.deliver (job : Queued) (outcome : ResourceOutcome T) : List (Event T) :=
  .sent job.work.sender outcome :: (job.work.waker.map .woke).toList

/-- One step of `(job.work)(true)`; `result` is what the work returns, if it does so now. -/
def Worker.advance (cancelled : Bool) (result : Option T) (job : Queued) :
    Stage T → Worker T × List (Event T)
  | .taken =>
    if cancelled then (.busy job (.decided .cancelled), [])
    else (.busy job .working, [.called job])
  | .working => (.busy job (.returned result), [])
  | .returned (some value) =>
    if cancelled then (.busy job (.decided .cancelled), [])
    else (.busy job (.decided (.complete value)), [])
  | .returned none => (.busy job (.decided .panicked), [])
  | .decided outcome => (.idle, job.deliver outcome)

/-! ## The system -/

/-- A queue with its owners and workers. -/
structure System (T : Type) where
  state : State
  /-- The threads that have been created. -/
  workers : List (Worker T)
  /-- How many workers the pool is configured for. -/
  limit : Nat
  /-- How many handles of the queue there are. -/
  handles : Nat
  /-- The jobs that the drop of the pool has taken and not yet ended. -/
  draining : List Queued
  /-- The scopes that were cancelled or dropped. -/
  cancelled : List ResourceScope
  /-- How many channels were created. -/
  channels : Nat

namespace System

/-- `new`. -/
def new (limit : Nat) : System T where
  state := .default
  workers := []
  limit
  handles := 1
  draining := []
  cancelled := []
  channels := 0

variable (system : System T)

/-- `is_cancelled` of the token of a job. -/
def isCancelled (job : Queued) : Bool := system.cancelled.contains job.work.token

/-- The threads created before one of them fails. -/
def spawned (spawns : Nat → Bool) : List Nat := (List.range system.limit).takeWhile spawns

/-- The start of the workers at the first submission; `spawns` says which threads
can be created. -/
def start (spawns : Nat → Bool) : System T × Bool :=
  if system.state.started then (system, true)
  else
    let created := system.spawned spawns
    let failed := created.length ≠ system.limit
    ({ system with
        workers := system.workers ++ created.map fun _ => .idle
        state := { system.state with started := true, stopped := failed } }, !failed)

/-- The job of a submission is queued. -/
def push (scope : ResourceScope) (priority : ResourcePriority) (kind : ResourceKind)
    (waker : Option Waker) : System T × Except SubmitError (Queued × ResourceTask) :=
  let id := system.state.nextId
  if id = 2 ^ 64 - 1 then (system, .error .exhausted)
  else
    let job : Queued :=
      { priority, id, work := { token := scope, sender := system.channels, waker } }
    ({ system with
        state := { system.state with nextId := id + 1, jobs := job :: system.state.jobs }
        channels := system.channels + 1 },
      .ok (job, { id, kind, receiver := system.channels }))

/-- `submit_inner`. -/
def submit (scope : ResourceScope) (priority : ResourcePriority) (kind : ResourceKind)
    (waker : Option Waker) (spawns : Nat → Bool) :
    System T × Except SubmitError (Queued × ResourceTask) :=
  if system.state.stopped then (system, .error .stopped)
  else
    let (started, ok) := system.start spawns
    if ok then started.push scope priority kind waker else (started, .error .spawn)

/-- The drop of the pool: the queue is stopped and its jobs are taken. -/
def dropPool : System T :=
  { system with
    state := { system.state with stopped := true, jobs := [] }
    draining := system.draining ++ system.state.jobs }

/-- The head of the loop of `worker`. -/
def next : State × Worker T × List (Event T) :=
  if system.state.stopped then (system.state, .exited, [])
  else match takeGreatest Queued.cmp system.state.jobs with
    | none => (system.state, .idle, [])
    | some (job, jobs) => ({ system.state with jobs }, .busy job .taken, [.popped job])

/-- What owners and workers can do next. -/
inductive Action (T : Type) where
  | submit (scope : ResourceScope) (priority : ResourcePriority) (kind : ResourceKind)
      (waker : Option Waker) (spawns : Nat → Bool)
  /-- A handle is cloned. -/
  | clone
  /-- A handle is dropped. -/
  | drop
  /-- A scope is cancelled or dropped. -/
  | cancel (scope : ResourceScope)
  /-- A worker goes on; `result` is what its work returns, if it does so now. -/
  | work (worker : Nat) (result : Option T)
  /-- The drop of the pool ends one of the jobs it has taken. -/
  | drain (index : Nat)

/-- A worker goes on. -/
def work (worker : Nat) (result : Option T) : System T × List (Event T) :=
  match system.workers[worker]? with
  | none | some .exited => (system, [])
  | some .idle =>
    let (state, next, events) := system.next
    ({ system with state, workers := system.workers.set worker next }, events)
  | some (.busy job stage) =>
    let (next, events) := Worker.advance (system.isCancelled job) result job stage
    ({ system with workers := system.workers.set worker next }, events)

/-- An action and what it reports; an action that is not possible changes nothing. -/
def act : Action T → System T × List (Event T)
  | .submit scope priority kind waker spawns =>
    if system.handles = 0 then (system, [])
    else match system.submit scope priority kind waker spawns with
      | (system, .ok (job, task)) => (system, [.submitted job task])
      | (system, .error error) => (system, [.refused error])
  | .clone =>
    if system.handles = 0 then (system, [])
    else ({ system with handles := system.handles + 1 }, [])
  | .drop =>
    match system.handles with
    | 0 => (system, [])
    | 1 => ({ system.dropPool with handles := 0 }, [])
    | handles + 2 => ({ system with handles := handles + 1 }, [])
  | .cancel scope => ({ system with cancelled := scope :: system.cancelled }, [])
  | .work worker result => system.work worker result
  | .drain index =>
    match system.draining[index]? with
    | none => (system, [])
    | some job =>
      ({ system with draining := system.draining.eraseIdx index }, job.deliver .cancelled)

/-- The system after an action. -/
def step (action : Action T) : System T := (system.act action).1

/-- What an action reports. -/
def emits (action : Action T) : List (Event T) := (system.act action).2

end System

end Omoikane.Resource
