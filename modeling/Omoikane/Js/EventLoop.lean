import Omoikane.Base.Bytes
import Omoikane.Base.Run
import Omoikane.Base.Table

/-!
# The event loop

Tasks wait in one FIFO queue for each task source, and `order` records the order
in which they were enqueued.  Animation-frame callbacks wait in a map, and a list
has the order of those whose frame has not begun.

JavaScript values, realms, requests and other data that the event loop only hands
on are the values of a type `V`.
-/

namespace Omoikane.Js

open Base

/-- The task source responsible for a queued task. -/
inductive TaskSource where
  | timer
  | domManipulation
  | userInteraction
  | networking
  | navigation
  | rendering
  | postedMessage
  | fileReading
  | fontLoading
  | geolocation
  | webLocks
deriving DecidableEq, Repr

def TaskSource.all : List TaskSource :=
  [.timer, .domManipulation, .userInteraction, .networking, .navigation, .rendering,
    .postedMessage, .fileReading, .fontLoading, .geolocation, .webLocks]

theorem TaskSource.mem_all (source : TaskSource) : source ∈ TaskSource.all := by
  cases source <;> decide

/-- What a timer runs. -/
inductive TimerPayload (V : Type) where
  | source (code : V)
  | callback (callback : V)
  | resourceLoad (nodeId : Nat)
  | scriptResourceReady (nodeId : Nat)
  | imageResourceEvent (nodeId : Nat) (event : V)
  | javascriptDocumentLoad (iframeId documentId : Nat)
  | iframeNavigationReady (nodeId epoch : Nat)
  | formSubmission (nodeId epoch : Nat) (submission : V)
  | geolocationTimeout (requestId : Nat)
  | realm (payload : TimerPayload V) (realm : V) (documentId : Nat)
deriving DecidableEq

/-- A queued task. -/
inductive Task (V : Type) where
  | timer (payload : TimerPayload V) (ownerDocumentId : Option Nat) (metadata : Option V)
  | geolocation (requestId : Nat)
  | webLock (documentId requestId : Nat) (stolen : Bool)
  | securityPolicyViolation (documentId : Nat) (elementId : Option Nat) (payload : V)
  | navigation (request : V)
  | auxiliaryNavigate (id : Nat) (request : V)
  | postedMessage (port data : V)
  | windowPostedMessage (targetDocumentId : Nat) (message : V)
  | broadcastChannelMessage (channelId : Nat) (message : V)
  | workerMessage (workerId : Nat) (message : V)
  | serviceWorkerLifecycle (workerId : Nat) (installing failed : Bool)
  | serviceWorkerRegistrationRequest (workerId : Nat) (request : V)
  | workerOwnerMessage (workerId : Nat) (message : V)
  | sharedWorkerMessage (connectionId : Nat) (message : V)
  | sharedWorkerOwnerMessage (connectionId : Nat) (message : V)
  | workerError (workerId : Nat) (owner realm : Option V) (report : V)
deriving DecidableEq

/-- A rendering callback with the browsing context that owns it. -/
structure AnimationFrameCallback (V : Type) where
  callback : V
  realm : Option V
  documentId : Option Nat
deriving DecidableEq

structure TimerTask (V : Type) where
  id : Nat
  payload : TimerPayload V
  ownerDocumentId : Option Nat
  metadata : Option V
  nextRunAt : Nat
  intervalMs : Nat
  repeats : Bool

structure EventLoop (V : Type) where
  nextTaskId : Nat
  queues : TaskSource → Option (List (Nat × Task V))
  order : List (Nat × TaskSource)
  nextTimerId : Nat
  nowMs : Nat
  timers : List (TimerTask V)
  nextAnimationFrameId : Nat
  animationFrameOrder : List Nat
  animationFrameCallbacks : Table Nat (AnimationFrameCallback V)

/-- The source of a timer task. -/
def TimerPayload.taskSource {V : Type} : TimerPayload V → TaskSource
  | .resourceLoad _ | .scriptResourceReady _ | .javascriptDocumentLoad _ _
  | .iframeNavigationReady _ _ | .formSubmission _ _ _ => .networking
  | .imageResourceEvent _ _ => .domManipulation
  | .geolocationTimeout _ => .geolocation
  | _ => .timer

/-- A task that `cancel_resource_loads_for_nodes` cancels. -/
def Task.loadsFor {V : Type} (nodeIds : List Nat) : Task V → Bool
  | .timer (.resourceLoad nodeId) _ _ | .timer (.imageResourceEvent nodeId _) _ _
  | .timer (.formSubmission nodeId _ _) _ _ | .timer (.iframeNavigationReady nodeId _) _ _
  | .timer (.javascriptDocumentLoad nodeId _) _ _ => nodeIds.contains nodeId
  | _ => false

/-- A task that `cancel_tasks_for_document` cancels. -/
def Task.ownedBy {V : Type} (documentId : Nat) : Task V → Bool
  | .timer _ (some owner) _ | .webLock owner _ _ | .securityPolicyViolation owner _ _ =>
    owner == documentId
  | _ => false

def Task.isNavigation {V : Type} : Task V → Bool
  | .navigation _ => true
  | _ => false

namespace EventLoop

variable {V : Type}

/-- `default`. -/
def new : EventLoop V where
  nextTaskId := 1
  queues := fun _ => none
  order := []
  nextTimerId := 1
  nowMs := 0
  timers := []
  nextAnimationFrameId := 0
  animationFrameOrder := []
  animationFrameCallbacks := []

/-- The tasks that wait in the queue of a source. -/
def queue (loop : EventLoop V) (source : TaskSource) : List (Nat × Task V) :=
  (loop.queues source).getD []

def setQueue (loop : EventLoop V) (source : TaskSource) (tasks : List (Nat × Task V)) :
    TaskSource → Option (List (Nat × Task V)) :=
  fun other => if other = source then some tasks else loop.queues other

/-! ## Tasks -/

/-- `enqueue`. -/
def enqueue (loop : EventLoop V) (source : TaskSource) (task : Task V) : EventLoop V :=
  { loop with
    nextTaskId := saturatingAdd loop.nextTaskId 1
    queues := loop.setQueue source (loop.queue source ++ [(loop.nextTaskId, task)])
    order := loop.order ++ [(loop.nextTaskId, source)] }

/-- `enqueue_timer_for_document_with_metadata`. -/
def enqueueTimerForDocumentWithMetadata (loop : EventLoop V) (payload : TimerPayload V)
    (ownerDocumentId : Option Nat) (metadata : Option V) : EventLoop V :=
  loop.enqueue payload.taskSource (.timer payload ownerDocumentId metadata)

/-- The ids of the queued tasks with a property. -/
def cancelledTaskIds (loop : EventLoop V) (cancelled : Task V → Bool) : List Nat :=
  TaskSource.all.flatMap fun source =>
    ((loop.queue source).filter fun entry => cancelled entry.2).map Prod.fst

/-- Drops the tasks with a property from the queues, and then their ids from the
order. -/
def cancelTasks (loop : EventLoop V) (cancelled : Task V → Bool) : EventLoop V :=
  let ids := loop.cancelledTaskIds cancelled
  { loop with
    queues := fun source => (loop.queues source).map (·.filter fun entry => !cancelled entry.2)
    order := loop.order.filter fun entry => !ids.contains entry.1 }

/-- `cancel_resource_loads_for_nodes`. -/
def cancelResourceLoadsForNodes (loop : EventLoop V) (nodeIds : List Nat) : EventLoop V :=
  loop.cancelTasks (Task.loadsFor nodeIds)

/-- The loop of `pop_task` over the order. -/
def popFrom (loop : EventLoop V) :
    List (Nat × TaskSource) → Option (TaskSource × Task V) × EventLoop V
  | [] => (none, { loop with order := [] })
  | (_, source) :: order =>
    match loop.queues source with
    | none => (none, { loop with order })
    | some [] => popFrom loop order
    | some ((_, task) :: tasks) =>
      (some (source, task), { loop with order, queues := loop.setQueue source tasks })

/-- `pop_task`. -/
def popTask (loop : EventLoop V) : Option (TaskSource × Task V) × EventLoop V :=
  loop.popFrom loop.order

/-- `pop_navigation_task`. -/
def popNavigationTask (loop : EventLoop V) : Option (Task V) × EventLoop V :=
  match loop.queues .navigation with
  | none => (none, loop)
  | some tasks =>
    match tasks.find? fun entry => entry.2.isNavigation with
    | none => (none, loop)
    | some (id, task) =>
      let queues := loop.setQueue .navigation (tasks.eraseP fun entry => entry.2.isNavigation)
      match loop.order.find? fun entry => entry.1 = id with
      | none => (none, { loop with queues })
      | some _ =>
        (some task, { loop with queues, order := loop.order.eraseP fun entry => entry.1 = id })

/-! ## Timers -/

/-- `schedule_timer_with_metadata`. -/
def scheduleTimerWithMetadata (loop : EventLoop V) (payload : TimerPayload V) (delayMs : Nat)
    (repeats : Bool) (ownerDocumentId : Option Nat) (metadata : Option V) : Nat × EventLoop V :=
  (loop.nextTimerId,
    { loop with
      nextTimerId := saturatingAdd loop.nextTimerId 1
      timers := loop.timers ++
        [{ id := loop.nextTimerId
           payload := payload
           ownerDocumentId := ownerDocumentId
           metadata := metadata
           nextRunAt := saturatingAdd loop.nowMs delayMs
           intervalMs := delayMs
           repeats := repeats }] })

/-- `clear_timer`. -/
def clearTimer (loop : EventLoop V) (id : Nat) : EventLoop V :=
  { loop with timers := loop.timers.filter fun timer => timer.id ≠ id }

/-- The order in which timers that are ready run. -/
def TimerTask.runsBefore (a b : TimerTask V) : Bool :=
  a.nextRunAt < b.nextRunAt || (a.nextRunAt == b.nextRunAt && a.id ≤ b.id)

/-- The timers that are ready at a time, in the order in which they run. -/
def readyTimers (loop : EventLoop V) (nowMs : Nat) : List (TimerTask V) :=
  (loop.timers.filter fun timer => timer.nextRunAt ≤ nowMs).mergeSort TimerTask.runsBefore

/-- The timers after those that are ready have run. -/
def rescheduled (loop : EventLoop V) (nowMs : Nat) : List (TimerTask V) :=
  (loop.timers.map fun timer =>
    if timer.nextRunAt ≤ nowMs ∧ timer.repeats then
      { timer with nextRunAt := saturatingAdd nowMs timer.intervalMs }
    else timer).filter fun timer => timer.repeats || nowMs < timer.nextRunAt

/-- `advance`. -/
def advance (loop : EventLoop V) (elapsedMs : Nat) : EventLoop V :=
  let nowMs := saturatingAdd loop.nowMs elapsedMs
  (loop.readyTimers nowMs).foldl
    (fun loop timer =>
      loop.enqueueTimerForDocumentWithMetadata timer.payload timer.ownerDocumentId timer.metadata)
    { loop with nowMs, timers := loop.rescheduled nowMs }

/-! ## Animation frames -/

/-- `schedule_animation_frame_with_realm`. -/
def scheduleAnimationFrameWithRealm (loop : EventLoop V) (callback : V) (realm : Option V)
    (documentId : Option Nat) : Nat × EventLoop V :=
  let id := saturatingAdd loop.nextAnimationFrameId 1
  (id,
    { loop with
      nextAnimationFrameId := id
      animationFrameOrder := loop.animationFrameOrder ++ [id]
      animationFrameCallbacks :=
        loop.animationFrameCallbacks.insert id { callback, realm, documentId } })

/-- `schedule_animation_frame`. -/
def scheduleAnimationFrame (loop : EventLoop V) (callback : V) (ownerDocumentId : Option Nat) :
    Nat × EventLoop V :=
  loop.scheduleAnimationFrameWithRealm callback none ownerDocumentId

/-- `cancel_animation_frame`. -/
def cancelAnimationFrame (loop : EventLoop V) (id : Nat) : EventLoop V :=
  { loop with animationFrameCallbacks := loop.animationFrameCallbacks.remove id }

/-- `begin_animation_frame`. -/
def beginAnimationFrame (loop : EventLoop V) : (Nat × List Nat) × EventLoop V :=
  ((loop.nowMs, loop.animationFrameOrder), { loop with animationFrameOrder := [] })

/-- `take_animation_frame_callback`. -/
def takeAnimationFrameCallback (loop : EventLoop V) (id : Nat) :
    Option (AnimationFrameCallback V) × EventLoop V :=
  (loop.animationFrameCallbacks.get id,
    { loop with animationFrameCallbacks := loop.animationFrameCallbacks.remove id })

/-- The callbacks of a document. -/
def frameIdsOf (loop : EventLoop V) (documentId : Nat) : List Nat :=
  (loop.animationFrameCallbacks.filter fun entry => entry.2.documentId = some documentId).map
    Prod.fst

/-- `has_pending_animation_frames`. -/
def hasPendingAnimationFrames (loop : EventLoop V) : Bool := !loop.animationFrameOrder.isEmpty

/-- `cancel_tasks_for_document`. -/
def cancelTasksForDocument (loop : EventLoop V) (documentId : Nat) : EventLoop V :=
  let loop := { loop with
    timers := loop.timers.filter fun timer => timer.ownerDocumentId ≠ some documentId }
  let loop := loop.cancelTasks (Task.ownedBy documentId)
  let cancelledFrameIds := loop.frameIdsOf documentId
  { loop with
    animationFrameCallbacks :=
      loop.animationFrameCallbacks.filter fun entry => !cancelledFrameIds.contains entry.1
    animationFrameOrder := loop.animationFrameOrder.filter fun id => !cancelledFrameIds.contains id }

/-! ## Operations -/

/-- The operations.  Each `enqueue_*` function enqueues on a source of its own. -/
inductive Operation (V : Type) where
  | enqueue (source : TaskSource) (task : Task V)
  | enqueueTimer (payload : TimerPayload V) (ownerDocumentId : Option Nat) (metadata : Option V)
  | popTask
  | popNavigationTask
  | cancelResourceLoadsForNodes (nodeIds : List Nat)
  | cancelTasksForDocument (documentId : Nat)
  | scheduleTimer (payload : TimerPayload V) (delayMs : Nat) (repeats : Bool)
      (ownerDocumentId : Option Nat) (metadata : Option V)
  | clearTimer (id : Nat)
  | advance (elapsedMs : Nat)
  | scheduleAnimationFrame (callback : V) (realm : Option V) (documentId : Option Nat)
  | cancelAnimationFrame (id : Nat)
  | beginAnimationFrame
  | takeAnimationFrameCallback (id : Nat)

/-- The event loop after an operation. -/
def step (loop : EventLoop V) : Operation V → EventLoop V
  | .enqueue source task => loop.enqueue source task
  | .enqueueTimer payload owner metadata =>
    loop.enqueueTimerForDocumentWithMetadata payload owner metadata
  | .popTask => loop.popTask.2
  | .popNavigationTask => loop.popNavigationTask.2
  | .cancelResourceLoadsForNodes nodeIds => loop.cancelResourceLoadsForNodes nodeIds
  | .cancelTasksForDocument documentId => loop.cancelTasksForDocument documentId
  | .scheduleTimer payload delay repeats owner metadata =>
    (loop.scheduleTimerWithMetadata payload delay repeats owner metadata).2
  | .clearTimer id => loop.clearTimer id
  | .advance elapsed => loop.advance elapsed
  | .scheduleAnimationFrame callback realm documentId =>
    (loop.scheduleAnimationFrameWithRealm callback realm documentId).2
  | .cancelAnimationFrame id => loop.cancelAnimationFrame id
  | .beginAnimationFrame => loop.beginAnimationFrame.2
  | .takeAnimationFrameCallback id => (loop.takeAnimationFrameCallback id).2

/-- The tasks that an operation takes from the queues and returns. -/
def popped (loop : EventLoop V) : Operation V → List (TaskSource × Task V)
  | .popTask => loop.popTask.1.toList
  | .popNavigationTask => loop.popNavigationTask.1.toList.map fun task => (.navigation, task)
  | _ => []

end EventLoop

end Omoikane.Js
