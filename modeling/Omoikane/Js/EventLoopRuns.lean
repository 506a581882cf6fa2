import Omoikane.Js.TaskLedger

/-!
# Runs of the event loop

Along every run the event loop follows the ledger: its order is the merge of its
queues, what it returns is what was enqueued, once and in order, and an animation
frame is pending where the ledger has one that awaits.  The last holds as long as
no callback is cancelled by its handle while its frame has not begun:
`cancel_animation_frame` leaves the id of such a callback in the list of frames.
-/

namespace Omoikane.Js

open Base

namespace EventLoop

variable {V : Type} {loop : EventLoop V} {ledger : Ledger V} {past : List (TaskSource × Task V)}

/-! ## Tasks -/

theorem Ledger.length_enqueue (ledger : Ledger V) (source : TaskSource) (task : Task V) :
    (ledger.enqueue source task).enqueued.length = ledger.enqueued.length + 1 := by
  rw [Ledger.enqueue, List.length_append, List.length_singleton]

/-- The tasks of timers that are ready, enqueued one after the other. -/
theorem Follows.enqueueTimers : ∀ (timers : List (TimerTask V)) {loop : EventLoop V}
    {ledger : Ledger V}, Follows past loop ledger →
    (timers.foldl (fun ledger timer => ledger.enqueue timer.payload.taskSource
      (.timer timer.payload timer.ownerDocumentId timer.metadata)) ledger).enqueued.length < 2 ^ 64 →
    Follows past
      (timers.foldl (fun loop timer => loop.enqueueTimerForDocumentWithMetadata timer.payload
        timer.ownerDocumentId timer.metadata) loop)
      (timers.foldl (fun ledger timer => ledger.enqueue timer.payload.taskSource
        (.timer timer.payload timer.ownerDocumentId timer.metadata)) ledger)
  | [], _, _, h, _ => h
  | timer :: timers, loop, ledger, h, hroom => by
    have hgrow : ∀ (timers : List (TimerTask V)) (ledger : Ledger V), ledger.enqueued.length ≤
        (timers.foldl (fun ledger timer => ledger.enqueue timer.payload.taskSource
          (.timer timer.payload timer.ownerDocumentId timer.metadata)) ledger).enqueued.length := by
      intro timers
      induction timers with
      | nil => exact fun _ => Nat.le_refl _
      | cons timer timers ih =>
        intro ledger
        refine Nat.le_trans ?_ (ih _)
        rw [Ledger.length_enqueue]
        exact Nat.le_succ _
    exact Follows.enqueueTimers timers
      (h.enqueue _ _ (Nat.lt_of_le_of_lt (hgrow timers _) hroom)) hroom

/-- Every operation keeps the event loop in step with the ledger. -/
theorem Follows.step (h : Follows past loop ledger) (operation : Operation V)
    (hroom : (ledger.step loop operation).enqueued.length < 2 ^ 64) :
    Follows (past ++ loop.popped operation) (loop.step operation) (ledger.step loop operation) := by
  have hpast : ∀ {loop' ledger'}, Follows past loop' ledger' → Follows (past ++ []) loop' ledger' :=
    fun h' => by rwa [List.append_nil]
  cases operation with
  | enqueue source task => exact hpast (h.enqueue source task hroom)
  | enqueueTimer payload owner metadata => exact hpast (h.enqueue _ _ hroom)
  | popTask => exact h.popTask
  | popNavigationTask => exact h.popNavigationTask
  | cancelResourceLoadsForNodes nodeIds => exact hpast (h.cancel _)
  | cancelTasksForDocument documentId =>
    have htimers : Follows past { loop with
        timers := loop.timers.filter fun timer => timer.ownerDocumentId ≠ some documentId }
        ledger := { h with }
    exact hpast { htimers.cancel (Task.ownedBy documentId) with }
  | scheduleTimer payload delay repeats owner metadata => exact hpast { h with }
  | clearTimer id => exact hpast { h with }
  | advance elapsed =>
    have hclock : Follows past { loop with
        nowMs := saturatingAdd loop.nowMs elapsed
        timers := loop.rescheduled (saturatingAdd loop.nowMs elapsed) } ledger := { h with }
    exact hpast (hclock.enqueueTimers _ hroom)
  | scheduleAnimationFrame callback realm documentId => exact hpast { h with }
  | cancelAnimationFrame id => exact hpast { h with }
  | beginAnimationFrame => exact hpast { h with }
  | takeAnimationFrameCallback id => exact hpast { h with }

/-! ## Frames -/

/-- The frames stand as the ledger says. -/
structure FramesFollow (loop : EventLoop V) (ledger : Ledger V) : Prop where
  order_eq : loop.animationFrameOrder = ledger.awaiting.map Frame.id
  counter : loop.nextAnimationFrameId = min (0 + ledger.scheduled) u64Max
  ascending : (ledger.awaiting.map Frame.id).Pairwise (· < ·)
  numbers : ∀ frame ∈ ledger.awaiting, frame.id ≤ ledger.scheduled
  keyed : loop.animationFrameCallbacks.Keyed
  callbacks : ∀ frame ∈ ledger.awaiting,
    (loop.animationFrameCallbacks.get frame.id).map AnimationFrameCallback.documentId =
      if frame.held then some frame.documentId else none

theorem FramesFollow.new : FramesFollow (EventLoop.new : EventLoop V) Ledger.new where
  order_eq := rfl
  counter := rfl
  ascending := List.Pairwise.nil
  numbers := nofun
  keyed := List.nodup_nil
  callbacks := nofun

/-- What the operations on tasks do not touch. -/
structure SameFrames (loop loop' : EventLoop V) : Prop where
  order : loop'.animationFrameOrder = loop.animationFrameOrder
  next : loop'.nextAnimationFrameId = loop.nextAnimationFrameId
  callbacks : loop'.animationFrameCallbacks = loop.animationFrameCallbacks

theorem SameFrames.trans {first second third : EventLoop V} (h : SameFrames first second)
    (h' : SameFrames second third) : SameFrames first third :=
  ⟨h'.order.trans h.order, h'.next.trans h.next, h'.callbacks.trans h.callbacks⟩

theorem sameFrames_popFrom (order : List (Nat × TaskSource)) (loop : EventLoop V) :
    SameFrames loop (loop.popFrom order).2 := by
  induction order with
  | nil => exact ⟨rfl, rfl, rfl⟩
  | cons entry order ih =>
    rw [popFrom]
    split
    · exact ⟨rfl, rfl, rfl⟩
    · exact ih
    · exact ⟨rfl, rfl, rfl⟩

theorem sameFrames_popNavigationTask (loop : EventLoop V) :
    SameFrames loop loop.popNavigationTask.2 := by
  unfold popNavigationTask
  split
  · exact ⟨rfl, rfl, rfl⟩
  · split
    · exact ⟨rfl, rfl, rfl⟩
    · dsimp only
      split <;> exact ⟨rfl, rfl, rfl⟩

theorem sameFrames_enqueueTimers : ∀ (timers : List (TimerTask V)) (loop : EventLoop V),
    SameFrames loop (timers.foldl (fun loop timer => loop.enqueueTimerForDocumentWithMetadata
      timer.payload timer.ownerDocumentId timer.metadata) loop)
  | [], _ => ⟨rfl, rfl, rfl⟩
  | timer :: timers, loop =>
    have hfirst : SameFrames loop (loop.enqueueTimerForDocumentWithMetadata timer.payload
        timer.ownerDocumentId timer.metadata) := ⟨rfl, rfl, rfl⟩
    hfirst.trans (sameFrames_enqueueTimers timers _)

theorem FramesFollow.same {loop' : EventLoop V} {ledger' : Ledger V} (h : FramesFollow loop ledger)
    (hsame : SameFrames loop loop') (hawaiting : ledger'.awaiting = ledger.awaiting)
    (hscheduled : ledger'.scheduled = ledger.scheduled) : FramesFollow loop' ledger' where
  order_eq := by rw [hsame.order, hawaiting, h.order_eq]
  counter := by rw [hsame.next, hscheduled, h.counter]
  ascending := by rw [hawaiting]; exact h.ascending
  numbers := by rw [hawaiting, hscheduled]; exact h.numbers
  keyed := by rw [hsame.callbacks]; exact h.keyed
  callbacks := by rw [hawaiting, hsame.callbacks]; exact h.callbacks

theorem FramesFollow.schedule (h : FramesFollow loop ledger) (callback : V) (realm : Option V)
    (documentId : Option Nat) (hroom : ledger.scheduled + 1 < 2 ^ 64) :
    FramesFollow (loop.step (.scheduleAnimationFrame callback realm documentId))
      (ledger.step loop (.scheduleAnimationFrame callback realm documentId)) := by
  have hid : saturatingAdd loop.nextAnimationFrameId 1 = ledger.scheduled + 1 := by
    rw [h.counter, saturatingAdd_count, Nat.zero_add]
    refine Nat.min_eq_left ?_
    unfold u64Max
    omega
  have hfresh : ∀ frame ∈ ledger.awaiting, frame.id < ledger.scheduled + 1 :=
    fun frame hframe => Nat.lt_succ_of_le (h.numbers frame hframe)
  refine {
    order_eq := ?_
    counter := ?_
    ascending := ?_
    numbers := ?_
    keyed := h.keyed.insert _ _
    callbacks := ?_ }
  · show loop.animationFrameOrder ++ [_] = (ledger.awaiting ++ [_]).map Frame.id
    rw [List.map_append, h.order_eq]
    rfl
  · show saturatingAdd loop.nextAnimationFrameId 1 = min (0 + (ledger.scheduled + 1)) u64Max
    rw [h.counter, saturatingAdd_count]
  · show ((ledger.awaiting ++ [_]).map Frame.id).Pairwise (· < ·)
    rw [List.map_append, List.pairwise_append]
    refine ⟨h.ascending, List.pairwise_singleton _ _, ?_⟩
    intro old hold new hnew
    obtain ⟨frame, hframe, rfl⟩ := List.mem_map.mp hold
    rw [List.mem_singleton.mp hnew]
    show frame.id < saturatingAdd loop.nextAnimationFrameId 1
    rw [hid]
    exact hfresh frame hframe
  · intro frame hframe
    show frame.id ≤ ledger.scheduled + 1
    rcases List.mem_append.mp hframe with hold | hnew
    · exact Nat.le_succ_of_le (h.numbers frame hold)
    · rw [List.mem_singleton.mp hnew]
      exact Nat.le_of_eq hid
  · intro frame hframe
    show ((loop.animationFrameCallbacks.insert (saturatingAdd loop.nextAnimationFrameId 1) _).get
      frame.id).map _ = _
    rcases List.mem_append.mp hframe with hold | hnew
    · have hne : frame.id ≠ saturatingAdd loop.nextAnimationFrameId 1 := by
        rw [hid]
        exact Nat.ne_of_lt (hfresh frame hold)
      rw [Table.get_insert_of_ne _ hne]
      exact h.callbacks frame hold
    · rw [List.mem_singleton.mp hnew]
      show ((loop.animationFrameCallbacks.insert (saturatingAdd loop.nextAnimationFrameId 1) _).get
        (saturatingAdd loop.nextAnimationFrameId 1)).map _ = _
      rw [Table.get_insert_self]
      rfl

theorem Frame.release_id (id : Nat) (frame : Frame) : (Frame.release id frame).id = frame.id := by
  unfold Frame.release
  split <;> rfl

theorem FramesFollow.take (h : FramesFollow loop ledger) (id : Nat) :
    FramesFollow (loop.step (.takeAnimationFrameCallback id))
      (ledger.step loop (.takeAnimationFrameCallback id)) := by
  have hids : (ledger.awaiting.map (Frame.release id)).map Frame.id =
      ledger.awaiting.map Frame.id := by
    rw [List.map_map]
    exact List.map_congr_left fun frame _ => Frame.release_id id frame
  refine {
    order_eq := h.order_eq.trans hids.symm
    counter := h.counter
    ascending := ?_
    numbers := ?_
    keyed := h.keyed.filter _
    callbacks := ?_ }
  · show ((ledger.awaiting.map (Frame.release id)).map Frame.id).Pairwise (· < ·)
    rw [hids]
    exact h.ascending
  · intro frame hframe
    obtain ⟨old, hold, rfl⟩ := List.mem_map.mp hframe
    rw [Frame.release_id]
    exact h.numbers old hold
  · intro frame hframe
    obtain ⟨old, hold, rfl⟩ := List.mem_map.mp hframe
    show ((loop.animationFrameCallbacks.remove id).get (Frame.release id old).id).map _ = _
    rw [Frame.release_id]
    by_cases hid : old.id = id
    · rw [hid, Table.get_remove_self, Frame.release, if_pos hid]
      rfl
    · rw [Table.get_remove_of_ne _ hid, Frame.release, if_neg hid]
      exact h.callbacks old hold

/-- The ids of the callbacks of a document, among the frames that await. -/
theorem FramesFollow.contains_frameIdsOf (h : FramesFollow loop ledger) (documentId : Nat) :
    ∀ frame ∈ ledger.awaiting,
      (loop.frameIdsOf documentId).contains frame.id = frame.heldBy documentId := by
  intro frame hframe
  have hcallback := h.callbacks frame hframe
  rw [Bool.eq_iff_iff, List.contains_iff_mem, frameIdsOf, Frame.heldBy, Bool.and_eq_true,
    decide_eq_true_iff]
  constructor
  · intro hm
    obtain ⟨⟨id, callback⟩, hentry, rfl⟩ := List.mem_map.mp hm
    obtain ⟨hin, hdocument⟩ := List.mem_filter.mp hentry
    rw [h.keyed.get_eq_some_iff.mpr hin] at hcallback
    cases hheld : frame.held with
    | true =>
      rw [hheld] at hcallback
      exact ⟨rfl, (Option.some.inj hcallback).symm.trans (of_decide_eq_true hdocument)⟩
    | false =>
      rw [hheld] at hcallback
      cases hcallback
  · rintro ⟨hheld, hdocument⟩
    rw [hheld, if_pos rfl] at hcallback
    obtain ⟨callback, hget, hdoc⟩ := Option.map_eq_some_iff.mp hcallback
    exact List.mem_map.mpr ⟨(frame.id, callback), List.mem_filter.mpr
      ⟨h.keyed.get_eq_some_iff.mp hget, decide_eq_true (hdoc.trans hdocument)⟩, rfl⟩

theorem FramesFollow.cancelDocument (h : FramesFollow loop ledger) (documentId : Nat) :
    FramesFollow (loop.step (.cancelTasksForDocument documentId))
      (ledger.step loop (.cancelTasksForDocument documentId)) := by
  have hcontains := h.contains_frameIdsOf documentId
  refine {
    order_eq := ?_
    counter := h.counter
    ascending := ?_
    numbers := fun frame hframe => h.numbers frame (List.mem_filter.mp hframe).1
    keyed := h.keyed.filter _
    callbacks := ?_ }
  · show loop.animationFrameOrder.filter (fun id => !(loop.frameIdsOf documentId).contains id) =
      (ledger.awaiting.filter fun frame => !frame.heldBy documentId).map Frame.id
    rw [h.order_eq, List.filter_map]
    congr 1
    exact List.filter_congr fun frame hframe => congrArg _ (hcontains frame hframe)
  · exact h.ascending.sublist (List.filter_sublist.map _)
  · intro frame hframe
    obtain ⟨hin, hkept⟩ := List.mem_filter.mp hframe
    rw [← h.callbacks frame hin, ← hcontains frame hin] at *
    show (Table.get (loop.animationFrameCallbacks.filter fun entry =>
      !(loop.frameIdsOf documentId).contains entry.1) frame.id).map _ = _
    congr 1
    refine Option.ext fun callback => ?_
    rw [h.keyed.get_filter]
    exact and_iff_left hkept

/-- Every operation but the cancellation of a frame that awaits keeps the frames in
step with the ledger. -/
theorem FramesFollow.step (h : FramesFollow loop ledger) (operation : Operation V)
    (hroom : (ledger.step loop operation).scheduled < 2 ^ 64)
    (hcancel : ∀ id, operation = .cancelAnimationFrame id → id ∉ loop.animationFrameOrder) :
    FramesFollow (loop.step operation) (ledger.step loop operation) := by
  cases operation with
  | enqueue source task => exact h.same ⟨rfl, rfl, rfl⟩ rfl rfl
  | enqueueTimer payload owner metadata => exact h.same ⟨rfl, rfl, rfl⟩ rfl rfl
  | popTask => exact h.same (sameFrames_popFrom _ loop) rfl rfl
  | popNavigationTask => exact h.same (sameFrames_popNavigationTask loop) rfl rfl
  | cancelResourceLoadsForNodes nodeIds => exact h.same ⟨rfl, rfl, rfl⟩ rfl rfl
  | cancelTasksForDocument documentId => exact h.cancelDocument documentId
  | scheduleTimer payload delay repeats owner metadata => exact h.same ⟨rfl, rfl, rfl⟩ rfl rfl
  | clearTimer id => exact h.same ⟨rfl, rfl, rfl⟩ rfl rfl
  | advance elapsed =>
    have hledger : ∀ (timers : List (TimerTask V)) (ledger : Ledger V),
        (timers.foldl (fun ledger timer => ledger.enqueue timer.payload.taskSource
          (.timer timer.payload timer.ownerDocumentId timer.metadata)) ledger).awaiting =
            ledger.awaiting ∧
        (timers.foldl (fun ledger timer => ledger.enqueue timer.payload.taskSource
          (.timer timer.payload timer.ownerDocumentId timer.metadata)) ledger).scheduled =
            ledger.scheduled := by
      intro timers
      induction timers with
      | nil => exact fun _ => ⟨rfl, rfl⟩
      | cons timer timers ih => exact fun ledger => ih _
    have hclock : SameFrames loop { loop with
        nowMs := saturatingAdd loop.nowMs elapsed
        timers := loop.rescheduled (saturatingAdd loop.nowMs elapsed) } := ⟨rfl, rfl, rfl⟩
    exact h.same (hclock.trans (sameFrames_enqueueTimers _ _)) (hledger _ ledger).1
      (hledger _ ledger).2
  | scheduleAnimationFrame callback realm documentId => exact h.schedule callback realm documentId hroom
  | cancelAnimationFrame id =>
    have hnot : id ∉ ledger.awaiting.map Frame.id := h.order_eq ▸ hcancel id rfl
    have hne : ∀ frame ∈ ledger.awaiting, frame.id ≠ id := fun frame hframe heq =>
      hnot (heq ▸ List.mem_map_of_mem hframe)
    have hall : ledger.awaiting.filter (fun frame => frame.id ≠ id) = ledger.awaiting :=
      List.filter_eq_self.mpr fun frame hframe => decide_eq_true (hne frame hframe)
    refine {
      order_eq := ?_
      counter := h.counter
      ascending := ?_
      numbers := fun frame hframe => h.numbers frame (List.mem_filter.mp hframe).1
      keyed := h.keyed.filter _
      callbacks := ?_ }
    · show loop.animationFrameOrder = (ledger.awaiting.filter _).map Frame.id
      rw [hall, h.order_eq]
    · exact h.ascending.sublist (List.filter_sublist.map _)
    · intro frame hframe
      have hin : frame ∈ ledger.awaiting := (List.mem_filter.mp hframe).1
      show ((loop.animationFrameCallbacks.remove id).get frame.id).map _ = _
      rw [Table.get_remove_of_ne _ (hne frame hin)]
      exact h.callbacks frame hin
  | beginAnimationFrame =>
    exact {
      order_eq := rfl
      counter := h.counter
      ascending := List.Pairwise.nil
      numbers := nofun
      keyed := h.keyed
      callbacks := nofun }
  | takeAnimationFrameCallback id => exact h.take id

/-! ## Runs -/

/-- An event loop with its ledger, after an operation. -/
def watch (watched : EventLoop V × Ledger V) (operation : Operation V) : EventLoop V × Ledger V :=
  (watched.1.step operation, watched.2.step watched.1 operation)

/-- A run from a new event loop, with its ledger. -/
def watched (operations : List (Operation V)) : EventLoop V × Ledger V :=
  Run.run watch (EventLoop.new, Ledger.new) operations

/-- The tasks that a run from a new event loop returned. -/
def returned (operations : List (Operation V)) : List (TaskSource × Task V) :=
  Run.emitted watch (fun watched operation => watched.1.popped operation)
    (EventLoop.new, Ledger.new) operations

/-- The tasks that are returned where every operation pops one. -/
theorem drained_of_merges : ∀ {waiting : List (Ticket V)} {loop : EventLoop V},
    Lanes.Merges loop.order loop.queue waiting →
    Run.emitted step popped loop (List.replicate waiting.length .popTask) =
        waiting.map (fun ticket => (ticket.lane, ticket.value)) ∧
      (Run.run step loop (List.replicate waiting.length .popTask)).popTask.1 = none
  | [], _, h => ⟨rfl, (popTask_of_merges h).1⟩
  | ticket :: waiting, loop, h => by
    obtain ⟨hreturned, hrest⟩ := popTask_of_merges h
    obtain ⟨hemitted, hnone⟩ := drained_of_merges hrest
    rw [List.length_cons, List.replicate_succ]
    refine ⟨?_, hnone⟩
    rw [Run.emitted_cons, List.map_cons]
    show loop.popTask.1.toList ++ Run.emitted step popped loop.popTask.2 _ = _
    rw [hreturned]
    exact congrArg _ hemitted

/-- What holds in every state of a run: the order is the merge of the queues, the
tasks are returned once and in the order in which they were enqueued, and a frame
is pending if and only if one awaits. -/
structure Accounts (past : List (TaskSource × Task V)) (loop : EventLoop V) (ledger : Ledger V) :
    Prop where
  sorted : (loop.order.map Prod.fst).Pairwise (· < ·)
  merged : ∀ source, (loop.order.filter fun entry => entry.2 = source).map Prod.fst =
    (loop.queue source).map Prod.fst
  contents : ∀ source, loop.queue source = Lanes.laneOf ledger.waiting source
  past_eq : past = ledger.returned.map fun ticket => (ticket.lane, ticket.value)
  numbered : Lanes.Ascending ledger.enqueued
  inOrder : ledger.waiting.Sublist ledger.enqueued
  once : ledger.enqueued.Perm (ledger.returned ++ ledger.cancelled ++ ledger.waiting)
  next : loop.popTask.1 = ledger.waiting.head?.map fun ticket => (ticket.lane, ticket.value)
  nextNavigation :
    loop.popNavigationTask.1 = (ledger.waiting.find? Ledger.navigates).map Item.value
  drained : Run.emitted step popped loop (List.replicate ledger.waiting.length .popTask) =
      ledger.waiting.map (fun ticket => (ticket.lane, ticket.value)) ∧
    (Run.run step loop (List.replicate ledger.waiting.length .popTask)).popTask.1 = none
  empty : loop.popTask.1 = none ↔ ∀ source, loop.queue source = []
  frames : loop.hasPendingAnimationFrames = true ↔ ledger.awaiting ≠ []

theorem Follows.empty_iff (h : Follows past loop ledger) :
    loop.popTask.1 = none ↔ ∀ source, loop.queue source = [] := by
  rw [(popTask_of_merges h.merges).1, Option.map_eq_none_iff, List.head?_eq_none_iff]
  constructor
  · intro hnone source
    rw [h.merges.lane_eq, hnone]
    rfl
  · intro hqueues
    cases hwaiting : ledger.waiting with
    | nil => rfl
    | cons ticket rest =>
      have hhead := (hwaiting ▸ h.merges : Lanes.Merges loop.order loop.queue (ticket :: rest)).head
      rw [hqueues] at hhead
      cases hhead.2

theorem Follows.accounts (h : Follows past loop ledger) (hframes : FramesFollow loop ledger) :
    Accounts past loop ledger where
  sorted := h.merges.sorted.1
  merged := h.merges.sorted.2
  contents := h.merges.lane_eq
  past_eq := h.past_eq
  numbered := h.ascending
  inOrder := h.inOrder
  once := h.accounted
  next := (popTask_of_merges h.merges).1
  nextNavigation := (popNavigationTask_of_merges h.merges).1
  drained := drained_of_merges h.merges
  empty := h.empty_iff
  frames := by
    rw [hasPendingAnimationFrames, hframes.order_eq]
    cases ledger.awaiting with
    | nil => exact ⟨nofun, fun hne => absurd rfl hne⟩
    | cons frame rest => exact ⟨fun _ => nofun, fun _ => rfl⟩

theorem enqueued_le_step (loop : EventLoop V) (ledger : Ledger V) (operation : Operation V) :
    ledger.enqueued.length ≤ (ledger.step loop operation).enqueued.length ∧
      ledger.scheduled ≤ (ledger.step loop operation).scheduled := by
  cases operation with
  | enqueue source task =>
    exact ⟨Nat.le_of_lt (Nat.lt_of_lt_of_eq (Nat.lt_succ_self _)
      (Ledger.length_enqueue ledger source task).symm), Nat.le_refl _⟩
  | enqueueTimer payload owner metadata =>
    exact ⟨Nat.le_of_lt (Nat.lt_of_lt_of_eq (Nat.lt_succ_self _)
      (Ledger.length_enqueue ledger _ _).symm), Nat.le_refl _⟩
  | advance elapsed =>
    show _ ≤ (List.foldl _ ledger _).enqueued.length ∧ _ ≤ (List.foldl _ ledger _).scheduled
    generalize loop.readyTimers _ = timers
    induction timers generalizing ledger with
    | nil => exact ⟨Nat.le_refl _, Nat.le_refl _⟩
    | cons timer timers ih =>
      obtain ⟨henqueued, hscheduled⟩ := ih (ledger.enqueue timer.payload.taskSource
        (.timer timer.payload timer.ownerDocumentId timer.metadata))
      rw [Ledger.length_enqueue] at henqueued
      exact ⟨Nat.le_of_succ_le henqueued, hscheduled⟩
  | scheduleAnimationFrame callback realm documentId => exact ⟨Nat.le_refl _, Nat.le_succ _⟩
  | _ => exact ⟨Nat.le_refl _, Nat.le_refl _⟩

/-- A step that does not cancel a frame that awaits by its handle. -/
def KeepsFrames (watched : EventLoop V × Ledger V) (operation : Operation V) : Prop :=
  ∀ id, operation = .cancelAnimationFrame id → id ∉ watched.1.animationFrameOrder

theorem watched_follows (operations : List (Operation V))
    (hroom : (watched operations).2.enqueued.length < 2 ^ 64) :
    Follows (returned operations) (watched operations).1 (watched operations).2 := by
  have hstep : ∀ (past : List (TaskSource × Task V)) (watched : EventLoop V × Ledger V)
      (operation : Operation V),
      (watched.2.enqueued.length < 2 ^ 64 → Follows past watched.1 watched.2) →
      (watch watched operation).2.enqueued.length < 2 ^ 64 →
        Follows (past ++ watched.1.popped operation) (watch watched operation).1
          (watch watched operation).2 := by
    intro past watched operation h hroom
    exact (h (Nat.lt_of_le_of_lt (enqueued_le_step watched.1 watched.2 operation).1 hroom)).step
      operation hroom
  exact Run.invariant_emitted hstep operations (fun _ => Follows.new) hroom

theorem watched_framesFollow (operations : List (Operation V))
    (hroom : (watched operations).2.scheduled < 2 ^ 64)
    (hkeeps : Run.Along watch KeepsFrames (EventLoop.new, Ledger.new) operations) :
    FramesFollow (watched operations).1 (watched operations).2 := by
  have hstep : ∀ (watched : EventLoop V × Ledger V) (operation : Operation V),
      (watched.2.scheduled < 2 ^ 64 → FramesFollow watched.1 watched.2) →
      KeepsFrames watched operation → (watch watched operation).2.scheduled < 2 ^ 64 →
        FramesFollow (watch watched operation).1 (watch watched operation).2 := by
    intro watched operation h hkeeps hroom
    exact (h (Nat.lt_of_le_of_lt (enqueued_le_step watched.1 watched.2 operation).2 hroom)).step
      operation hroom hkeeps
  exact Run.invariant_along hstep operations (fun _ => FramesFollow.new) hkeeps hroom

/-- A task is enqueued and a frame is scheduled, begun and cancelled. -/
def frameCancelledLate : List (Operation Unit) :=
  [.enqueue .geolocation (.geolocation 7), .scheduleAnimationFrame () none (some 1),
    .beginAnimationFrame, .cancelAnimationFrame 1]

/-- A frame is scheduled and cancelled. -/
def frameCancelled : List (Operation Unit) :=
  [.scheduleAnimationFrame () none (some 1), .cancelAnimationFrame 1]

end EventLoop

end Omoikane.Js
