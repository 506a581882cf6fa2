import Omoikane.Base.Lanes
import Omoikane.Js.EventLoop

/-!
# The tasks of a run

What the event loop is for: every task that is enqueued is returned once, in the
order of enqueueing, unless it is cancelled before.  A `Ledger` keeps, beside a
run, the tickets of all enqueued tasks, of those returned and cancelled, and of
those that wait; and the animation frames that were scheduled and are neither
cancelled nor begun.  The event loop follows the ledger.
-/

namespace Omoikane.Js

open Base

/-- A task with its number in the order of enqueueing. -/
abbrev Ticket (V : Type) := Item TaskSource (Task V)

/-- A scheduled animation frame.  It is held until its callback is taken. -/
structure Frame where
  id : Nat
  documentId : Option Nat
  held : Bool

/-- The frame of an id loses its callback. -/
def Frame.release (id : Nat) (frame : Frame) : Frame :=
  if frame.id = id then { frame with held := false } else frame

/-- A held frame of a document. -/
def Frame.heldBy (documentId : Nat) (frame : Frame) : Bool :=
  frame.held && decide (frame.documentId = some documentId)

structure Ledger (V : Type) where
  enqueued : List (Ticket V)
  returned : List (Ticket V)
  cancelled : List (Ticket V)
  waiting : List (Ticket V)
  scheduled : Nat
  awaiting : List Frame

namespace Ledger

variable {V : Type}

def new : Ledger V where
  enqueued := []
  returned := []
  cancelled := []
  waiting := []
  scheduled := 0
  awaiting := []

def enqueue (ledger : Ledger V) (source : TaskSource) (task : Task V) : Ledger V :=
  let ticket : Ticket V :=
    { number := ledger.enqueued.length + 1, lane := source, value := task }
  { ledger with enqueued := ledger.enqueued ++ [ticket], waiting := ledger.waiting ++ [ticket] }

/-- The first waiting ticket with a property is returned. -/
def take (ledger : Ledger V) (p : Ticket V → Bool) : Ledger V :=
  { ledger with
    returned := ledger.returned ++ (ledger.waiting.find? p).toList
    waiting := ledger.waiting.eraseP p }

/-- The waiting tickets with a property are cancelled. -/
def cancel (ledger : Ledger V) (cancelled : Task V → Bool) : Ledger V :=
  { ledger with
    cancelled := ledger.cancelled ++ ledger.waiting.filter fun ticket => cancelled ticket.value
    waiting := ledger.waiting.filter fun ticket => !cancelled ticket.value }

/-- A ticket that `pop_navigation_task` may take. -/
def navigates (ticket : Ticket V) : Bool :=
  decide (ticket.lane = .navigation) && ticket.value.isNavigation

/-- The ledger after an operation on an event loop. -/
def step (loop : EventLoop V) (ledger : Ledger V) : EventLoop.Operation V → Ledger V
  | .enqueue source task => ledger.enqueue source task
  | .enqueueTimer payload owner metadata =>
    ledger.enqueue payload.taskSource (.timer payload owner metadata)
  | .popTask => ledger.take fun _ => true
  | .popNavigationTask => ledger.take navigates
  | .cancelResourceLoadsForNodes nodeIds => ledger.cancel (Task.loadsFor nodeIds)
  | .cancelTasksForDocument documentId =>
    { ledger.cancel (Task.ownedBy documentId) with
      awaiting := ledger.awaiting.filter fun frame => !frame.heldBy documentId }
  | .advance elapsed =>
    (loop.readyTimers (saturatingAdd loop.nowMs elapsed)).foldl
      (fun ledger timer => ledger.enqueue timer.payload.taskSource
        (.timer timer.payload timer.ownerDocumentId timer.metadata)) ledger
  | .scheduleAnimationFrame callback realm documentId =>
    { ledger with
      scheduled := ledger.scheduled + 1
      awaiting := ledger.awaiting ++
        [{ id := (loop.scheduleAnimationFrameWithRealm callback realm documentId).1
           documentId := documentId
           held := true }] }
  | .cancelAnimationFrame id =>
    { ledger with awaiting := ledger.awaiting.filter fun frame => frame.id ≠ id }
  | .beginAnimationFrame => { ledger with awaiting := [] }
  | .takeAnimationFrameCallback id =>
    { ledger with awaiting := ledger.awaiting.map (Frame.release id) }
  | _ => ledger

end Ledger

/-! ## The queues follow the ledger -/

namespace EventLoop

variable {V : Type} {loop : EventLoop V} {ledger : Ledger V} {past : List (TaskSource × Task V)}

/-- The event loop, after returning the tasks `past`, stands as the ledger says. -/
structure Follows (past : List (TaskSource × Task V)) (loop : EventLoop V) (ledger : Ledger V) :
    Prop where
  merges : Lanes.Merges loop.order loop.queue ledger.waiting
  counter : loop.nextTaskId = min (1 + ledger.enqueued.length) u64Max
  past_eq : past = ledger.returned.map fun ticket => (ticket.lane, ticket.value)
  numbers : ∀ ticket ∈ ledger.enqueued, ticket.number ≤ ledger.enqueued.length
  ascending : Lanes.Ascending ledger.enqueued
  inOrder : ledger.waiting.Sublist ledger.enqueued
  accounted : ledger.enqueued.Perm (ledger.returned ++ ledger.cancelled ++ ledger.waiting)

theorem Follows.new : Follows [] (EventLoop.new : EventLoop V) Ledger.new where
  merges := Lanes.Merges.nil
  counter := rfl
  past_eq := rfl
  numbers := nofun
  ascending := List.Pairwise.nil
  inOrder := List.Sublist.refl []
  accounted := List.Perm.refl []

theorem queue_setQueue (loop : EventLoop V) (source : TaskSource) (tasks : List (Nat × Task V)) :
    ((loop.setQueue source tasks) source).getD [] = tasks := by
  rw [setQueue, if_pos rfl]
  rfl

theorem queue_setQueue_of_ne (loop : EventLoop V) {source other : TaskSource} (h : other ≠ source)
    (tasks : List (Nat × Task V)) :
    ((loop.setQueue source tasks) other).getD [] = loop.queue other := by
  rw [setQueue, if_neg h]
  rfl

theorem Follows.enqueue (h : Follows past loop ledger) (source : TaskSource) (task : Task V)
    (hroom : (ledger.enqueue source task).enqueued.length < 2 ^ 64) :
    Follows past (loop.enqueue source task) (ledger.enqueue source task) := by
  have hlength : ledger.enqueued.length + 1 ≤ u64Max := by
    rw [Ledger.enqueue, List.length_append, List.length_singleton] at hroom
    unfold u64Max
    omega
  have hid : loop.nextTaskId = ledger.enqueued.length + 1 := by
    rw [h.counter, Nat.add_comm 1]
    exact Nat.min_eq_left hlength
  have hfresh : ∀ old ∈ ledger.enqueued, old.number < ledger.enqueued.length + 1 :=
    fun old hold => Nat.lt_succ_of_le (h.numbers old hold)
  refine {
    merges := ?_
    counter := ?_
    past_eq := h.past_eq
    numbers := ?_
    ascending := ?_
    inOrder := h.inOrder.append (List.Sublist.refl _)
    accounted := ?_ }
  · show Lanes.Merges (loop.order ++ [(loop.nextTaskId, source)]) _ _
    rw [hid]
    refine h.merges.push ⟨ledger.enqueued.length + 1, source, task⟩
      (fun old hold => hfresh old (h.inOrder.subset hold)) ?_ ?_
    · show ((loop.setQueue source (loop.queue source ++ [(loop.nextTaskId, task)])) source).getD [] = _
      rw [queue_setQueue, hid]
    · intro other hother
      exact queue_setQueue_of_ne loop hother _
  · show saturatingAdd loop.nextTaskId 1 = min (1 + (ledger.enqueued ++ [_]).length) u64Max
    rw [h.counter, saturatingAdd_count, List.length_append, List.length_singleton]
  · intro ticket hticket
    show ticket.number ≤ (ledger.enqueued ++ [_]).length
    rw [List.length_append, List.length_singleton]
    rcases List.mem_append.mp hticket with hold | hnew
    · exact Nat.le_succ_of_le (h.numbers ticket hold)
    · exact Nat.le_of_eq (by rw [List.mem_singleton.mp hnew])
  · refine List.pairwise_append.mpr ⟨h.ascending, List.pairwise_singleton _ _, ?_⟩
    intro old hold ticket hticket
    rw [List.mem_singleton.mp hticket]
    exact hfresh old hold
  · show (ledger.enqueued ++ [_]).Perm (ledger.returned ++ ledger.cancelled ++ (ledger.waiting ++ [_]))
    rw [← List.append_assoc]
    exact h.accounted.append_right _

/-! ### Popping -/

/-- What `pop_task` does to the queues of waiting tickets. -/
theorem popTask_of_merges {waiting : List (Ticket V)}
    (h : Lanes.Merges loop.order loop.queue waiting) :
    loop.popTask.1 = waiting.head?.map (fun ticket => (ticket.lane, ticket.value)) ∧
      Lanes.Merges loop.popTask.2.order loop.popTask.2.queue waiting.tail := by
  cases waiting with
  | nil =>
    have horder : loop.order = [] := h.order_eq
    unfold popTask
    rw [horder]
    exact ⟨rfl, rfl, h.lane_eq, h.ascending⟩
  | cons ticket rest =>
    obtain ⟨horder, hqueue⟩ := h.head
    have hsome : loop.queues ticket.lane =
        some ((ticket.number, ticket.value) :: Lanes.laneOf rest ticket.lane) := by
      unfold queue at hqueue
      cases hq : loop.queues ticket.lane with
      | none =>
        rw [hq] at hqueue
        cases hqueue
      | some tasks =>
        rw [hq] at hqueue
        exact congrArg some hqueue
    have hpop : loop.popTask = (some (ticket.lane, ticket.value),
        { loop with
          order := Lanes.orderOf rest
          queues := loop.setQueue ticket.lane (Lanes.laneOf rest ticket.lane) }) := by
      unfold popTask
      rw [horder, popFrom, hsome]
    rw [hpop]
    refine ⟨rfl, h.pop ?_ ?_⟩
    · exact queue_setQueue loop ticket.lane _
    · intro other hother
      exact queue_setQueue_of_ne loop hother _

/-- An accounting in which the first ticket with a property is returned. -/
theorem perm_take {p : Ticket V → Bool} {enqueued returned cancelled waiting : List (Ticket V)}
    (h : enqueued.Perm (returned ++ cancelled ++ waiting)) :
    enqueued.Perm (returned ++ (waiting.find? p).toList ++ cancelled ++ waiting.eraseP p) := by
  have hwaiting : waiting.Perm ((waiting.find? p).toList ++ waiting.eraseP p) := by
    clear h
    induction waiting with
    | nil => exact List.Perm.refl []
    | cons ticket waiting ih =>
      cases hp : p ticket with
      | true =>
        rw [List.find?_cons_of_pos hp, List.eraseP_cons_of_pos hp]
        exact List.Perm.refl _
      | false =>
        have hnot : ¬ p ticket = true := by
          rw [hp]
          exact Bool.false_ne_true
        rw [List.find?_cons_of_neg hnot, List.eraseP_cons_of_neg hnot]
        exact (ih.cons ticket).trans List.perm_middle.symm
  calc enqueued
      _ |>.Perm (returned ++ cancelled ++ waiting) := h
      _ |>.Perm (returned ++ cancelled ++ ((waiting.find? p).toList ++ waiting.eraseP p)) :=
        hwaiting.append_left _
      _ |>.Perm (returned ++ (waiting.find? p).toList ++ cancelled ++ waiting.eraseP p) := by
        rw [← List.append_assoc]
        refine List.Perm.append_right _ ?_
        rw [List.append_assoc, List.append_assoc]
        exact List.perm_append_comm.append_left _

theorem Follows.take (h : Follows past loop ledger) (p : Ticket V → Bool) (loop' : EventLoop V)
    (hmerges : Lanes.Merges loop'.order loop'.queue (ledger.waiting.eraseP p))
    (hnext : loop'.nextTaskId = loop.nextTaskId) :
    Follows (past ++ (ledger.waiting.find? p).toList.map fun ticket => (ticket.lane, ticket.value))
      loop' (ledger.take p) where
  merges := hmerges
  counter := hnext.trans h.counter
  past_eq := by
    rw [h.past_eq, Ledger.take, List.map_append]
  numbers := h.numbers
  ascending := h.ascending
  inOrder := List.eraseP_sublist.trans h.inOrder
  accounted := perm_take h.accounted

theorem find?_true {α : Type} (xs : List α) : xs.find? (fun _ => true) = xs.head? := by
  cases xs <;> rfl

theorem eraseP_true {α : Type} (xs : List α) : xs.eraseP (fun _ => true) = xs.tail := by
  cases xs <;> rfl

theorem popFrom_nextTaskId (loop : EventLoop V) (order : List (Nat × TaskSource)) :
    (loop.popFrom order).2.nextTaskId = loop.nextTaskId := by
  induction order with
  | nil => rfl
  | cons entry order ih =>
    rw [popFrom]
    split
    · rfl
    · exact ih
    · rfl

theorem Follows.popTask (h : Follows past loop ledger) :
    Follows (past ++ loop.popTask.1.toList) loop.popTask.2 (ledger.take fun _ => true) := by
  obtain ⟨hreturned, hmerges⟩ := popTask_of_merges h.merges
  have htake := h.take (fun _ => true) loop.popTask.2
    ((eraseP_true ledger.waiting).symm ▸ hmerges) (popFrom_nextTaskId loop loop.order)
  rw [find?_true] at htake
  rw [hreturned]
  cases hhead : ledger.waiting.head? with
  | none =>
    rw [hhead] at htake
    exact htake
  | some ticket =>
    rw [hhead] at htake
    exact htake

/-- What `pop_navigation_task` does to the queues of waiting tickets. -/
theorem popNavigationTask_of_merges {waiting : List (Ticket V)}
    (h : Lanes.Merges loop.order loop.queue waiting) :
    loop.popNavigationTask.1 = (waiting.find? Ledger.navigates).map Item.value ∧
      loop.popNavigationTask.2.nextTaskId = loop.nextTaskId ∧
      Lanes.Merges loop.popNavigationTask.2.order loop.popNavigationTask.2.queue
        (waiting.eraseP Ledger.navigates) := by
  have hp : ∀ ticket : Ticket V, Ledger.navigates ticket =
      (decide (ticket.lane = TaskSource.navigation) &&
        (fun entry : Nat × Task V => entry.2.isNavigation) (ticket.number, ticket.value)) :=
    fun _ => rfl
  have hfind := Lanes.find?_laneOf Ledger.navigates TaskSource.navigation
    (fun entry : Nat × Task V => entry.2.isNavigation) hp waiting
  rw [← h.lane_eq] at hfind
  -- without a navigation nothing changes
  have hnone : waiting.find? Ledger.navigates = none →
      (loop.popNavigationTask = (none, loop)) → _ := fun hno heq =>
    (⟨by rw [heq, hno]; rfl, by rw [heq], by
      rw [heq, List.eraseP_of_forall_not (List.find?_eq_none.mp hno)]
      exact h⟩ :
      loop.popNavigationTask.1 = (waiting.find? Ledger.navigates).map Item.value ∧
        loop.popNavigationTask.2.nextTaskId = loop.nextTaskId ∧
        Lanes.Merges loop.popNavigationTask.2.order loop.popNavigationTask.2.queue
          (waiting.eraseP Ledger.navigates))
  cases hqueue : loop.queues TaskSource.navigation with
  | none =>
    have hempty : loop.queue .navigation = [] := by rw [queue, hqueue]; rfl
    rw [hempty] at hfind
    refine hnone (Option.map_eq_none_iff.mp hfind.symm) ?_
    unfold popNavigationTask
    rw [hqueue]
  | some tasks =>
    have htasks : loop.queue .navigation = tasks := by rw [queue, hqueue]; rfl
    rw [htasks] at hfind
    cases hticket : waiting.find? Ledger.navigates with
    | none =>
      rw [hticket] at hfind
      rw [← hticket]
      refine hnone hticket ?_
      unfold popNavigationTask
      rw [hqueue]
      dsimp only
      rw [hfind]
      rfl
    | some ticket =>
      rw [hticket] at hfind
      have hposition : ∃ entry, (loop.order.find? fun entry => entry.1 = ticket.number) =
          some entry := by
        rw [h.order_eq]
        exact Option.isSome_iff_exists.mp (Lanes.find?_orderOf Ledger.navigates hticket)
      obtain ⟨entry, hentry⟩ := hposition
      have hpop : loop.popNavigationTask = (some ticket.value,
          { loop with
            queues := loop.setQueue .navigation
              (tasks.eraseP fun entry => entry.2.isNavigation)
            order := loop.order.eraseP fun entry => entry.1 = ticket.number }) := by
        unfold popNavigationTask
        rw [hqueue]
        dsimp only
        rw [hfind]
        dsimp only [Option.map_some]
        rw [hentry]
      rw [hpop]
      refine ⟨rfl, rfl, h.take (q := fun entry => entry.2.isNavigation) hp hticket ?_ ?_⟩
      · show ((loop.setQueue .navigation _) .navigation).getD [] = _
        rw [queue_setQueue, htasks]
      · intro other hother
        exact queue_setQueue_of_ne loop hother _

theorem Follows.popNavigationTask (h : Follows past loop ledger) :
    Follows (past ++ loop.popNavigationTask.1.toList.map fun task => (.navigation, task))
      loop.popNavigationTask.2 (ledger.take Ledger.navigates) := by
  obtain ⟨hreturned, hnext, hmerges⟩ := popNavigationTask_of_merges h.merges
  have htake := h.take Ledger.navigates loop.popNavigationTask.2 hmerges hnext
  rw [hreturned]
  cases hticket : ledger.waiting.find? Ledger.navigates with
  | none =>
    rw [hticket] at htake
    exact htake
  | some ticket =>
    rw [hticket] at htake
    have hlane : ticket.lane = .navigation := by
      have hnavigates := List.find?_some hticket
      rw [Ledger.navigates, Bool.and_eq_true] at hnavigates
      exact of_decide_eq_true hnavigates.1
    rw [← hlane]
    exact htake

/-! ### Cancelling -/

theorem contains_cancelledTaskIds {waiting : List (Ticket V)}
    (h : Lanes.Merges loop.order loop.queue waiting) (cancelled : Task V → Bool) :
    ∀ ticket ∈ waiting, (loop.cancelledTaskIds cancelled).contains ticket.number =
      cancelled ticket.value := by
  intro ticket hticket
  rw [Bool.eq_iff_iff, List.contains_iff_mem, cancelledTaskIds, List.mem_flatMap]
  constructor
  · rintro ⟨source, _, hm⟩
    obtain ⟨entry, hentry, hnumber⟩ := List.mem_map.mp hm
    obtain ⟨hin, hcancelled⟩ := List.mem_filter.mp hentry
    rw [h.lane_eq] at hin
    obtain ⟨other, hother, _, rfl⟩ := Lanes.mem_laneOf.mp hin
    rw [h.ascending.eq_of_number_eq hticket hother hnumber.symm]
    exact hcancelled
  · intro hcancelled
    refine ⟨ticket.lane, TaskSource.mem_all _, List.mem_map.mpr ⟨(ticket.number, ticket.value),
      List.mem_filter.mpr ⟨?_, hcancelled⟩, rfl⟩⟩
    rw [h.lane_eq]
    exact Lanes.mem_laneOf.mpr ⟨ticket, hticket, rfl, rfl⟩

theorem Follows.cancel (h : Follows past loop ledger) (cancelled : Task V → Bool) :
    Follows past (loop.cancelTasks cancelled) (ledger.cancel cancelled) where
  merges := by
    have hretain := h.merges.retain (fun ticket => !cancelled ticket.value)
      (fun number => !(loop.cancelledTaskIds cancelled).contains number)
      (fun _ entry => !cancelled entry.2)
      (fun ticket hticket => congrArg _ (contains_cancelledTaskIds h.merges cancelled ticket hticket))
      (fun _ _ => rfl)
    have hqueue : (loop.cancelTasks cancelled).queue =
        fun source => (loop.queue source).filter fun entry => !cancelled entry.2 := by
      funext source
      show ((loop.queues source).map _).getD [] = ((loop.queues source).getD []).filter _
      cases loop.queues source <;> rfl
    rw [hqueue]
    exact hretain
  counter := h.counter
  past_eq := h.past_eq
  numbers := h.numbers
  ascending := h.ascending
  inOrder := List.filter_sublist.trans h.inOrder
  accounted := by
    have hsplit : ledger.waiting.Perm ((ledger.waiting.filter fun ticket => cancelled ticket.value) ++
        ledger.waiting.filter fun ticket => !cancelled ticket.value) :=
      (List.filter_append_perm _ _).symm
    show ledger.enqueued.Perm (ledger.returned ++ (ledger.cancelled ++ _) ++ _)
    rw [List.append_assoc, List.append_assoc]
    refine h.accounted.trans ?_
    rw [List.append_assoc]
    exact (hsplit.append_left _).append_left _

end EventLoop

end Omoikane.Js
