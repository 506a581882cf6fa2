import Omoikane.Base.StableSort
import Omoikane.Js.EventLoop

/-!
# Timers

What timers are for: a timer that is due gives one task, the tasks come in the
order of their deadlines, and a timer that is cleared gives none.  A `Tracked`
event loop keeps, beside the queues, the timers whose tasks wait in them, in the
order in which `pop_task` returns these.

The runs are those of `schedule_timer`, `clear_timer`, `advance` and `pop_task`.
Their tasks come in order and once (`Orderly`), and all is as it would be if the
clock had been advanced in two steps.  `clear_timer` does not look into the
queues: a timer stays cleared if and only if none of its tasks waits there when it
is cleared (`silenced_iff`).
-/

namespace Omoikane.Js

open Base EventLoop

/-- The operations on timers. -/
inductive TimerOperation (V : Type) where
  | scheduleTimer (payload : TimerPayload V) (delayMs : Nat) (repeats : Bool)
      (ownerDocumentId : Option Nat) (metadata : Option V)
  | clearTimer (id : Nat)
  | advance (elapsedMs : Nat)
  | popTask

namespace TimerTask

variable {V : Type}

/-- The task of a timer, with its source. -/
def task (timer : TimerTask V) : TaskSource × Task V :=
  (timer.payload.taskSource, .timer timer.payload timer.ownerDocumentId timer.metadata)

def oneShot (timer : TimerTask V) : Bool := !timer.repeats

theorem runsBefore_iff {a b : TimerTask V} : TimerTask.runsBefore a b = true ↔
    a.nextRunAt < b.nextRunAt ∨ a.nextRunAt = b.nextRunAt ∧ a.id ≤ b.id := by
  simp [TimerTask.runsBefore]

theorem runsBefore_trans (a b c : TimerTask V) (hab : TimerTask.runsBefore a b)
    (hbc : TimerTask.runsBefore b c) : TimerTask.runsBefore a c := by
  rw [runsBefore_iff] at *
  omega

theorem runsBefore_total (a b : TimerTask V) :
    (TimerTask.runsBefore a b || TimerTask.runsBefore b a) = true := by
  rw [Bool.or_eq_true, runsBefore_iff, runsBefore_iff]
  omega

end TimerTask

/-- An event loop with the timers whose tasks wait in its queues. -/
structure Tracked (V : Type) where
  loop : EventLoop V
  waiting : List (TimerTask V)

namespace Tracked

variable {V : Type}

def start : Tracked V where
  loop := EventLoop.new
  waiting := []

/-- The time after `advance`. -/
def later (tracked : Tracked V) (elapsedMs : Nat) : Nat :=
  saturatingAdd tracked.loop.nowMs elapsedMs

/-- The timers that an operation schedules. -/
def schedules (tracked : Tracked V) : TimerOperation V → List (TimerTask V)
  | .scheduleTimer payload delay repeats owner metadata =>
    (tracked.loop.scheduleTimerWithMetadata payload delay repeats owner metadata).2.timers.drop
      tracked.loop.timers.length
  | _ => []

/-- The timers whose tasks an operation makes available. -/
def promotes (tracked : Tracked V) : TimerOperation V → List (TimerTask V)
  | .advance elapsed => tracked.loop.readyTimers (tracked.later elapsed)
  | _ => []

/-- The timers whose tasks an operation returns. -/
def pops (tracked : Tracked V) : TimerOperation V → List (TimerTask V)
  | .popTask => tracked.waiting.head?.toList
  | _ => []

/-- The tasks that an operation returns. -/
def returns (tracked : Tracked V) : TimerOperation V → List (TaskSource × Task V)
  | .popTask => tracked.loop.popTask.1.toList
  | _ => []

def step (tracked : Tracked V) : TimerOperation V → Tracked V
  | .scheduleTimer payload delay repeats owner metadata =>
    { tracked with
      loop := (tracked.loop.scheduleTimerWithMetadata payload delay repeats owner metadata).2 }
  | .clearTimer id => { tracked with loop := tracked.loop.clearTimer id }
  | .advance elapsed =>
    { loop := tracked.loop.advance elapsed
      waiting := tracked.waiting ++ tracked.promotes (.advance elapsed) }
  | .popTask =>
    { loop := tracked.loop.popTask.2
      waiting := tracked.waiting.tail }

/-- The event loop after a run. -/
def run (tracked : Tracked V) (operations : List (TimerOperation V)) : Tracked V :=
  Run.run step tracked operations

/-- The timers that a run schedules. -/
def scheduled (tracked : Tracked V) (operations : List (TimerOperation V)) : List (TimerTask V) :=
  Run.emitted step schedules tracked operations

/-- The timers whose tasks a run makes available. -/
def promoted (tracked : Tracked V) (operations : List (TimerOperation V)) : List (TimerTask V) :=
  Run.emitted step promotes tracked operations

/-- The timers whose tasks a run returns. -/
def popped (tracked : Tracked V) (operations : List (TimerOperation V)) : List (TimerTask V) :=
  Run.emitted step pops tracked operations

/-- The tasks that a run returns. -/
def returned (tracked : Tracked V) (operations : List (TimerOperation V)) :
    List (TaskSource × Task V) :=
  Run.emitted step returns tracked operations

/-! ## The operations -/

variable {tracked : Tracked V}

theorem schedules_eq (tracked : Tracked V) (payload : TimerPayload V) (delay : Nat)
    (repeats : Bool) (owner : Option Nat) (metadata : Option V) :
    ∃ timer : TimerTask V,
      tracked.schedules (.scheduleTimer payload delay repeats owner metadata) = [timer] ∧
      (tracked.step (.scheduleTimer payload delay repeats owner metadata)).loop.timers =
        tracked.loop.timers ++ [timer] ∧
      timer.id = tracked.loop.nextTimerId ∧
      timer.nextRunAt = saturatingAdd tracked.loop.nowMs delay ∧ timer.repeats = repeats :=
  ⟨_, List.drop_left, rfl, rfl, rfl, rfl⟩

/-- Tasks of timers, enqueued one after the other. -/
def enqueueTimers (loop : EventLoop V) (timers : List (TimerTask V)) : EventLoop V :=
  timers.foldl (fun loop timer => loop.enqueueTimerForDocumentWithMetadata timer.payload
    timer.ownerDocumentId timer.metadata) loop

theorem enqueueTimers_frame : ∀ (ready : List (TimerTask V)) (loop : EventLoop V) (nowMs : Nat)
    (timers : List (TimerTask V)), enqueueTimers { loop with nowMs, timers } ready =
      { enqueueTimers loop ready with nowMs, timers }
  | [], _, _, _ => rfl
  | timer :: ready, loop, nowMs, timers => enqueueTimers_frame ready
      (loop.enqueueTimerForDocumentWithMetadata timer.payload timer.ownerDocumentId timer.metadata)
      nowMs timers

theorem advance_eq (loop : EventLoop V) (elapsed : Nat) :
    loop.advance elapsed =
      { enqueueTimers loop (loop.readyTimers (saturatingAdd loop.nowMs elapsed)) with
        nowMs := saturatingAdd loop.nowMs elapsed
        timers := loop.rescheduled (saturatingAdd loop.nowMs elapsed) } :=
  enqueueTimers_frame _ loop _ _

theorem mem_readyTimers {loop : EventLoop V} {nowMs : Nat} {timer : TimerTask V} :
    timer ∈ loop.readyTimers nowMs ↔ timer ∈ loop.timers ∧ timer.nextRunAt ≤ nowMs := by
  rw [EventLoop.readyTimers, List.mem_mergeSort, List.mem_filter, decide_eq_true_iff]

theorem readyTimers_sorted (loop : EventLoop V) (nowMs : Nat) :
    (loop.readyTimers nowMs).Pairwise (TimerTask.runsBefore · ·) :=
  List.pairwise_mergeSort TimerTask.runsBefore_trans TimerTask.runsBefore_total _

theorem readyTimers_perm (loop : EventLoop V) (nowMs : Nat) : (loop.readyTimers nowMs).Perm
    (loop.timers.filter fun timer => decide (timer.nextRunAt ≤ nowMs)) :=
  List.mergeSort_perm ..

/-- Filtering after a map that fixes what stays. -/
theorem filter_map_of_fixed {α : Type} {f : α → α} {p q : α → Bool} (hp : ∀ a, p (f a) = q a)
    (hf : ∀ a, q a = true → f a = a) (xs : List α) : (xs.map f).filter p = xs.filter q := by
  rw [List.filter_map, show p ∘ f = q from funext hp]
  exact (List.map_congr_left fun a ha => hf a (List.mem_filter.mp ha).2).trans (List.map_id _)

theorem rescheduled_oneShot (loop : EventLoop V) (nowMs : Nat) :
    (loop.rescheduled nowMs).filter TimerTask.oneShot =
      loop.timers.filter fun timer => timer.oneShot && !decide (timer.nextRunAt ≤ nowMs) := by
  rw [EventLoop.rescheduled, List.filter_filter]
  refine filter_map_of_fixed (fun timer => ?_) (fun timer honce => ?_) _
  · cases hrepeats : timer.repeats with
    | true =>
      simp only [and_true]
      split <;> simp [TimerTask.oneShot, hrepeats]
    | false => simp [TimerTask.oneShot, hrepeats, ← decide_not]
  · rw [if_neg]
    rintro ⟨-, hrepeats⟩
    rw [TimerTask.oneShot, hrepeats] at honce
    exact Bool.noConfusion honce

theorem rescheduled_ids (loop : EventLoop V) (nowMs : Nat) :
    ((loop.rescheduled nowMs).map TimerTask.id).Sublist (loop.timers.map TimerTask.id) := by
  unfold EventLoop.rescheduled
  have hmap : loop.timers.map TimerTask.id = (loop.timers.map fun timer =>
      if timer.nextRunAt ≤ nowMs ∧ timer.repeats then
        { timer with nextRunAt := saturatingAdd nowMs timer.intervalMs }
      else timer).map TimerTask.id := by
    rw [List.map_map]
    refine List.map_congr_left fun timer _ => ?_
    show timer.id = TimerTask.id (if _ then _ else _)
    split <;> rfl
  rw [hmap]
  exact List.filter_sublist.map _

/-! ## The queues -/

/-- The queues hold the tasks of the timers that wait. -/
structure Follows (tracked : Tracked V) : Prop where
  order : tracked.loop.order.map Prod.snd = tracked.waiting.map fun timer => timer.task.1
  queues : ∀ source, (tracked.loop.queue source).map Prod.snd =
    (tracked.waiting.filter fun timer => timer.task.1 = source).map fun timer => timer.task.2

theorem Follows.enqueueTimers : ∀ (timers : List (TimerTask V)) {tracked : Tracked V},
    tracked.Follows → Follows
      { loop := Tracked.enqueueTimers tracked.loop timers
        waiting := tracked.waiting ++ timers }
  | [], tracked, h => by
    rw [List.append_nil]
    exact h
  | timer :: timers, tracked, h => by
    have hfirst : Follows
        { loop := tracked.loop.enqueueTimerForDocumentWithMetadata timer.payload
            timer.ownerDocumentId timer.metadata
          waiting := tracked.waiting ++ [timer] } := by
      refine { order := ?_, queues := fun source => ?_ }
      · show (tracked.loop.order ++ [_]).map Prod.snd = _
        rw [List.map_append, List.map_append, h.order]
        rfl
      · show (((tracked.loop.setQueue timer.task.1 (tracked.loop.queue timer.task.1 ++ [_])) source).getD
          []).map Prod.snd = _
        rw [List.filter_append, List.map_append, ← h.queues source, EventLoop.setQueue]
        by_cases hsource : source = timer.task.1
        · subst hsource
          simp [TimerTask.task]
        · have hne : ¬ timer.task.1 = source := fun heq => hsource heq.symm
          simp [hsource, hne, EventLoop.queue]
    have hrest := Follows.enqueueTimers timers hfirst
    rw [List.append_assoc] at hrest
    exact hrest

theorem Follows.popTask (h : tracked.Follows) :
    tracked.loop.popTask.1 = tracked.waiting.head?.map TimerTask.task ∧
      Follows { loop := tracked.loop.popTask.2, waiting := tracked.waiting.tail } := by
  obtain ⟨loop, waiting⟩ := tracked
  cases waiting with
  | nil =>
    have horder : loop.order = [] := List.map_eq_nil_iff.mp h.order
    have hpop : loop.popTask = (none, { loop with order := [] }) := by
      rw [EventLoop.popTask, horder]
      rfl
    rw [hpop]
    exact ⟨rfl, rfl, h.queues⟩
  | cons timer waiting =>
    obtain ⟨⟨number, source⟩, order, horder, hsource, hrest⟩ :=
      List.map_eq_cons_iff.mp h.order
    obtain rfl : source = timer.task.1 := hsource
    have hqueue : (loop.queue timer.task.1).map Prod.snd =
        ((timer :: waiting).filter fun other => other.task.1 = timer.task.1).map
          fun timer => timer.task.2 := h.queues timer.task.1
    rw [List.filter_cons, if_pos (decide_eq_true rfl), List.map_cons] at hqueue
    obtain ⟨⟨id, task⟩, tasks, htasks, htask, htail⟩ := List.map_eq_cons_iff.mp hqueue
    obtain rfl : task = timer.task.2 := htask
    have hsome : loop.queues timer.task.1 = some ((id, timer.task.2) :: tasks) := by
      change (loop.queues timer.task.1).getD [] = _ at htasks
      cases hq : loop.queues timer.task.1 with
      | none =>
        rw [hq] at htasks
        cases htasks
      | some queue =>
        rw [hq] at htasks
        exact congrArg some htasks
    have hpop : loop.popTask = (some timer.task,
        { loop with order, queues := loop.setQueue timer.task.1 tasks }) := by
      change loop.order = _ at horder
      rw [EventLoop.popTask, horder, EventLoop.popFrom, hsome]
    rw [hpop]
    refine ⟨rfl, hrest, fun other => ?_⟩
    show (((loop.setQueue timer.task.1 tasks) other).getD []).map Prod.snd = _
    rw [EventLoop.setQueue]
    by_cases hother : other = timer.task.1
    · subst hother
      rw [if_pos rfl]
      exact htail
    · have hne : ¬ timer.task.1 = other := fun heq => hother heq.symm
      have hq := h.queues other
      rw [List.filter_cons_of_neg (by simpa using hne)] at hq
      rw [if_neg hother]
      exact hq

theorem Follows.step (h : tracked.Follows) (operation : TimerOperation V) :
    (tracked.step operation).Follows ∧
      tracked.returns operation = (tracked.pops operation).map TimerTask.task := by
  cases operation with
  | scheduleTimer payload delay repeats owner metadata => exact ⟨{ h with }, rfl⟩
  | clearTimer id => exact ⟨{ h with }, rfl⟩
  | advance elapsed =>
    have hready := h.enqueueTimers (tracked.promotes (.advance elapsed))
    refine ⟨?_, rfl⟩
    rw [Tracked.step, advance_eq]
    exact { hready with }
  | popTask =>
    obtain ⟨hreturned, hrest⟩ := h.popTask
    refine ⟨hrest, ?_⟩
    rw [returns, hreturned, pops]
    cases tracked.waiting.head? <;> rfl

/-- The tasks that are returned are those of the timers that are popped. -/
theorem Follows.returned_eq : ∀ (operations : List (TimerOperation V)) {tracked : Tracked V},
    tracked.Follows → tracked.returned operations = (tracked.popped operations).map TimerTask.task
  | [], _, _ => rfl
  | operation :: operations, tracked, h => by
    obtain ⟨hstep, hreturns⟩ := h.step operation
    have hrest := Follows.returned_eq operations hstep
    unfold returned popped at *
    rw [Run.emitted_cons, Run.emitted_cons, List.map_append, hreturns, hrest]

/-- Tasks are returned in the order in which they became available. -/
theorem promoted_eq : ∀ (operations : List (TimerOperation V)) (tracked : Tracked V),
    tracked.waiting ++ tracked.promoted operations =
      tracked.popped operations ++ (tracked.run operations).waiting
  | [], tracked => List.append_nil _
  | operation :: operations, tracked => by
    have hstep : tracked.waiting ++ tracked.promotes operation =
        tracked.pops operation ++ (tracked.step operation).waiting := by
      cases operation with
      | advance elapsed => rfl
      | popTask =>
        show tracked.waiting ++ [] = tracked.waiting.head?.toList ++ tracked.waiting.tail
        cases tracked.waiting <;> simp
      | _ => exact List.append_nil _
    have hrest := promoted_eq operations (tracked.step operation)
    unfold promoted popped run at *
    rw [Run.emitted_cons, Run.emitted_cons, ← List.append_assoc, hstep, List.append_assoc, hrest,
      List.append_assoc]
    rfl

/-! ## The order of the tasks -/

/-- The tasks `past` of one-shot timers came in order, and those to come will. -/
structure InOrder (past : List (TimerTask V)) (tracked : Tracked V) : Prop where
  sorted : (past.filter TimerTask.oneShot).Pairwise (TimerTask.runsBefore · ·)
  due : ∀ timer ∈ past, timer.nextRunAt ≤ tracked.loop.nowMs
  past_ids : ∀ timer ∈ past, timer.id ≤ tracked.loop.nextTimerId
  ids : ∀ timer ∈ tracked.loop.timers, timer.id ≤ tracked.loop.nextTimerId
  clock : tracked.loop.nowMs ≤ u64Max
  counter : tracked.loop.nextTimerId ≤ u64Max
  before : ∀ timer ∈ past.filter TimerTask.oneShot,
    ∀ later ∈ tracked.loop.timers.filter TimerTask.oneShot, TimerTask.runsBefore timer later = true

theorem InOrder.start : InOrder [] (start : Tracked V) where
  sorted := List.Pairwise.nil
  due := nofun
  past_ids := nofun
  ids := nofun
  clock := Nat.zero_le _
  counter := show 1 ≤ u64Max by decide
  before := nofun

theorem InOrder.schedule {past : List (TimerTask V)} (h : InOrder past tracked)
    (payload : TimerPayload V) (delay : Nat) (repeats : Bool) (owner : Option Nat)
    (metadata : Option V) :
    InOrder past (tracked.step (.scheduleTimer payload delay repeats owner metadata)) := by
  obtain ⟨timer, -, htimers, hid, hdeadline, -⟩ :=
    schedules_eq tracked payload delay repeats owner metadata
  have hclock := h.clock
  have hcounter := h.counter
  have hnext : tracked.loop.nextTimerId ≤ saturatingAdd tracked.loop.nextTimerId 1 :=
    Nat.le_min.mpr ⟨Nat.le_succ _, hcounter⟩
  have hlate : tracked.loop.nowMs ≤ timer.nextRunAt := by
    rw [hdeadline]
    exact Nat.le_min.mpr ⟨Nat.le_add_right _ _, hclock⟩
  refine {
    sorted := h.sorted
    due := h.due
    past_ids := fun old hold => Nat.le_trans (h.past_ids old hold) hnext
    ids := ?_
    clock := hclock
    counter := saturatingAdd_le _ _
    before := ?_ }
  · intro old hold
    rw [htimers] at hold
    rcases List.mem_append.mp hold with hin | hnew
    · exact Nat.le_trans (h.ids old hin) hnext
    · rw [List.mem_singleton.mp hnew, hid]
      exact hnext
  · intro old hold new hnew
    rw [htimers, List.filter_append, List.mem_append] at hnew
    rcases hnew with hin | hnew
    · exact h.before old hold new hin
    · obtain rfl := List.mem_singleton.mp (List.mem_filter.mp hnew).1
      have hpast := (List.mem_filter.mp hold).1
      have hdue := h.due old hpast
      have hnumber := h.past_ids old hpast
      rw [TimerTask.runsBefore_iff, hid]
      omega

theorem InOrder.clear {past : List (TimerTask V)} (h : InOrder past tracked) (id : Nat) :
    InOrder past (tracked.step (.clearTimer id)) where
  sorted := h.sorted
  due := h.due
  past_ids := h.past_ids
  ids timer htimer := h.ids timer (List.mem_filter.mp htimer).1
  clock := h.clock
  counter := h.counter
  before old hold new hnew :=
    h.before old hold new ((List.filter_sublist.filter TimerTask.oneShot).subset hnew)

theorem enqueueTimers_nextTimerId : ∀ (timers : List (TimerTask V)) (loop : EventLoop V),
    (enqueueTimers loop timers).nextTimerId = loop.nextTimerId
  | [], _ => rfl
  | timer :: timers, loop => enqueueTimers_nextTimerId timers
      (loop.enqueueTimerForDocumentWithMetadata timer.payload timer.ownerDocumentId timer.metadata)

/-- What `advance` leaves. -/
theorem advance_state (loop : EventLoop V) (elapsed : Nat) :
    (loop.advance elapsed).nowMs = saturatingAdd loop.nowMs elapsed ∧
      (loop.advance elapsed).timers = loop.rescheduled (saturatingAdd loop.nowMs elapsed) ∧
      (loop.advance elapsed).nextTimerId = loop.nextTimerId := by
  rw [advance_eq]
  exact ⟨rfl, rfl, enqueueTimers_nextTimerId _ _⟩

theorem InOrder.advance {past : List (TimerTask V)} (h : InOrder past tracked) (elapsed : Nat) :
    InOrder (past ++ tracked.promotes (.advance elapsed)) (tracked.step (.advance elapsed)) := by
  obtain ⟨hnow, htimers, hnext⟩ := advance_state tracked.loop elapsed
  have hlater : tracked.loop.nowMs ≤ saturatingAdd tracked.loop.nowMs elapsed :=
    Nat.le_min.mpr ⟨Nat.le_add_right _ _, h.clock⟩
  have hready : ∀ timer ∈ tracked.promotes (.advance elapsed),
      timer ∈ tracked.loop.timers ∧ timer.nextRunAt ≤ saturatingAdd tracked.loop.nowMs elapsed :=
    fun timer htimer => mem_readyTimers.mp htimer
  refine {
    sorted := ?_
    due := ?_
    past_ids := ?_
    ids := ?_
    clock := ?_
    counter := ?_
    before := ?_ }
  · rw [List.filter_append]
    refine List.pairwise_append.mpr ⟨h.sorted, (readyTimers_sorted _ _).filter _, ?_⟩
    intro old hold new hnew
    obtain ⟨hin, honce⟩ := List.mem_filter.mp hnew
    exact h.before old hold new (List.mem_filter.mpr ⟨(hready new hin).1, honce⟩)
  · intro timer htimer
    show timer.nextRunAt ≤ (tracked.loop.advance elapsed).nowMs
    rw [hnow]
    rcases List.mem_append.mp htimer with hold | hnew
    · exact Nat.le_trans (h.due timer hold) hlater
    · exact (hready timer hnew).2
  · intro timer htimer
    show timer.id ≤ (tracked.loop.advance elapsed).nextTimerId
    rw [hnext]
    rcases List.mem_append.mp htimer with hold | hnew
    · exact h.past_ids timer hold
    · exact h.ids timer (hready timer hnew).1
  · intro timer htimer
    show timer.id ≤ (tracked.loop.advance elapsed).nextTimerId
    have hid : timer.id ∈ (tracked.loop.rescheduled (tracked.later elapsed)).map TimerTask.id :=
      List.mem_map_of_mem (htimers ▸ htimer)
    obtain ⟨old, hold, heq⟩ := List.mem_map.mp ((rescheduled_ids tracked.loop _).subset hid)
    rw [hnext, ← heq]
    exact h.ids old hold
  · show (tracked.loop.advance elapsed).nowMs ≤ u64Max
    rw [hnow]
    exact saturatingAdd_le _ _
  · show (tracked.loop.advance elapsed).nextTimerId ≤ u64Max
    rw [hnext]
    exact h.counter
  · intro old hold new hnew
    change new ∈ (tracked.loop.advance elapsed).timers.filter TimerTask.oneShot at hnew
    rw [htimers, rescheduled_oneShot, List.mem_filter, Bool.and_eq_true] at hnew
    obtain ⟨hin, honce, hlate⟩ := hnew
    rw [List.filter_append, List.mem_append] at hold
    rcases hold with hold | hold
    · exact h.before old hold new (List.mem_filter.mpr ⟨hin, honce⟩)
    · have hdue := (hready old (List.mem_filter.mp hold).1).2
      have hnotDue : ¬ new.nextRunAt ≤ saturatingAdd tracked.loop.nowMs elapsed := by
        simpa using hlate
      exact TimerTask.runsBefore_iff.mpr (Or.inl (Nat.lt_of_le_of_lt hdue (Nat.lt_of_not_le hnotDue)))

theorem popFrom_timers (loop : EventLoop V) (order : List (Nat × TaskSource)) :
    (loop.popFrom order).2.timers = loop.timers ∧
      (loop.popFrom order).2.nowMs = loop.nowMs ∧
      (loop.popFrom order).2.nextTimerId = loop.nextTimerId := by
  induction order with
  | nil => exact ⟨rfl, rfl, rfl⟩
  | cons entry order ih =>
    rw [EventLoop.popFrom]
    split
    · exact ⟨rfl, rfl, rfl⟩
    · exact ih
    · exact ⟨rfl, rfl, rfl⟩

theorem InOrder.pop {past : List (TimerTask V)} (h : InOrder past tracked) :
    InOrder past (tracked.step .popTask) := by
  obtain ⟨htimers, hnow, hnext⟩ := popFrom_timers tracked.loop tracked.loop.order
  exact {
    sorted := h.sorted
    due := fun timer htimer => Nat.le_trans (h.due timer htimer) (Nat.le_of_eq hnow.symm)
    past_ids := fun timer htimer => Nat.le_trans (h.past_ids timer htimer) (Nat.le_of_eq hnext.symm)
    ids := fun timer htimer =>
      Nat.le_trans (h.ids timer (htimers ▸ htimer)) (Nat.le_of_eq hnext.symm)
    clock := Nat.le_trans (Nat.le_of_eq hnow) h.clock
    counter := Nat.le_trans (Nat.le_of_eq hnext) h.counter
    before := fun old hold new hnew => h.before old hold new (htimers ▸ hnew) }

theorem InOrder.step {past : List (TimerTask V)} (h : InOrder past tracked)
    (operation : TimerOperation V) :
    InOrder (past ++ tracked.promotes operation) (tracked.step operation) := by
  cases operation with
  | scheduleTimer payload delay repeats owner metadata =>
    exact (List.append_nil past).symm ▸ h.schedule payload delay repeats owner metadata
  | clearTimer id => exact (List.append_nil past).symm ▸ h.clear id
  | advance elapsed => exact h.advance elapsed
  | popTask => exact (List.append_nil past).symm ▸ h.pop

theorem promoted_sorted (operations : List (TimerOperation V)) :
    ((start.promoted operations).filter TimerTask.oneShot).Pairwise
      (TimerTask.runsBefore · ·) := by
  have h : InOrder ([] ++ start.promoted operations) (start.run operations) :=
    Run.invariant_emitted (fun _ _ operation h => h.step operation) operations InOrder.start
  exact h.sorted

/-! ## The number of the tasks -/

/-- A one-shot timer is scheduled, and then waits for its time until it gives a task
or is cleared. -/
theorem step_oneShot (tracked : Tracked V) (operation : TimerOperation V) :
    List.Subperm ((tracked.promotes operation).filter TimerTask.oneShot ++
        (tracked.step operation).loop.timers.filter TimerTask.oneShot)
      (tracked.loop.timers.filter TimerTask.oneShot ++
        (tracked.schedules operation).filter TimerTask.oneShot) := by
  cases operation with
  | scheduleTimer payload delay repeats owner metadata =>
    obtain ⟨timer, hschedules, htimers, -⟩ :=
      schedules_eq tracked payload delay repeats owner metadata
    rw [hschedules, htimers, List.filter_append]
    exact List.Subperm.refl _
  | clearTimer id =>
    show List.Subperm ((tracked.loop.timers.filter _).filter _) (_ ++ [])
    rw [List.append_nil]
    exact (List.filter_sublist.filter _).subperm
  | advance elapsed =>
    show List.Subperm ((tracked.loop.readyTimers (tracked.later elapsed)).filter _ ++
      (tracked.loop.advance elapsed).timers.filter _) (_ ++ [])
    rw [(advance_state tracked.loop elapsed).2.1, List.append_nil, rescheduled_oneShot]
    have hready := (readyTimers_perm tracked.loop (tracked.later elapsed)).filter
      TimerTask.oneShot
    have hrest : (tracked.loop.timers.filter fun timer =>
          timer.oneShot && !decide (timer.nextRunAt ≤ tracked.later elapsed)) =
        (tracked.loop.timers.filter fun timer =>
          !decide (timer.nextRunAt ≤ tracked.later elapsed)).filter TimerTask.oneShot :=
      List.filter_filter.symm
    refine (hready.append_right _).subperm.trans ?_
    show List.Subperm (_ ++ tracked.loop.timers.filter fun timer =>
      timer.oneShot && !decide (timer.nextRunAt ≤ tracked.later elapsed)) _
    rw [hrest, ← List.filter_append]
    exact ((List.filter_append_perm _ _).filter _).subperm
  | popTask =>
    show List.Subperm (tracked.loop.popTask.2.timers.filter _) (_ ++ [])
    rw [List.append_nil, EventLoop.popTask,
      (popFrom_timers tracked.loop tracked.loop.order).1]

/-- A one-shot timer that is scheduled gives at most one task. -/
theorem promoted_oneShot : ∀ (operations : List (TimerOperation V)) (tracked : Tracked V),
    List.Subperm ((tracked.promoted operations).filter TimerTask.oneShot ++
        (tracked.run operations).loop.timers.filter TimerTask.oneShot)
      (tracked.loop.timers.filter TimerTask.oneShot ++
        (tracked.scheduled operations).filter TimerTask.oneShot)
  | [], _ => by
    show List.Subperm ([] ++ _) (_ ++ [])
    rw [List.nil_append, List.append_nil]
    exact List.Subperm.refl _
  | operation :: operations, tracked => by
    have hstep := step_oneShot tracked operation
    have hrest := promoted_oneShot operations (tracked.step operation)
    unfold promoted scheduled run at *
    rw [Run.emitted_cons, Run.emitted_cons, List.filter_append, List.filter_append,
      List.append_assoc, ← List.append_assoc (tracked.loop.timers.filter _)]
    refine ((List.subperm_append_left _).mpr hrest).trans ?_
    rw [← List.append_assoc]
    exact (List.subperm_append_right _).mpr hstep

theorem step_ids (tracked : Tracked V) (operation : TimerOperation V) :
    List.Subperm ((tracked.step operation).loop.timers.map TimerTask.id)
      (tracked.loop.timers.map TimerTask.id ++ (tracked.schedules operation).map TimerTask.id) := by
  cases operation with
  | scheduleTimer payload delay repeats owner metadata =>
    obtain ⟨timer, hschedules, htimers, -⟩ :=
      schedules_eq tracked payload delay repeats owner metadata
    rw [hschedules, htimers, List.map_append]
  | clearTimer id =>
    show List.Subperm ((tracked.loop.timers.filter _).map _) (_ ++ [])
    rw [List.append_nil]
    exact (List.filter_sublist.map _).subperm
  | advance elapsed =>
    show List.Subperm ((tracked.loop.advance elapsed).timers.map _) (_ ++ [])
    rw [(advance_state tracked.loop elapsed).2.1, List.append_nil]
    exact (rescheduled_ids _ _).subperm
  | popTask =>
    show List.Subperm (tracked.loop.popTask.2.timers.map _) (_ ++ [])
    rw [List.append_nil, EventLoop.popTask,
      (popFrom_timers tracked.loop tracked.loop.order).1]

theorem run_ids : ∀ (operations : List (TimerOperation V)) (tracked : Tracked V),
    List.Subperm ((tracked.run operations).loop.timers.map TimerTask.id)
      (tracked.loop.timers.map TimerTask.id ++ (tracked.scheduled operations).map TimerTask.id)
  | [], _ => by
    show List.Subperm _ (_ ++ [])
    rw [List.append_nil]
    exact List.Subperm.refl _
  | operation :: operations, tracked => by
    have hrest := run_ids operations (tracked.step operation)
    unfold scheduled run at *
    rw [Run.emitted_cons, List.map_append, ← List.append_assoc]
    exact hrest.trans ((List.subperm_append_right _).mpr (step_ids tracked operation))

/-- Timers are numbered as they are scheduled, until the counter stops. -/
structure Numbered (past : List (TimerTask V)) (tracked : Tracked V) : Prop where
  next : tracked.loop.nextTimerId = min (1 + past.length) u64Max
  ids : past.map TimerTask.id = (List.range' 1 past.length).map (min · u64Max)

theorem Numbered.quiet {past : List (TimerTask V)} (h : Numbered past tracked)
    {operation : TimerOperation V} (hnone : tracked.schedules operation = [])
    (hsame : (tracked.step operation).loop.nextTimerId = tracked.loop.nextTimerId) :
    Numbered (past ++ tracked.schedules operation) (tracked.step operation) := by
  rw [hnone, List.append_nil]
  exact { next := hsame.trans h.next, ids := h.ids }

theorem Numbered.step {past : List (TimerTask V)} (h : Numbered past tracked)
    (operation : TimerOperation V) :
    Numbered (past ++ tracked.schedules operation) (tracked.step operation) := by
  cases operation with
  | scheduleTimer payload delay repeats owner metadata =>
    obtain ⟨timer, hschedules, -, hid, -⟩ :=
      schedules_eq tracked payload delay repeats owner metadata
    rw [hschedules]
    refine { next := ?_, ids := ?_ }
    · show saturatingAdd tracked.loop.nextTimerId 1 = _
      rw [h.next, saturatingAdd_count, List.length_append, List.length_singleton]
    · rw [List.length_append, List.length_singleton, List.map_append, List.range'_1_concat,
        List.map_append, h.ids, List.map_singleton, List.map_singleton, hid, h.next]
  | clearTimer id => exact h.quiet rfl rfl
  | advance elapsed => exact h.quiet rfl (advance_state tracked.loop elapsed).2.2
  | popTask => exact h.quiet rfl (popFrom_timers tracked.loop tracked.loop.order).2.2

theorem scheduled_numbered (operations : List (TimerOperation V)) :
    Numbered (start.scheduled operations) (start.run operations) := by
  have h : Numbered ([] ++ start.scheduled operations) (start.run operations) :=
    Run.invariant_emitted (fun _ _ operation h => h.step operation) operations ⟨rfl, rfl⟩
  exact h

/-! ## Two steps of the clock -/

theorem later_later (nowMs a b : Nat) :
    saturatingAdd (saturatingAdd nowMs a) b = saturatingAdd nowMs (a + b) := by
  unfold saturatingAdd
  omega

theorem saturatingAdd_mono (nowMs a b : Nat) :
    saturatingAdd nowMs a ≤ saturatingAdd nowMs (a + b) := by
  unfold saturatingAdd
  omega

/-- The one-shot timers that are ready at a time are those ready at an earlier time,
and then those of the rest. -/
theorem readyTimers_split (loop mid : EventLoop V) {first second : Nat} (hle : first ≤ second)
    (hmid : mid.timers = loop.rescheduled first) :
    (loop.readyTimers second).filter TimerTask.oneShot =
      (loop.readyTimers first).filter TimerTask.oneShot ++
        (mid.readyTimers second).filter TimerTask.oneShot := by
  have hfilter : ∀ (loop : EventLoop V) (nowMs : Nat),
      (loop.readyTimers nowMs).filter TimerTask.oneShot =
        ((loop.timers.filter TimerTask.oneShot).filter fun timer =>
          decide (timer.nextRunAt ≤ nowMs)).mergeSort TimerTask.runsBefore := by
    intro loop nowMs
    rw [EventLoop.readyTimers,
      StableSort.filter_mergeSort TimerTask.runsBefore_trans TimerTask.runsBefore_total,
      List.filter_filter, List.filter_filter]
    simp only [Bool.and_comm]
  have hbefore : ∀ a b : TimerTask V, decide (a.nextRunAt ≤ first) = true →
      decide (b.nextRunAt ≤ first) = false → TimerTask.runsBefore b a = false := by
    intro a b ha hb
    rw [decide_eq_true_iff] at ha
    rw [decide_eq_false_iff_not] at hb
    rw [← Bool.not_eq_true, TimerTask.runsBefore_iff]
    omega
  rw [hfilter, hfilter, hfilter, hmid, rescheduled_oneShot,
    StableSort.mergeSort_split TimerTask.runsBefore_trans TimerTask.runsBefore_total hbefore]
  congr 2
  · rw [List.filter_filter]
    refine List.filter_congr fun timer _ => ?_
    rw [Bool.eq_iff_iff]
    simp only [Bool.and_eq_true, decide_eq_true_iff]
    omega
  · rw [List.filter_filter, List.filter_filter, List.filter_filter]
    refine List.filter_congr fun timer _ => ?_
    simp only [Bool.and_comm, Bool.and_left_comm, Bool.and_assoc]

theorem promoted_split (operations : List (TimerOperation V)) (a b : Nat) :
    (start.promoted (operations ++ [.advance (a + b)])).filter TimerTask.oneShot =
      (start.promoted (operations ++ [.advance a, .advance b])).filter TimerTask.oneShot := by
  obtain ⟨hnow, htimers, -⟩ := advance_state (start.run operations).loop a
  have hsplit := readyTimers_split (start.run operations).loop _ (saturatingAdd_mono _ a b) htimers
  unfold promoted
  rw [Run.emitted_append, Run.emitted_append, List.filter_append, List.filter_append]
  congr 1
  show ((start.run operations).loop.readyTimers _ ++ []).filter _ =
    ((start.run operations).loop.readyTimers _ ++
      (((start.run operations).loop.advance a).readyTimers
        (saturatingAdd ((start.run operations).loop.advance a).nowMs b) ++ [])).filter _
  rw [List.append_nil, List.append_nil, List.filter_append, hnow, later_later]
  exact hsplit

theorem exists_of_mem_rescheduled {loop : EventLoop V} {nowMs : Nat} {timer : TimerTask V}
    (h : timer ∈ loop.rescheduled nowMs) :
    ∃ old ∈ loop.timers, old.id = timer.id ∧ old.oneShot = timer.oneShot := by
  obtain ⟨old, hold, heq⟩ := List.mem_map.mp (List.mem_filter.mp h).1
  refine ⟨old, hold, ?_⟩
  rw [← heq]
  split <;> exact ⟨rfl, rfl⟩

/-- All timers that wait for their time are one-shot. -/
def OneShots (loop : EventLoop V) : Prop := ∀ timer ∈ loop.timers, timer.oneShot = true

theorem OneShots.advance {loop : EventLoop V} (h : OneShots loop) (elapsed : Nat) :
    OneShots (loop.advance elapsed) := by
  intro timer htimer
  rw [(advance_state loop elapsed).2.1] at htimer
  obtain ⟨old, hold, -, honce⟩ := exists_of_mem_rescheduled htimer
  rw [← honce]
  exact h old hold

theorem OneShots.readyTimers_eq {loop : EventLoop V} (h : OneShots loop) (nowMs : Nat) :
    (loop.readyTimers nowMs).filter TimerTask.oneShot = loop.readyTimers nowMs :=
  List.filter_eq_self.mpr fun timer htimer => h timer (mem_readyTimers.mp htimer).1

theorem OneShots.rescheduled_eq {loop : EventLoop V} (h : OneShots loop) (nowMs : Nat) :
    loop.rescheduled nowMs = loop.timers.filter fun timer => !decide (timer.nextRunAt ≤ nowMs) := by
  have hall : ∀ timer ∈ loop.rescheduled nowMs, timer.oneShot = true := by
    intro timer htimer
    obtain ⟨old, hold, -, honce⟩ := exists_of_mem_rescheduled htimer
    rw [← honce]
    exact h old hold
  rw [← List.filter_eq_self.mpr hall, rescheduled_oneShot]
  refine List.filter_congr fun timer htimer => ?_
  rw [h timer htimer, Bool.true_and]

/-- Where all timers are one-shot, the clock may be advanced in two steps. -/
theorem OneShots.advance_advance {loop : EventLoop V} (h : OneShots loop) (a b : Nat) :
    (loop.advance a).advance b = loop.advance (a + b) := by
  obtain ⟨hnow, htimers, -⟩ := advance_state loop a
  have hle := saturatingAdd_mono loop.nowMs a b
  have hready := readyTimers_split loop _ hle htimers
  rw [h.readyTimers_eq, h.readyTimers_eq, (h.advance a).readyTimers_eq] at hready
  have htwice : (loop.advance a).rescheduled (saturatingAdd loop.nowMs (a + b)) =
      loop.rescheduled (saturatingAdd loop.nowMs (a + b)) := by
    rw [(h.advance a).rescheduled_eq, htimers, h.rescheduled_eq, h.rescheduled_eq,
      List.filter_filter]
    refine List.filter_congr fun timer _ => ?_
    rw [Bool.eq_iff_iff]
    simp only [Bool.and_eq_true, Bool.not_eq_true', decide_eq_false_iff_not]
    omega
  rw [advance_eq (loop.advance a), hnow, later_later, htwice, advance_eq loop (a + b), hready,
    advance_eq loop a, enqueueTimers_frame, enqueueTimers, enqueueTimers, enqueueTimers,
    List.foldl_append]

/-- A run that schedules one-shot timers only. -/
theorem run_oneShots : ∀ (operations : List (TimerOperation V)) {tracked : Tracked V},
    OneShots tracked.loop → (∀ timer ∈ tracked.scheduled operations, timer.oneShot = true) →
      OneShots (tracked.run operations).loop
  | [], _, h, _ => h
  | operation :: operations, tracked, h, hscheduled => by
    have hall : ∀ timer ∈ tracked.schedules operation, timer.oneShot = true :=
      fun timer htimer => hscheduled timer (List.mem_append_left _ htimer)
    refine run_oneShots operations ?_ fun timer htimer =>
      hscheduled timer (List.mem_append_right _ htimer)
    cases operation with
    | scheduleTimer payload delay repeats owner metadata =>
      obtain ⟨timer, hschedules, htimers, -⟩ :=
        schedules_eq tracked payload delay repeats owner metadata
      intro other hother
      rw [htimers] at hother
      rcases List.mem_append.mp hother with hin | hnew
      · exact h other hin
      · exact hall other (hschedules ▸ hnew)
    | clearTimer id => exact fun timer htimer => h timer (List.mem_filter.mp htimer).1
    | advance elapsed => exact h.advance elapsed
    | popTask =>
      exact fun timer htimer =>
        h timer ((popFrom_timers tracked.loop tracked.loop.order).1 ▸ htimer)

/-! ## Cleared timers -/

/-- After `clear_timer`, no task of a timer is returned, unless another timer is
scheduled under its id. -/
def Silenced (tracked : Tracked V) (id : Nat) : Prop :=
  ∀ after : List (TimerOperation V),
    (∀ timer ∈ (tracked.step (.clearTimer id)).scheduled after, timer.id ≠ id) →
      ∀ timer ∈ (tracked.step (.clearTimer id)).popped after, timer.id ≠ id

/-- The timers of an id neither wait for their time nor to be popped. -/
structure Gone (id : Nat) (tracked : Tracked V) : Prop where
  timers : ∀ timer ∈ tracked.loop.timers, timer.id ≠ id
  waiting : ∀ timer ∈ tracked.waiting, timer.id ≠ id

theorem Gone.step {id : Nat} (h : Gone id tracked) (operation : TimerOperation V)
    (hscheduled : ∀ timer ∈ tracked.schedules operation, timer.id ≠ id) :
    Gone id (tracked.step operation) ∧ ∀ timer ∈ tracked.pops operation, timer.id ≠ id := by
  cases operation with
  | scheduleTimer payload delay repeats owner metadata =>
    obtain ⟨timer, hschedules, htimers, -⟩ :=
      schedules_eq tracked payload delay repeats owner metadata
    refine ⟨{ timers := fun other hother => ?_, waiting := h.waiting }, nofun⟩
    rw [htimers] at hother
    rcases List.mem_append.mp hother with hin | hnew
    · exact h.timers other hin
    · exact hscheduled other (hschedules ▸ hnew)
  | clearTimer other =>
    exact ⟨{ timers := fun timer htimer => h.timers timer (List.mem_filter.mp htimer).1
             waiting := h.waiting }, nofun⟩
  | advance elapsed =>
    refine ⟨{ timers := fun timer htimer => ?_, waiting := fun timer htimer => ?_ }, nofun⟩
    · change timer ∈ (tracked.loop.advance elapsed).timers at htimer
      rw [(advance_state tracked.loop elapsed).2.1] at htimer
      obtain ⟨old, hold, hid, -⟩ := exists_of_mem_rescheduled htimer
      rw [← hid]
      exact h.timers old hold
    · rcases List.mem_append.mp htimer with hold | hready
      · exact h.waiting timer hold
      · exact h.timers timer (mem_readyTimers.mp hready).1
  | popTask =>
    refine ⟨{ timers := fun timer htimer => ?_, waiting := fun timer htimer => ?_ }, ?_⟩
    · exact h.timers timer ((popFrom_timers tracked.loop tracked.loop.order).1 ▸ htimer)
    · exact h.waiting timer (List.mem_of_mem_tail htimer)
    · intro timer htimer
      exact h.waiting timer (List.mem_of_head? (Option.mem_toList.mp htimer))

theorem Gone.popped {id : Nat} : ∀ (operations : List (TimerOperation V)) {tracked : Tracked V},
    Gone id tracked → (∀ timer ∈ tracked.scheduled operations, timer.id ≠ id) →
      ∀ timer ∈ tracked.popped operations, timer.id ≠ id
  | [], _, _, _ => nofun
  | operation :: operations, tracked, h, hscheduled => by
    obtain ⟨hstep, hpops⟩ := h.step operation fun timer htimer =>
      hscheduled timer (List.mem_append_left _ htimer)
    intro timer htimer
    rcases List.mem_append.mp htimer with hnow | hlater
    · exact hpops timer hnow
    · exact Gone.popped operations hstep
        (fun timer htimer => hscheduled timer (List.mem_append_right _ htimer)) timer hlater

/-- Popping as many tasks as wait returns them all. -/
theorem popped_all : ∀ (waiting : List (TimerTask V)) (loop : EventLoop V),
    popped { loop, waiting } (List.replicate waiting.length .popTask) = waiting ∧
      scheduled { loop, waiting } (List.replicate waiting.length .popTask) = []
  | [], _ => ⟨rfl, rfl⟩
  | timer :: waiting, loop => by
    obtain ⟨hpopped, hscheduled⟩ := popped_all waiting loop.popTask.2
    exact ⟨congrArg (timer :: ·) hpopped, hscheduled⟩

theorem silenced_iff (tracked : Tracked V) (id : Nat) :
    tracked.Silenced id ↔ ∀ timer ∈ tracked.waiting, timer.id ≠ id := by
  constructor
  · intro h timer htimer
    obtain ⟨hpopped, hscheduled⟩ := popped_all tracked.waiting (tracked.loop.clearTimer id)
    refine h (List.replicate tracked.waiting.length .popTask) (fun other hother => ?_) timer ?_
    · change other ∈ scheduled { loop := _, waiting := _ } _ at hother
      rw [hscheduled] at hother
      cases hother
    · show timer ∈ popped { loop := _, waiting := _ } _
      rw [hpopped]
      exact htimer
  · intro hwaiting after hscheduled
    refine Gone.popped after { timers := fun timer htimer => ?_, waiting := hwaiting } hscheduled
    exact of_decide_eq_true (List.mem_filter.mp htimer).2

/-! ## Runs -/

/-- The tasks of a run from a new event loop come in order and once. -/
structure Orderly (operations : List (TimerOperation V)) : Prop where
  /-- The tasks returned are those of timers, in the order in which they became available. -/
  returned_eq : start.returned operations = (start.popped operations).map TimerTask.task
  fifo : start.promoted operations =
    start.popped operations ++ (start.run operations).waiting
  /-- Those of one-shot timers became available in the order of deadline and id. -/
  sorted : ((start.promoted operations).filter TimerTask.oneShot).Pairwise
    (TimerTask.runsBefore · ·)
  /-- Two steps of the clock give what one gives. -/
  split : ∀ a b, (start.promoted (operations ++ [.advance (a + b)])).filter TimerTask.oneShot =
    (start.promoted (operations ++ [.advance a, .advance b])).filter TimerTask.oneShot
  splitOneShots : (∀ timer ∈ start.scheduled operations, timer.oneShot = true) → ∀ a b,
    ((start.run operations).loop.advance a).advance b = (start.run operations).loop.advance (a + b)
  /-- Every one-shot timer gives at most one task, every other at most one at a time. -/
  once : List.Subperm ((start.promoted operations).filter TimerTask.oneShot)
    ((start.scheduled operations).filter TimerTask.oneShot)
  oncePerAdvance : ∀ elapsed, List.Subperm
    (((start.run operations).promotes (.advance elapsed)).map TimerTask.id)
    ((start.scheduled operations).map TimerTask.id)
  numbered : (start.scheduled operations).map TimerTask.id =
    (List.range' 1 (start.scheduled operations).length).map (min · u64Max)

/-- No task of a timer is returned after the timer was cleared. -/
def ClearedForGood (operations : List (TimerOperation V)) : Prop :=
  ∀ before id after, operations = before ++ .clearTimer id :: after →
    (∀ timer ∈ ((start.run before).step (.clearTimer id)).scheduled after, timer.id ≠ id) →
      ∀ timer ∈ ((start.run before).step (.clearTimer id)).popped after, timer.id ≠ id

/-- A step that clears a timer only where none of its tasks waits. -/
def ClearsUnqueued (tracked : Tracked V) (operation : TimerOperation V) : Prop :=
  ∀ id, operation = .clearTimer id → ∀ timer ∈ tracked.waiting, timer.id ≠ id

theorem orderly (operations : List (TimerOperation V)) : Orderly operations where
  returned_eq := Follows.returned_eq operations { order := rfl, queues := fun _ => rfl }
  fifo := promoted_eq operations start
  sorted := promoted_sorted operations
  split := promoted_split operations
  splitOneShots honce := (run_oneShots operations (fun _ hm => by cases hm) honce).advance_advance
  once := by
    have h := promoted_oneShot operations (start : Tracked V)
    exact (List.sublist_append_left _ _).subperm.trans h
  oncePerAdvance elapsed := by
    have hready : List.Subperm (((start.run operations).promotes (.advance elapsed)).map
        TimerTask.id) ((start.run operations).loop.timers.map TimerTask.id) :=
      (((readyTimers_perm _ _).map _).subperm).trans (List.filter_sublist.map _).subperm
    exact hready.trans (run_ids operations start)
  numbered := (scheduled_numbered operations).ids

/-- Timers come in order and once, and a timer stays cleared if and only if none of
its tasks waits when it is cleared. -/
theorem timers_run (operations : List (TimerOperation V)) :
    Orderly operations ∧
      (Run.Along step ClearsUnqueued start operations → ClearedForGood operations) ∧
      ∀ id, (start.run operations).Silenced id ↔
        ∀ timer ∈ (start.run operations).waiting, timer.id ≠ id := by
  refine ⟨orderly operations, ?_, silenced_iff _⟩
  rintro halong before id after rfl
  have hclear := (Run.along_append.mp halong).2.1
  exact (silenced_iff _ id).mpr (hclear id rfl) after

/-- Two timers become due at once, and the task of the first runs. -/
def dueTogether : List (TimerOperation Unit) :=
  [.scheduleTimer (.source ()) 0 false none none, .scheduleTimer (.source ()) 0 false none none,
    .advance 0, .popTask]

/-- When the first of them clears the second, the task of the second still runs. -/
theorem cleared_timer_popped :
    ¬ ∀ operations : List (TimerOperation Unit), ClearedForGood operations := by
  intro h
  have hready : (start.run (dueTogether.take 2)).promotes (.advance 0) =
      (start.run (dueTogether.take 2)).loop.timers :=
    List.mergeSort_of_pairwise (by decide)
  have hpopped : ((start.run dueTogether).step (.clearTimer 2)).popped [.popTask] =
      (start.run (dueTogether.take 2)).loop.timers.tail := by
    show (((start.run (dueTogether.take 2)).promotes (.advance 0)).tail.head?).toList ++ [] = _
    rw [hready]
    rfl
  have hquiet := h (dueTogether ++ [.clearTimer 2, .popTask]) dueTogether 2 [.popTask] rfl nofun
  rw [hpopped] at hquiet
  exact hquiet _ (List.mem_singleton.mpr rfl) rfl

end Tracked

end Omoikane.Js
