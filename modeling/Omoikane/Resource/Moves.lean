import Omoikane.Resource.Queue

/-!
# What the actions do to the jobs

`System.Moved` says what an action of the queue does to the jobs that have no
outcome yet, up to their order, and `System.WellFormed` is the invariant of the
state behind the mutex.  The proofs about runs use these and not the actions.
-/

namespace Omoikane.Resource

open Base

variable {T : Type}

/-! ## Priorities -/

instance : Std.TransCmp Queued.cmp :=
  inferInstanceAs (Std.TransCmp (compareLex (compareOn Queued.priority)
    fun job other => compareOn Queued.id other job))

/-- Not greater: of lower priority, or of the same and submitted later. -/
theorem Queued.isLE_cmp_iff {job other : Queued} :
    (Queued.cmp other job).isLE = true ↔
      other.priority < job.priority ∨ other.priority = job.priority ∧ job.id ≤ other.id := by
  rw [Queued.cmp, Ordering.isLE_then_iff_or, compare_lt_iff_lt, compare_eq_iff_eq,
    Nat.isLE_compare]

/-! ## Unfinished jobs -/

/-- A job without an outcome, and how far it has come; none if no worker has it. -/
abbrev Entry (T : Type) := Queued × Option (Stage T)

/-- The job of a worker that has one. -/
def Worker.entry : Worker T → Option (Entry T)
  | .busy job stage => some (job, some stage)
  | .idle | .exited => none

theorem filterMap_entry_cons (worker : Worker T) (workers : List (Worker T)) :
    (worker :: workers).filterMap Worker.entry =
      worker.entry.toList ++ workers.filterMap Worker.entry := by
  rw [List.filterMap_cons]
  cases worker.entry <;> rfl

/-- What one step does to a job that has no outcome yet. -/
inductive Next (cancelled : Bool) (job : Queued) :
    Option (Stage T) → Option (Stage T) → List (Event T) → Prop where
  | popped : Next cancelled job none (some .taken) [.popped job]
  | called (live : cancelled = false) :
      Next cancelled job (some .taken) (some .working) [.called job]
  | abandoned (dead : cancelled = true) :
      Next cancelled job (some .taken) (some (.decided .cancelled)) []
  | returned (result : Option T) :
      Next cancelled job (some .working) (some (.returned result)) []
  | completed (live : cancelled = false) (value : T) :
      Next cancelled job (some (.returned (some value))) (some (.decided (.complete value))) []
  | discarded (dead : cancelled = true) (value : T) :
      Next cancelled job (some (.returned (some value))) (some (.decided .cancelled)) []
  | panicked : Next cancelled job (some (.returned none)) (some (.decided .panicked)) []

/-- What a step of the closure of a job comes to. -/
inductive Advanced (cancelled : Bool) (job : Queued) (stage : Stage T) :
    Worker T × List (Event T) → Prop where
  | moved (stage' : Stage T) (events : List (Event T))
      (next : Next cancelled job (some stage) (some stage') events) :
      Advanced cancelled job stage (.busy job stage', events)
  | finished (outcome : ResourceOutcome T) (decided : stage = .decided outcome) :
      Advanced cancelled job stage (.idle, job.deliver outcome)

theorem Worker.advance_advanced (cancelled : Bool) (result : Option T) (job : Queued)
    (stage : Stage T) :
    Advanced cancelled job stage (Worker.advance cancelled result job stage) := by
  cases stage with
  | taken =>
    cases cancelled with
    | true => exact .moved _ _ (.abandoned rfl)
    | false => exact .moved _ _ (.called rfl)
  | working => exact .moved _ _ (.returned result)
  | returned returned =>
    cases returned with
    | none => exact .moved _ _ .panicked
    | some value =>
      cases cancelled with
      | true => exact .moved _ _ (.discarded rfl value)
      | false => exact .moved _ _ (.completed rfl value)
  | decided outcome => exact .finished outcome rfl

/-- The outcome of a job that is ready to be sent: decided by a worker, or that of a drain. -/
inductive Ready : Option (Stage T) → ResourceOutcome T → Prop where
  | decided (outcome : ResourceOutcome T) : Ready (some (.decided outcome)) outcome
  | drained : Ready none .cancelled

namespace System

/-- The jobs without an outcome. -/
def entries (system : System T) : List (Entry T) :=
  (system.state.jobs ++ system.draining).map (·, none) ++ system.workers.filterMap Worker.entry

/-- What an action does to the jobs without an outcome. -/
inductive Moved (system : System T) : System T → List (Event T) → Prop where
  | still {next : System T} (entries : next.entries.Perm system.entries)
      (channels : next.channels = system.channels) : Moved system next []
  | refused {next : System T} (error : SubmitError) (entries : next.entries.Perm system.entries)
      (channels : next.channels = system.channels) : Moved system next [.refused error]
  | submitted {next : System T} (job : Queued) (task : ResourceTask)
      (sender : job.work.sender = system.channels) (receiver : task.receiver = system.channels)
      (entries : next.entries.Perm ((job, none) :: system.entries))
      (channels : next.channels = system.channels + 1) :
      Moved system next [.submitted job task]
  | moved {next : System T} (job : Queued) (stage stage' : Option (Stage T))
      (events : List (Event T)) (others : List (Entry T))
      (advance : Next (system.isCancelled job) job stage stage' events)
      (before : system.entries.Perm ((job, stage) :: others))
      (after : next.entries.Perm ((job, stage') :: others))
      (channels : next.channels = system.channels) : Moved system next events
  | finished {next : System T} (job : Queued) (stage : Option (Stage T))
      (outcome : ResourceOutcome T) (others : List (Entry T)) (ready : Ready stage outcome)
      (before : system.entries.Perm ((job, stage) :: others))
      (after : next.entries.Perm others)
      (channels : next.channels = system.channels) : Moved system next (job.deliver outcome)

variable (system : System T)

/-- The jobs without an outcome, one worker apart. -/
theorem entries_worker {index : Nat} {worker : Worker T}
    (h : system.workers[index]? = some worker) :
    ∃ others, system.entries.Perm (worker.entry.toList ++ others) ∧
      ∀ next, ({ system with workers := system.workers.set index next } : System T).entries.Perm
        (next.entry.toList ++ others) := by
  obtain ⟨hlt, hworker⟩ := List.getElem?_eq_some_iff.mp h
  refine ⟨(system.state.jobs ++ system.draining).map (·, none) ++
    (system.workers.eraseIdx index).filterMap Worker.entry, ?_, fun next => ?_⟩
  · have hperm := ((List.getElem_cons_eraseIdx_perm hlt).filterMap Worker.entry).symm
    rw [hworker, filterMap_entry_cons] at hperm
    exact (hperm.append_left _).trans (List.perm_append_comm_assoc ..)
  · have hperm := (List.set_perm_cons_eraseIdx hlt next).filterMap Worker.entry
    rw [filterMap_entry_cons] at hperm
    exact (hperm.append_left _).trans (List.perm_append_comm_assoc ..)

variable {system}

theorem work_busy {index : Nat} {job : Queued} {stage : Stage T}
    (h : system.workers[index]? = some (.busy job stage)) (result : Option T) :
    system.work index result =
      ({ system with
          workers := system.workers.set index
            (Worker.advance (system.isCancelled job) result job stage).1 },
        (Worker.advance (system.isCancelled job) result job stage).2) := by
  rw [work, h]

theorem busy_moved {index : Nat} {job : Queued} {stage : Stage T}
    (h : system.workers[index]? = some (.busy job stage)) (result : Option T) :
    Moved system (system.work index result).1 (system.work index result).2 := by
  obtain ⟨others, hbefore, hafter⟩ := system.entries_worker h
  rw [work_busy h]
  have hadvance := Worker.advance_advanced (system.isCancelled job) result job stage
  revert hadvance
  generalize Worker.advance (system.isCancelled job) result job stage = advanced
  intro hadvance
  cases hadvance with
  | moved stage' events next => exact .moved job _ _ events others next hbefore (hafter _) rfl
  | finished outcome heq =>
    rw [heq] at hbefore
    exact .finished job _ outcome others (.decided outcome) hbefore (hafter .idle) rfl

theorem work_idle {index : Nat} (h : system.workers[index]? = some .idle) (result : Option T) :
    system.work index result =
      ({ system with state := system.next.1, workers := system.workers.set index system.next.2.1 },
        system.next.2.2) := by
  rw [work, h]

theorem idle_moved {index : Nat} (h : system.workers[index]? = some .idle) (result : Option T) :
    Moved system (system.work index result).1 (system.work index result).2 := by
  obtain ⟨others, hbefore, hafter⟩ := system.entries_worker h
  rw [work_idle h]
  unfold next
  split
  · exact .still ((hafter .exited).trans hbefore.symm) rfl
  · cases hpop : takeGreatest Queued.cmp system.state.jobs with
    | none => exact .still ((hafter .idle).trans hbefore.symm) rfl
    | some popped =>
      obtain ⟨job, jobs⟩ := popped
      have hjobs := perm_of_takeGreatest hpop
      -- the entries that are neither the popped job nor that of this worker
      obtain ⟨busy, hworkers, hset⟩ : ∃ busy,
          (system.workers.filterMap Worker.entry).Perm busy ∧ ∀ stage,
            ((system.workers.set index (.busy job stage)).filterMap Worker.entry).Perm
              ((job, some stage) :: busy) := by
        obtain ⟨hlt, hworker⟩ := List.getElem?_eq_some_iff.mp h
        refine ⟨(system.workers.eraseIdx index).filterMap Worker.entry, ?_, fun stage => ?_⟩
        · have hperm := ((List.getElem_cons_eraseIdx_perm hlt).filterMap Worker.entry).symm
          rw [hworker, filterMap_entry_cons] at hperm
          exact hperm
        · exact (List.set_perm_cons_eraseIdx hlt _).filterMap Worker.entry
      refine .moved job none _ _ ((jobs ++ system.draining).map (·, none) ++ busy) .popped
        ?_ ?_ rfl
      · have hleft := ((hjobs.append_right system.draining).map fun job =>
          ((job, none) : Entry T)).append hworkers
        exact hleft
      · have hright := (hset .taken).append_left
          ((jobs ++ system.draining).map fun job => ((job, none) : Entry T))
        exact hright.trans List.perm_middle

/-- What the start of the workers leaves alone. -/
structure Started (system next : System T) : Prop where
  entries : next.entries = system.entries
  channels : next.channels = system.channels
  handles : next.handles = system.handles
  cancelled : next.cancelled = system.cancelled
  jobs : next.state.jobs = system.state.jobs
  started : next.state.started = true

theorem start_started (system : System T) (spawns : Nat → Bool) :
    Started system (system.start spawns).1 := by
  unfold start
  split
  next hstarted => exact ⟨rfl, rfl, rfl, rfl, rfl, hstarted⟩
  · refine ⟨?_, rfl, rfl, rfl, rfl, rfl⟩
    have hidle : ((system.spawned spawns).map fun _ => (.idle : Worker T)).filterMap
        Worker.entry = [] := by
      rw [List.filterMap_map]
      exact List.filterMap_eq_nil_iff.mpr fun _ _ => rfl
    show _ ++ (system.workers ++ _).filterMap Worker.entry = system.entries
    rw [List.filterMap_append, hidle, List.append_nil]
    rfl

/-- The queue is stopped by its start exactly if a thread could not be created. -/
theorem start_stopped (spawns : Nat → Bool) (h : system.state.stopped = false) :
    (system.start spawns).1.state.stopped = !(system.start spawns).2 ∧
      ((system.start spawns).2 = false → system.state.started = false) := by
  unfold start
  split
  · exact ⟨h, fun hfailed => by cases hfailed⟩
  next hfresh =>
    refine ⟨?_, fun _ => by simpa using hfresh⟩
    exact (Bool.not_not _).symm

/-- What a submission comes to. -/
inductive Submitted (system : System T) :
    System T × Except SubmitError (Queued × ResourceTask) → Prop where
  | stopped (stopped : system.state.stopped = true) : Submitted system (system, .error .stopped)
  | spawn {next : System T} (frame : Started system next) (fresh : system.state.started = false) :
      Submitted system (next, .error .spawn)
  | exhausted {next : System T} (frame : Started system next)
      (running : next.state.stopped = false) : Submitted system (next, .error .exhausted)
  | queued {next : System T} (frame : Started system next) (running : next.state.stopped = false)
      (job : Queued) (task : ResourceTask) (sender : job.work.sender = system.channels)
      (receiver : task.receiver = system.channels) :
      Submitted system ({ next with
        state := { next.state with
          nextId := next.state.nextId + 1
          jobs := job :: next.state.jobs }
        channels := next.channels + 1 }, .ok (job, task))

theorem submit_submitted (scope : ResourceScope) (priority : ResourcePriority)
    (kind : ResourceKind) (waker : Option Waker) (spawns : Nat → Bool) :
    Submitted system (system.submit scope priority kind waker spawns) := by
  unfold submit
  split
  next hstopped => exact .stopped hstopped
  next hrunning =>
    have hstarted := system.start_started spawns
    have hstop := system.start_stopped spawns (by simpa using hrunning)
    revert hstarted hstop
    generalize system.start spawns = started
    obtain ⟨started, ok⟩ := started
    intro hstarted hstop
    cases ok with
    | false => exact .spawn hstarted (hstop.2 rfl)
    | true =>
      show Submitted system (started.push scope priority kind waker)
      unfold push
      dsimp only at hstarted hstop ⊢
      split
      · exact .exhausted hstarted hstop.1
      · exact .queued hstarted hstop.1 _ _ hstarted.channels hstarted.channels

theorem submit_moved {scope : ResourceScope} {priority : ResourcePriority} {kind : ResourceKind}
    {waker : Option Waker} {spawns : Nat → Bool} :
    Moved system (system.act (.submit scope priority kind waker spawns)).1
      (system.act (.submit scope priority kind waker spawns)).2 := by
  have hsubmitted := system.submit_submitted scope priority kind waker spawns
  unfold act
  dsimp only
  split
  · exact .still (List.Perm.refl _) rfl
  · revert hsubmitted
    generalize system.submit scope priority kind waker spawns = submitted
    intro hsubmitted
    cases hsubmitted with
    | stopped => exact .refused _ (List.Perm.refl _) rfl
    | spawn frame => exact .refused _ (.of_eq frame.entries) frame.channels
    | exhausted frame => exact .refused _ (.of_eq frame.entries) frame.channels
    | queued frame running job task sender receiver =>
      refine .submitted job task sender receiver (.of_eq ?_) (congrArg (· + 1) frame.channels)
      rw [← frame.entries]
      rfl

theorem drain_moved {index : Nat} {job : Queued} (h : system.draining[index]? = some job) :
    Moved system { system with draining := system.draining.eraseIdx index }
      (job.deliver .cancelled) := by
  obtain ⟨hlt, hjob⟩ := List.getElem?_eq_some_iff.mp h
  have hdraining : system.draining.Perm (job :: system.draining.eraseIdx index) := by
    rw [← hjob]
    exact (List.getElem_cons_eraseIdx_perm hlt).symm
  have hjobs := ((hdraining.append_left system.state.jobs).trans List.perm_middle).map
    fun job => ((job, none) : Entry T)
  exact .finished job none _ _ .drained (hjobs.append_right _) (List.Perm.refl _) rfl

/-- Every action moves the jobs in one of these ways. -/
theorem act_moved (system : System T) (action : Action T) :
    Moved system (system.step action) (system.emits action) := by
  cases action with
  | submit scope priority kind waker spawns => exact submit_moved
  | clone =>
    unfold step emits act
    dsimp only
    split <;> exact .still (List.Perm.refl _) rfl
  | drop =>
    unfold step emits act
    dsimp only
    split
    · exact .still (List.Perm.refl _) rfl
    · have hjobs : (system.draining ++ system.state.jobs).Perm
          (system.state.jobs ++ system.draining) := List.perm_append_comm
      exact .still ((hjobs.map _).append_right _) rfl
    · exact .still (List.Perm.refl _) rfl
  | cancel scope => exact .still (List.Perm.refl _) rfl
  | work worker result =>
    show Moved system (system.work worker result).1 (system.work worker result).2
    cases hworker : system.workers[worker]? with
    | none =>
      unfold work
      rw [hworker]
      exact .still (List.Perm.refl _) rfl
    | some current =>
      cases current with
      | idle => exact idle_moved hworker result
      | exited =>
        unfold work
        rw [hworker]
        exact .still (List.Perm.refl _) rfl
      | busy job stage => exact busy_moved hworker result
  | drain index =>
    unfold step emits act
    dsimp only
    split
    · exact .still (List.Perm.refl _) rfl
    next job hjob => exact drain_moved hjob

/-! ## The state behind the mutex -/

/-- What holds of the state: only a queue that has started and not stopped holds jobs. -/
structure WellFormed (system : System T) : Prop where
  stopped : system.state.stopped = true → system.state.jobs = []
  started : system.state.started = false → system.state.jobs = []
  dropped : system.handles = 0 → system.state.stopped = true

theorem WellFormed.new (limit : Nat) : (System.new limit : System T).WellFormed :=
  ⟨fun _ => rfl, fun _ => rfl, fun h => absurd h Nat.one_ne_zero⟩

/-- A worker takes jobs away, and only from a queue that is not stopped. -/
theorem work_state (worker : Nat) (result : Option T) :
    (system.work worker result).1.handles = system.handles ∧
    (system.work worker result).1.cancelled = system.cancelled ∧
    (system.work worker result).1.state.stopped = system.state.stopped ∧
    (system.work worker result).1.state.started = system.state.started ∧
    (system.state.jobs = [] → (system.work worker result).1.state.jobs = []) := by
  cases hworker : system.workers[worker]? with
  | none =>
    unfold work
    rw [hworker]
    exact ⟨rfl, rfl, rfl, rfl, id⟩
  | some current =>
    cases current with
    | exited =>
      unfold work
      rw [hworker]
      exact ⟨rfl, rfl, rfl, rfl, id⟩
    | busy job stage =>
      rw [work_busy hworker]
      exact ⟨rfl, rfl, rfl, rfl, id⟩
    | idle =>
      rw [work_idle hworker]
      unfold next
      split
      · exact ⟨rfl, rfl, rfl, rfl, id⟩
      · split
        · exact ⟨rfl, rfl, rfl, rfl, id⟩
        next job jobs hpop =>
          refine ⟨rfl, rfl, rfl, rfl, fun hnil => ?_⟩
          rw [hnil] at hpop
          cases hpop

theorem WellFormed.submit (h : system.WellFormed)
    {submitted : System T × Except SubmitError (Queued × ResourceTask)}
    (hsubmitted : Submitted system submitted) (hhandles : system.handles ≠ 0) :
    submitted.1.WellFormed ∧ system.cancelled ⊆ submitted.1.cancelled := by
  cases hsubmitted with
  | stopped => exact ⟨h, List.Subset.refl _⟩
  | spawn frame fresh =>
    have hjobs := frame.jobs.trans (h.started fresh)
    refine ⟨⟨fun _ => hjobs, fun _ => hjobs, fun hnone => ?_⟩, frame.cancelled ▸ .refl _⟩
    exact absurd (frame.handles.symm.trans hnone) hhandles
  | exhausted frame running =>
    refine ⟨⟨fun hstopped => ?_, fun hfresh => ?_, fun hnone => ?_⟩, frame.cancelled ▸ .refl _⟩
    · rw [running] at hstopped
      cases hstopped
    · rw [frame.started] at hfresh
      cases hfresh
    · exact absurd (frame.handles.symm.trans hnone) hhandles
  | queued frame running job task sender receiver =>
    refine ⟨⟨fun hstopped => ?_, fun hfresh => ?_, fun hnone => ?_⟩, frame.cancelled ▸ .refl _⟩
    · exact absurd hstopped (by rw [running]; decide)
    · exact absurd hfresh (by rw [frame.started]; decide)
    · exact absurd (frame.handles.symm.trans hnone) hhandles

/-- The state stays well formed, and cancellation is for good. -/
theorem WellFormed.step (h : system.WellFormed) (action : Action T) :
    (system.step action).WellFormed ∧ system.cancelled ⊆ (system.step action).cancelled := by
  cases action with
  | submit scope priority kind waker spawns =>
    have hsubmitted := system.submit_submitted scope priority kind waker spawns
    unfold System.step act
    dsimp only
    split
    · exact ⟨h, List.Subset.refl _⟩
    next hhandles =>
      have hnext := h.submit hsubmitted hhandles
      split
      next heq =>
        rw [heq] at hnext
        exact hnext
      next heq =>
        rw [heq] at hnext
        exact hnext
  | clone =>
    unfold System.step act
    dsimp only
    split
    · exact ⟨h, List.Subset.refl _⟩
    · exact ⟨⟨h.stopped, h.started, fun hnone => absurd hnone (Nat.succ_ne_zero _)⟩, .refl _⟩
  | drop =>
    unfold System.step act
    dsimp only
    split
    · exact ⟨h, List.Subset.refl _⟩
    · exact ⟨⟨fun _ => rfl, fun _ => rfl, fun _ => rfl⟩, List.Subset.refl _⟩
    · exact ⟨⟨h.stopped, h.started, fun hnone => absurd hnone (Nat.succ_ne_zero _)⟩, .refl _⟩
  | cancel scope => exact ⟨⟨h.stopped, h.started, h.dropped⟩, List.subset_cons_self ..⟩
  | work worker result =>
    obtain ⟨hhandles, hcancelled, hstopped, hstarted, hjobs⟩ :=
      system.work_state worker result
    refine ⟨⟨fun hs => hjobs (h.stopped ?_), fun hs => hjobs (h.started ?_), fun hn => ?_⟩, ?_⟩
    · exact hstopped.symm.trans hs
    · exact hstarted.symm.trans hs
    · exact hstopped.trans (h.dropped (hhandles.symm.trans hn))
    · exact List.Subset.trans (List.Subset.refl _) (hcancelled ▸ List.Subset.refl _)
  | drain index =>
    unfold System.step act
    dsimp only
    split
    · exact ⟨h, List.Subset.refl _⟩
    · exact ⟨⟨h.stopped, h.started, h.dropped⟩, List.Subset.refl _⟩

/-- A pool that was dropped stays so. -/
theorem handles_step (h : system.handles = 0) (action : Action T) :
    (system.step action).handles = 0 := by
  cases action with
  | submit scope priority kind waker spawns =>
    unfold System.step act
    dsimp only
    rw [if_pos h]
    exact h
  | clone =>
    unfold System.step act
    dsimp only
    rw [if_pos h]
    exact h
  | drop =>
    unfold System.step act
    dsimp only
    rw [h]
    exact h
  | cancel scope => exact h
  | work worker result => exact (system.work_state worker result).1.trans h
  | drain index =>
    unfold System.step act
    dsimp only
    split <;> exact h

end System

end Omoikane.Resource
