import Omoikane.Resource.Moves

/-!
# Exactly one outcome

Every submitted job has one outcome once nothing holds it any more (`Ledger`), a
job that is cancelled in time is not called and not completed (`Held`), and nothing
is taken from a queue whose pool was dropped (`Dropped`).  `queue_delivers` says
this of a queue after any actions.
-/

namespace Omoikane.Resource

open Base

variable {T : Type}

/-! ## The ledger -/

/-- The channel a submission opens. -/
def Event.opened : Event T → Option Channel
  | .submitted _ task => some task.receiver
  | _ => none

/-- The channel an outcome is sent on. -/
def Event.settled : Event T → Option Channel
  | .sent sender _ => some sender
  | _ => none

/-- The outcomes sent on a channel. -/
def outcomes (channel : Channel) (events : List (Event T)) : List (ResourceOutcome T) :=
  events.filterMap fun
    | .sent sender outcome => if sender = channel then some outcome else none
    | _ => none

theorem length_outcomes (channel : Channel) (events : List (Event T)) :
    (outcomes channel events).length = (events.filterMap Event.settled).count channel := by
  induction events with
  | nil => rfl
  | cons event events ih =>
    cases event with
    | sent sender outcome =>
      by_cases h : sender = channel
      · simpa [outcomes, Event.settled, h] using ih
      · simpa [outcomes, Event.settled, h] using ih
    | _ => exact ih

theorem mem_deliver {job : Queued} {outcome : ResourceOutcome T} {event : Event T}
    (h : event ∈ job.deliver outcome) :
    event = .sent job.work.sender outcome ∨ ∃ waker, event = .woke waker := by
  rcases List.mem_cons.mp h with heq | hwoke
  · exact Or.inl heq
  · obtain ⟨waker, -, heq⟩ := List.mem_map.mp (Option.toList_map .. ▸ hwoke)
    exact Or.inr ⟨waker, heq.symm⟩

theorem settled_deliver (job : Queued) (outcome : ResourceOutcome T) :
    (job.deliver outcome).filterMap Event.settled = [job.work.sender] ∧
      (job.deliver outcome).filterMap Event.opened = [] := by
  unfold Queued.deliver
  cases job.work.waker <;> exact ⟨rfl, rfl⟩

namespace System

/-- The channels of the jobs without an outcome. -/
def unsettled (system : System T) : List Channel :=
  system.entries.map fun entry => entry.1.work.sender

/-- What the events of a run say of the state after it: every submission opened its
own channel, and on each an outcome was sent or its job has none yet. -/
structure Ledger (events : List (Event T)) (system : System T) : Prop where
  opened : events.filterMap Event.opened = List.range system.channels
  settled : (events.filterMap Event.opened).Perm
    (system.unsettled ++ events.filterMap Event.settled)
  sender : ∀ job task, .submitted job task ∈ events → job.work.sender = task.receiver

theorem Ledger.new (limit : Nat) : Ledger [] (System.new limit : System T) :=
  ⟨rfl, List.Perm.nil, fun _ _ h => by cases h⟩

/-- What is known of a step that opens and settles nothing. -/
theorem Ledger.still {past events : List (Event T)} {system next : System T}
    (h : Ledger past system) (hchannels : next.channels = system.channels)
    (hunsettled : next.unsettled.Perm system.unsettled)
    (hopened : events.filterMap Event.opened = [])
    (hsettled : events.filterMap Event.settled = []) : Ledger (past ++ events) next := by
  refine ⟨?_, ?_, fun job task hmem => ?_⟩
  · rw [List.filterMap_append, hopened, List.append_nil, hchannels]
    exact h.opened
  · rw [List.filterMap_append, List.filterMap_append, hopened, hsettled, List.append_nil,
      List.append_nil]
    exact h.settled.trans (hunsettled.symm.append_right _)
  · rcases List.mem_append.mp hmem with hm | hm
    · exact h.sender job task hm
    · have hnone : task.receiver ∈ events.filterMap Event.opened :=
        List.mem_filterMap.mpr ⟨_, hm, rfl⟩
      rw [hopened] at hnone
      cases hnone

theorem Next.quiet {cancelled : Bool} {job : Queued} {stage stage' : Option (Stage T)}
    {events : List (Event T)} (h : Next cancelled job stage stage' events) :
    events.filterMap Event.opened = [] ∧ events.filterMap Event.settled = [] := by
  cases h <;> exact ⟨rfl, rfl⟩

theorem Ledger.moved {past events : List (Event T)} {system next : System T}
    (h : Ledger past system) (hmoved : Moved system next events) :
    Ledger (past ++ events) next := by
  cases hmoved with
  | still entries channels => exact h.still channels (entries.map _) rfl rfl
  | refused error entries channels => exact h.still channels (entries.map _) rfl rfl
  | moved job stage stage' events others advance before after channels =>
    obtain ⟨hopened, hsettled⟩ := Next.quiet advance
    have hbefore := before.map fun entry : Entry T => entry.1.work.sender
    have hafter := after.map fun entry : Entry T => entry.1.work.sender
    exact h.still channels (hafter.trans hbefore.symm) hopened hsettled
  | submitted job task sender receiver entries channels =>
    have hunsettled := entries.map fun entry : Entry T => entry.1.work.sender
    refine ⟨?_, ?_, fun other task' hmem => ?_⟩
    · rw [List.filterMap_append, h.opened, channels, List.range_succ, ← receiver]
      rfl
    · rw [List.filterMap_append, List.filterMap_append]
      show (past.filterMap Event.opened ++ [task.receiver]).Perm
        (next.unsettled ++ (past.filterMap Event.settled ++ []))
      rw [List.append_nil, receiver, ← sender]
      refine List.perm_append_comm.trans ((h.settled.cons _).trans ?_)
      exact hunsettled.symm.append_right (past.filterMap Event.settled)
    · rcases List.mem_append.mp hmem with hm | hm
      · exact h.sender other task' hm
      · cases List.mem_singleton.mp hm
        exact sender.trans receiver.symm
  | finished job stage outcome others ready before after channels =>
    obtain ⟨hsettled, hopened⟩ := settled_deliver job outcome
    have hbefore := before.map fun entry : Entry T => entry.1.work.sender
    have hafter := after.map fun entry : Entry T => entry.1.work.sender
    refine ⟨?_, ?_, fun other task hmem => ?_⟩
    · rw [List.filterMap_append, hopened, List.append_nil, channels]
      exact h.opened
    · rw [List.filterMap_append, List.filterMap_append, hopened, hsettled, List.append_nil]
      refine h.settled.trans ((hbefore.append_right _).trans ?_)
      refine List.Perm.trans ?_ (hafter.symm.append_right _)
      rw [← List.append_assoc]
      exact (List.perm_append_singleton _ _).symm
    · rcases List.mem_append.mp hmem with hm | hm
      · exact h.sender other task hm
      · have hnone : task.receiver ∈ (job.deliver outcome).filterMap Event.opened :=
          List.mem_filterMap.mpr ⟨_, hm, rfl⟩
        rw [hopened] at hnone
        cases hnone

/-- The channels of unfinished jobs are known, and no two have one. -/
theorem Ledger.unsettled {events : List (Event T)} {system : System T} (h : Ledger events system) :
    system.unsettled.Nodup ∧ ∀ channel ∈ system.unsettled, channel < system.channels := by
  have hperm := h.settled
  rw [h.opened] at hperm
  constructor
  · have hnodup := hperm.nodup_iff.mp List.nodup_range
    exact (List.nodup_append.mp hnodup).1
  · intro channel hchannel
    exact List.mem_range.mp (hperm.mem_iff.mpr (List.mem_append_left _ hchannel))

/-- A task has one outcome, or its job has none yet. -/
theorem Ledger.length_outcomes {events : List (Event T)} {system : System T}
    (h : Ledger events system) {job : Queued} {task : ResourceTask}
    (hsubmitted : .submitted job task ∈ events) :
    (outcomes task.receiver events).length =
      if task.receiver ∈ system.unsettled then 0 else 1 := by
  have hopened : task.receiver ∈ events.filterMap Event.opened :=
    List.mem_filterMap.mpr ⟨_, hsubmitted, rfl⟩
  have hone : (events.filterMap Event.opened).count task.receiver = 1 := by
    rw [h.opened] at hopened ⊢
    exact List.count_eq_one_of_mem List.nodup_range hopened
  rw [h.settled.count_eq, List.count_append] at hone
  rw [Resource.length_outcomes]
  split
  next hmem =>
    have hpos := List.count_pos_iff.mpr hmem
    omega
  next hnot =>
    rw [List.count_eq_zero_of_not_mem hnot] at hone
    omega

/-! ## Cancelled jobs -/

/-- A submitted job of a cancelled scope, of which `Q` holds as long as it has no outcome. -/
structure Held (Q : Option (Stage T) → Prop) (job : Queued) (system : System T) : Prop where
  dead : job.work.token ∈ system.cancelled
  bound : job.work.sender < system.channels
  held : ∀ entry ∈ system.entries, entry.1.work.sender = job.work.sender →
    entry.1 = job ∧ Q entry.2

/-- A job of a cancelled scope is not called, and its outcome is one that `Q` allows. -/
def Spared (Q : Option (Stage T) → Prop) (job : Queued) (event : Event T) : Prop :=
  event ≠ .called job ∧
    ∀ outcome, event = .sent job.work.sender outcome → ∃ stage, Q stage ∧ Ready stage outcome

variable {Q : Option (Stage T) → Prop} {job : Queued} {system next : System T}
  {events : List (Event T)}

theorem Held.isCancelled (h : Held Q job system) : system.isCancelled job = true :=
  List.contains_iff_mem.mpr h.dead

/-- What a cancelled job may be is kept by every step. -/
theorem Held.moved (hQ : ∀ stage stage' events, Q stage →
      Next (T := T) true job stage stage' events → Q stage')
    (h : Held Q job system) (hmoved : Moved system next events)
    (hcancelled : system.cancelled ⊆ next.cancelled) :
    Held Q job next ∧ ∀ event ∈ events, Spared Q job event := by
  have hdead := hcancelled h.dead
  cases hmoved with
  | still entries channels =>
    refine ⟨⟨hdead, channels ▸ h.bound, fun entry hentry => ?_⟩, fun _ he => by cases he⟩
    exact h.held entry (entries.mem_iff.mp hentry)
  | refused error entries channels =>
    refine ⟨⟨hdead, channels ▸ h.bound, fun entry hentry => ?_⟩, fun event he => ?_⟩
    · exact h.held entry (entries.mem_iff.mp hentry)
    · cases List.mem_singleton.mp he
      exact ⟨nofun, nofun⟩
  | submitted other task sender receiver entries channels =>
    refine ⟨⟨hdead, channels ▸ Nat.lt_succ_of_lt h.bound, fun entry hentry hsame => ?_⟩,
      fun event he => ?_⟩
    · rcases List.mem_cons.mp (entries.mem_iff.mp hentry) with rfl | hold
      · exact absurd (sender.symm.trans hsame) (Nat.ne_of_gt h.bound)
      · exact h.held entry hold hsame
    · cases List.mem_singleton.mp he
      exact ⟨nofun, nofun⟩
  | moved other stage stage' _ others advance before after channels =>
    have hfirst := h.held _ (before.mem_iff.mpr (List.mem_cons_self ..))
    refine ⟨⟨hdead, channels ▸ h.bound, fun entry hentry hsame => ?_⟩, fun event he => ?_⟩
    · rcases List.mem_cons.mp (after.mem_iff.mp hentry) with rfl | hold
      · obtain ⟨heq, hstage⟩ := hfirst hsame
        have heq : other = job := heq
        rw [heq, h.isCancelled] at advance
        exact ⟨heq, hQ _ _ _ hstage advance⟩
      · exact h.held entry (before.mem_iff.mpr (List.mem_cons_of_mem _ hold)) hsame
    · constructor
      · rintro rfl
        cases advance with
        | popped => cases List.mem_singleton.mp he
        | called live =>
          cases List.mem_singleton.mp he
          rw [h.isCancelled] at live
          cases live
        | _ => cases he
      · rintro outcome rfl
        cases advance with
        | popped => cases List.mem_singleton.mp he
        | called => cases List.mem_singleton.mp he
        | _ => cases he
  | finished other stage outcome others ready before after channels =>
    refine ⟨⟨hdead, channels ▸ h.bound, fun entry hentry hsame => ?_⟩, fun event he => ?_⟩
    · exact h.held entry (before.mem_iff.mpr (List.mem_cons_of_mem _ (after.mem_iff.mp hentry)))
        hsame
    · rcases mem_deliver he with rfl | ⟨waker, rfl⟩
      · refine ⟨nofun, fun sent heq => ?_⟩
        injection heq with hsender houtcome
        have hfirst := h.held _ (before.mem_iff.mpr (List.mem_cons_self ..)) hsender
        exact ⟨stage, hfirst.2, houtcome ▸ ready⟩
      · exact ⟨nofun, nofun⟩

/-- Where the reports of an action come from. -/
inductive Reported (system : System T) (action : Action T) : Event T → Prop where
  | submitted (job : Queued) (task : ResourceTask) : Reported system action (.submitted job task)
  | refused {next : System T} (error : SubmitError) (wasOpen : system.handles ≠ 0)
      (submitted : Submitted system (next, .error error)) (step : system.step action = next) :
      Reported system action (.refused error)
  | popped (job : Queued) (jobs : List Queued) (running : system.state.stopped = false)
      (pop : takeGreatest Queued.cmp system.state.jobs = some (job, jobs)) :
      Reported system action (.popped job)
  | called (job : Queued) : Reported system action (.called job)
  | sent (sender : Channel) (outcome : ResourceOutcome T) :
      Reported system action (.sent sender outcome)
  | woke (waker : Waker) : Reported system action (.woke waker)

theorem reported_deliver {action : Action T} {outcome : ResourceOutcome T} {event : Event T}
    (h : event ∈ job.deliver outcome) : Reported system action event := by
  rcases mem_deliver h with rfl | ⟨waker, rfl⟩
  · exact .sent _ _
  · exact .woke waker

theorem reported_work {worker : Nat} {result : Option T} {event : Event T}
    (h : event ∈ (system.work worker result).2) :
    Reported system (.work worker result) event := by
  cases hworker : system.workers[worker]? with
  | none =>
    unfold work at h
    rw [hworker] at h
    cases h
  | some current =>
    cases current with
    | exited =>
      unfold work at h
      rw [hworker] at h
      cases h
    | busy other stage =>
      have hstep := Worker.advance_advanced (system.isCancelled other) result other stage
      rw [work_busy hworker] at h
      revert h hstep
      generalize Worker.advance (system.isCancelled other) result other stage = advanced
      intro h hstep
      cases hstep with
      | moved stage' events next =>
        cases next with
        | called =>
          cases List.mem_singleton.mp h
          exact .called other
        | _ => cases h
      | finished outcome => exact reported_deliver h
    | idle =>
      rw [work_idle hworker] at h
      unfold System.next at h
      split at h
      · cases h
      next hrunning =>
        split at h
        · cases h
        next popped jobs hpop =>
          cases List.mem_singleton.mp h
          exact .popped popped jobs (by simpa using hrunning) hpop

theorem reported {action : Action T} {event : Event T} (h : event ∈ system.emits action) :
    Reported system action event := by
  cases action with
  | submit scope priority kind waker spawns =>
    have hsubmitted := system.submit_submitted scope priority kind waker spawns
    unfold emits act at h
    dsimp only at h
    split at h
    · cases h
    next hopen =>
      split at h
      next _ job task _ =>
        cases List.mem_singleton.mp h
        exact .submitted job task
      next next error heq =>
        cases List.mem_singleton.mp h
        rw [heq] at hsubmitted
        refine .refused error hopen hsubmitted ?_
        rw [step, act, if_neg hopen, heq]
  | clone =>
    unfold emits act at h
    dsimp only at h
    split at h <;> cases h
  | drop =>
    unfold emits act at h
    dsimp only at h
    split at h <;> cases h
  | cancel scope => cases h
  | work worker result => exact reported_work h
  | drain index =>
    unfold emits act at h
    dsimp only at h
    split at h
    · cases h
    · exact reported_deliver h

/-- A refused submission leaves no job queued; where the identities are exhausted,
it leaves those that were queued. -/
theorem jobs_of_refused (hwellFormed : system.WellFormed) {action : Action T}
    {error : SubmitError} (h : .refused error ∈ system.emits action) :
    (system.step action).state.jobs =
      if error = .exhausted then system.state.jobs else [] := by
  cases reported h with
  | refused error wasOpen submitted step =>
    rw [step]
    cases submitted with
    | stopped hstopped => exact hwellFormed.stopped hstopped
    | spawn frame fresh => exact frame.jobs.trans (hwellFormed.started fresh)
    | exhausted frame => exact frame.jobs

/-! ## After the drop -/

/-- The state after the pool was dropped, when some jobs had been taken and not yet called. -/
structure Dropped (taken : Queued → Prop) (system : System T) : Prop where
  wellFormed : system.WellFormed
  handles : system.handles = 0
  taken : ∀ entry ∈ system.entries, ∀ job, entry = (job, some .taken) → taken job

/-- Only the jobs already taken are called after the drop, and no more are taken. -/
theorem Dropped.step {taken : Queued → Prop} (h : Dropped taken system) (action : Action T) :
    Dropped taken (system.step action) ∧
      ∀ event ∈ system.emits action,
        (∀ job, event ≠ .popped job) ∧ ∀ job, event = .called job → taken job := by
  have hpopped : ∀ job, .popped job ∉ system.emits action := by
    intro job hmem
    have hstopped := h.wellFormed.dropped h.handles
    cases reported hmem with
    | popped _ jobs running =>
      rw [running] at hstopped
      cases hstopped
  have hwellFormed := (h.wellFormed.step action).1
  have hhandles := handles_step h.handles action
  have hmoved := system.act_moved action
  revert hpopped hwellFormed hhandles hmoved
  generalize system.step action = next
  generalize system.emits action = events
  intro hpopped hwellFormed hhandles hmoved
  have hnone : ∀ event ∈ events, ∀ job, event ≠ .popped job := by
    rintro event hevent job rfl
    exact hpopped job hevent
  cases hmoved with
  | still entries =>
    exact ⟨⟨hwellFormed, hhandles, fun entry he => h.taken entry (entries.mem_iff.mp he)⟩,
      fun _ he => by cases he⟩
  | refused error entries =>
    refine ⟨⟨hwellFormed, hhandles, fun entry he => h.taken entry (entries.mem_iff.mp he)⟩,
      fun event he => ⟨hnone event he, ?_⟩⟩
    cases List.mem_singleton.mp he
    exact nofun
  | submitted job task sender receiver entries =>
    refine ⟨⟨hwellFormed, hhandles, fun entry he other heq => ?_⟩,
      fun event he => ⟨hnone event he, ?_⟩⟩
    · rcases List.mem_cons.mp (entries.mem_iff.mp he) with rfl | hold
      · cases heq
      · exact h.taken entry hold other heq
    · cases List.mem_singleton.mp he
      exact nofun
  | moved job stage stage' _ others advance before after =>
    have hothers : ∀ entry ∈ others, ∀ job, entry = (job, some .taken) → taken job :=
      fun entry he => h.taken entry (before.mem_iff.mpr (List.mem_cons_of_mem _ he))
    refine ⟨⟨hwellFormed, hhandles, fun entry he other heq => ?_⟩,
      fun event he => ⟨hnone event he, fun other heq => ?_⟩⟩
    · rcases List.mem_cons.mp (after.mem_iff.mp he) with rfl | hold
      · cases heq
        cases advance with
        | popped => exact absurd rfl (hnone _ (List.mem_singleton_self _) _)
      · exact hothers entry hold other heq
    · rw [heq] at he
      cases advance with
      | popped => cases List.mem_singleton.mp he
      | called =>
        cases List.mem_singleton.mp he
        exact h.taken _ (before.mem_iff.mpr (List.mem_cons_self ..)) _ rfl
      | _ => cases he
  | finished job stage outcome others ready before after =>
    refine ⟨⟨hwellFormed, hhandles, fun entry he => ?_⟩,
      fun event he => ⟨hnone event he, fun other heq => ?_⟩⟩
    · exact h.taken entry (before.mem_iff.mpr (List.mem_cons_of_mem _ (after.mem_iff.mp he)))
    · rw [heq] at he
      rcases mem_deliver he with hsent | ⟨waker, hwoke⟩
      · cases hsent
      · cases hwoke

/-! ## Runs -/

/-- A queue after some actions. -/
def after (limit : Nat) (actions : List (Action T)) : System T :=
  Run.run step (new limit) actions

/-- What some actions on a new queue report. -/
def reports (limit : Nat) (actions : List (Action T)) : List (Event T) :=
  Run.emitted step emits (new limit) actions

theorem wellFormed_after (limit : Nat) (actions : List (Action T)) :
    (after limit actions).WellFormed :=
  Run.invariant (I := WellFormed) (fun _ action h => (h.step action).1) actions (.new limit)

theorem ledger_after (limit : Nat) (actions : List (Action T)) :
    Ledger (reports limit actions) (after limit actions) :=
  Run.invariant_emitted (J := Ledger) (fun _ system action h => h.moved (system.act_moved action))
    actions (Ledger.new limit)

/-- What the rest of a run reports of a cancelled job. -/
theorem Held.emitted (hQ : ∀ stage stage' events, Q stage →
      Next (T := T) true job stage stage' events → Q stage')
    (h : Held Q job system) (hwellFormed : system.WellFormed) (later : List (Action T)) :
    ∀ event ∈ Run.emitted step emits system later, Spared Q job event := by
  refine Run.forall_emitted (I := fun system => Held Q job system ∧ system.WellFormed)
    (fun system action h => ?_) later ⟨h, hwellFormed⟩
  obtain ⟨hnext, hcancelled⟩ := h.2.step action
  obtain ⟨hheld, hspared⟩ := h.1.moved hQ (system.act_moved action) hcancelled
  exact ⟨⟨hheld, hnext⟩, hspared⟩

/-- A job that has no outcome is the only one of its channel. -/
theorem Ledger.held {past : List (Event T)} (h : Ledger past system) {stage : Option (Stage T)}
    (hentry : (job, stage) ∈ system.entries) (hdead : job.work.token ∈ system.cancelled)
    (hQ : Q stage) : Held Q job system where
  dead := hdead
  bound := h.unsettled.2 _ (List.mem_map_of_mem hentry)
  held other hother hsame := by
    have heq := List.inj_on_of_nodup_map h.unsettled.1 hother hentry hsame
    rw [heq]
    exact ⟨rfl, hQ⟩

/-- A job that has not been called. -/
def NotStarted (stage : Option (Stage T)) : Prop := stage = none ∨ stage = some .taken

/-- A job whose work has not returned. -/
def NotReturned (stage : Option (Stage T)) : Prop := NotStarted stage ∨ stage = some .working

/-- A job of a cancelled scope that has not been called is reported as cancelled. -/
theorem cancelled_of_notStarted (limit : Nat) (actions later : List (Action T))
    {stage : Option (Stage T)} (hentry : (job, stage) ∈ (after limit actions).entries)
    (hdead : job.work.token ∈ (after limit actions).cancelled) (hstage : NotStarted stage) :
    .called job ∉ Run.emitted step emits (after limit actions) later ∧
      ∀ outcome, .sent job.work.sender outcome ∈
        Run.emitted step emits (after limit actions) later → outcome = .cancelled := by
  have hheld := (ledger_after limit actions).held (Q := fun stage : Option (Stage T) =>
    NotStarted stage ∨ stage = some (.decided .cancelled)) hentry hdead (Or.inl hstage)
  have hspared := hheld.emitted (fun stage stage' events hstage hnext => by
    cases hnext with
    | popped => exact Or.inl (Or.inr rfl)
    | abandoned => exact Or.inr rfl
    | called live => cases live
    | _ => rcases hstage with (h | h) | h <;> cases h) (wellFormed_after limit actions) later
  refine ⟨fun hcalled => (hspared _ hcalled).1 rfl, fun outcome hsent => ?_⟩
  obtain ⟨stage, hstage, hready⟩ := (hspared _ hsent).2 outcome rfl
  cases hready with
  | drained => rfl
  | decided =>
    rcases hstage with (h | h) | h <;> cases h
    rfl

/-- A job whose scope is cancelled before its work returns is not reported as complete. -/
theorem not_complete_of_notReturned (limit : Nat) (actions later : List (Action T))
    {stage : Option (Stage T)} (hentry : (job, stage) ∈ (after limit actions).entries)
    (hdead : job.work.token ∈ (after limit actions).cancelled) (hstage : NotReturned stage)
    (value : T) : .sent job.work.sender (.complete value) ∉
      Run.emitted step emits (after limit actions) later := by
  have hstart : ∀ value, stage ≠ some (.decided (.complete value)) := by
    rintro value rfl
    rcases hstage with (h | h) | h <;> cases h
  have hheld := (ledger_after limit actions).held (Q := fun stage : Option (Stage T) =>
    ∀ value, stage ≠ some (.decided (.complete value))) hentry hdead hstart
  have hspared := hheld.emitted (fun stage stage' events hstage hnext => by
    cases hnext with
    | completed live => cases live
    | _ => exact nofun) (wellFormed_after limit actions) later
  intro hsent
  obtain ⟨stage, hstage, hready⟩ := (hspared _ hsent).2 _ rfl
  cases hready with
  | decided => exact hstage value rfl

/-- After the drop no job is taken, and only those that were taken before are called. -/
theorem not_popped_of_dropped (limit : Nat) (actions later : List (Action T))
    (hdropped : (after limit actions).handles = 0) :
    (∀ job, .popped job ∉ Run.emitted step emits (after limit actions) later) ∧
      ∀ job, .called job ∈ Run.emitted step emits (after limit actions) later →
        (job, some .taken) ∈ (after limit actions).entries := by
  have hstart : Dropped (fun job => (job, some .taken) ∈ (after limit actions).entries)
      (after limit actions) :=
    ⟨wellFormed_after limit actions, hdropped, fun entry he job heq => heq ▸ he⟩
  have hreports := Run.forall_emitted (I := Dropped _) (fun _ action h => h.step action)
    later hstart
  exact ⟨fun job hpopped => (hreports _ hpopped).1 job rfl,
    fun job hcalled => (hreports _ hcalled).2 job rfl⟩

end System

/-- Of a queue after any actions: every submitted job sends one outcome, on the
channel of its own task, unless it is still queued or in the hands of a worker or of
the drop; a worker takes a job of the greatest priority, the earliest of these; a
refused submission leaves no job queued; a job that was cancelled before it was
called is not called and reported as cancelled, and one that was cancelled before
its work returned is not reported as complete; and after the drop of the pool no job
is taken, so that none is called but those taken before. -/
theorem queue_delivers (limit : Nat) (actions : List (System.Action T)) :
    let system := System.after limit actions
    let events := System.reports limit actions
    (∀ job task, .submitted job task ∈ events → job.work.sender = task.receiver ∧
      (outcomes task.receiver events).length =
        if task.receiver ∈ system.unsettled then 0 else 1) ∧
    (∀ action job, .popped job ∈ system.emits action → job ∈ system.state.jobs ∧
      ∀ other ∈ system.state.jobs, other.priority < job.priority ∨
        other.priority = job.priority ∧ job.id ≤ other.id) ∧
    (∀ action error, .refused error ∈ system.emits action →
      (system.step action).state.jobs =
        if error = .exhausted then system.state.jobs else []) ∧
    ∀ later, let future := Run.emitted System.step System.emits system later
      (∀ job stage, (job, stage) ∈ system.entries → job.work.token ∈ system.cancelled →
        (System.NotStarted stage → .called job ∉ future ∧
          ∀ outcome, .sent job.work.sender outcome ∈ future → outcome = .cancelled) ∧
        (System.NotReturned stage → ∀ value, .sent job.work.sender (.complete value) ∉ future)) ∧
      (system.handles = 0 → (∀ job, .popped job ∉ future) ∧
        ∀ job, .called job ∈ future → (job, some .taken) ∈ system.entries) := by
  intro system events
  have hledger := System.ledger_after limit actions
  have hwellFormed := System.wellFormed_after limit actions
  refine ⟨fun job task hsubmitted => ?_, fun action job hpopped => ?_,
    fun action error hrefused => System.jobs_of_refused hwellFormed hrefused, fun later => ?_⟩
  · exact ⟨hledger.sender job task hsubmitted, hledger.length_outcomes hsubmitted⟩
  · cases System.reported hpopped with
    | popped _ jobs running hpop =>
      refine ⟨(perm_of_takeGreatest hpop).mem_iff.mpr (List.mem_cons_self ..),
        fun other hother => ?_⟩
      exact Queued.isLE_cmp_iff.mp (greatest_of_takeGreatest hpop other hother)
  · refine ⟨fun job stage hentry hdead => ⟨fun hstage => ?_, fun hstage value => ?_⟩,
      System.not_popped_of_dropped limit actions later⟩
    · exact System.cancelled_of_notStarted limit actions later hentry hdead hstage
    · exact System.not_complete_of_notReturned limit actions later hentry hdead hstage value

end Omoikane.Resource
