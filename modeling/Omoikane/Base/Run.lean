import Mathlib

/-!
# Runs of a transition function

A deterministic system is a step function `σ → α → σ` on states and actions.
A run applies a list of actions in order.  An invariant of the step is an
invariant of every run (`Run.invariant`), and whatever a run makes true, one of
its steps makes true first (`Run.first_step`).

The second part is about systems that report.  Every step emits a list of
reports and has an observation of its state.  If a step that emits nothing
leaves the observation alone, a run whose observation changed has emitted
something (`Run.emitted_of_obs_ne`).  If moreover the last report of a step
always describes the observation it leaves behind, the last report of a run
describes the observation at its end (`Run.last_emitted_describes`).

The third part splits each action into elementary ones: emitting actions instead
of reports turns a run into a run of the finer system (`Run.run_refine`).
-/

namespace Base

namespace Run

section

variable {σ α : Type} (step : σ → α → σ)

/-- The state after a list of actions. -/
def run (s : σ) (actions : List α) : σ := actions.foldl step s

@[simp] theorem run_nil (s : σ) : run step s [] = s := rfl

@[simp] theorem run_cons (s : σ) (a : α) (actions : List α) :
    run step s (a :: actions) = run step (step s a) actions := rfl

theorem run_append (s : σ) (xs ys : List α) :
    run step s (xs ++ ys) = run step (run step s xs) ys := by
  simp [run, List.foldl_append]

/-- `G` holds of every step of a run: of the state before it and the action. -/
def Along (G : σ → α → Prop) : σ → List α → Prop
  | _, [] => True
  | s, a :: actions => G s a ∧ Along G (step s a) actions

variable {step}

theorem along_append {G : σ → α → Prop} {xs ys : List α} {s : σ} :
    Along step G s (xs ++ ys) ↔ Along step G s xs ∧ Along step G (run step s xs) ys := by
  induction xs generalizing s with
  | nil => exact ⟨fun h => ⟨trivial, h⟩, And.right⟩
  | cons a xs ih =>
    show G s a ∧ Along step G (step s a) (xs ++ ys) ↔ _
    rw [ih, ← and_assoc]
    rfl

/-- Where the states are the actions taken so far, the property at an action is
about those before it. -/
theorem Along.at_prefix {G : List α → α → Prop} {before after past : List α} {a : α}
    (h : Along (fun past a => past ++ [a]) G past (before ++ a :: after)) :
    G (past ++ before) a := by
  have hrun : run (fun past a => past ++ [a]) past before = past ++ before := by
    induction before generalizing past with
    | nil => exact (List.append_nil past).symm
    | cons b before ih =>
      rw [run_cons, ih h.2, List.append_assoc, List.singleton_append]
  rw [← hrun]
  exact (along_append.mp h).2.1

theorem Along.and {G H : σ → α → Prop} : ∀ {actions : List α} {s : σ},
    Along step G s actions → Along step H s actions →
      Along step (fun s a => G s a ∧ H s a) s actions
  | [], _, _, _ => trivial
  | _ :: _, _, hG, hH => ⟨⟨hG.1, hH.1⟩, hG.2.and hH.2⟩

/-- A property of the actions alone holds along every run of them. -/
theorem along_of_mem {P : α → Prop} : ∀ {actions : List α} {s : σ},
    (∀ a ∈ actions, P a) → Along step (fun _ a => P a) s actions
  | [], _, _ => trivial
  | a :: _, _, h =>
    ⟨h a (List.mem_cons_self ..), along_of_mem fun b hb => h b (List.mem_cons_of_mem _ hb)⟩

/-- A property kept by the steps that meet `G` is kept by a run of such steps. -/
theorem invariant_along {I : σ → Prop} {G : σ → α → Prop}
    (hstep : ∀ s a, I s → G s a → I (step s a)) : ∀ (actions : List α) {s : σ}, I s →
      Along step G s actions → I (run step s actions)
  | [], _, h, _ => h
  | a :: actions, _, h, hG => invariant_along hstep actions (hstep _ a h hG.1) hG.2

/-- Properties of the steps that are equivalent under an invariant and a property
of the actions hold along the same runs. -/
theorem along_congr {I : σ → Prop} {G H : σ → α → Prop} {P : α → Prop}
    (hI : ∀ s a, I s → I (step s a)) (h : ∀ s a, I s → P a → (G s a ↔ H s a)) :
    ∀ {actions : List α} {s : σ}, I s → (∀ a ∈ actions, P a) →
      (Along step G s actions ↔ Along step H s actions)
  | [], _, _, _ => Iff.rfl
  | a :: _, s, hs, hP =>
    and_congr (h s a hs (hP a (List.mem_cons_self ..)))
      (along_congr hI h (hI s a hs) fun b hb => hP b (List.mem_cons_of_mem _ hb))

/-- A property kept by the step is kept by every run. -/
theorem invariant {I : σ → Prop} (hstep : ∀ s a, I s → I (step s a)) :
    ∀ (actions : List α) {s : σ}, I s → I (run step s actions)
  | [], _, h => h
  | a :: actions, _, h => invariant hstep actions (hstep _ a h)

/-- What holds after a run and not before it became true at one of its steps. -/
theorem first_step {P : σ → Prop} :
    ∀ (actions : List α) {s : σ}, ¬ P s → P (run step s actions) →
      ∃ before a after, actions = before ++ a :: after ∧ ¬ P (run step s before) ∧
        P (step (run step s before) a)
  | [], _, hs, h => absurd h hs
  | a :: actions, s, hs, h => by
    by_cases ha : P (step s a)
    · exact ⟨[], a, actions, rfl, hs, ha⟩
    · obtain ⟨before, b, after, rfl, hn, hp⟩ := first_step actions ha h
      exact ⟨a :: before, b, after, rfl, hn, hp⟩

end

/-! ## Reports -/

section

variable {σ α ω ρ : Type} (step : σ → α → σ) (emits : σ → α → List ρ)

/-- The reports of a run, in order. -/
def emitted : σ → List α → List ρ
  | _, [] => []
  | s, a :: actions => emits s a ++ emitted (step s a) actions

@[simp] theorem emitted_nil (s : σ) : emitted step emits s [] = [] := rfl

@[simp] theorem emitted_cons (s : σ) (a : α) (actions : List α) :
    emitted step emits s (a :: actions) = emits s a ++ emitted step emits (step s a) actions := rfl

theorem emitted_append (s : σ) (xs ys : List α) :
    emitted step emits s (xs ++ ys) =
      emitted step emits s xs ++ emitted step emits (run step s xs) ys := by
  induction xs generalizing s with
  | nil => rfl
  | cons a xs ih =>
    rw [List.cons_append, emitted_cons, emitted_cons, ih, List.append_assoc]
    rfl

/-- Filtering the reports of each step filters the reports of the run. -/
theorem emitted_filter (p : ρ → Bool) : ∀ (actions : List α) (s : σ),
    emitted step (fun s a => (emits s a).filter p) s actions =
      (emitted step emits s actions).filter p
  | [], _ => rfl
  | a :: actions, s => by
    rw [emitted_cons, emitted_cons, List.filter_append, emitted_filter p actions]

variable {step emits} {I : σ → Prop} {G : σ → α → Prop} {obs : σ → ω}

/-- What every step from an invariant state emits, a run emits. -/
theorem forall_emitted {P : ρ → Prop} (hstep : ∀ s a, I s → I (step s a) ∧ ∀ r ∈ emits s a, P r) :
    ∀ (actions : List α) {s : σ}, I s → ∀ r ∈ emitted step emits s actions, P r
  | [], _, _, _, hr => by cases hr
  | a :: actions, s, hs, r, hr => by
    rcases List.mem_append.mp hr with hr | hr
    · exact (hstep s a hs).2 r hr
    · exact forall_emitted hstep actions (hstep s a hs).1 r hr

/-- An invariant of the state and of what has been emitted before it. -/
theorem invariant_emitted {J : List ρ → σ → Prop}
    (hstep : ∀ past s a, J past s → J (past ++ emits s a) (step s a)) :
    ∀ (actions : List α) {past : List ρ} {s : σ}, J past s →
      J (past ++ emitted step emits s actions) (run step s actions)
  | [], past, _, h => by
    rw [emitted_nil, List.append_nil]
    exact h
  | a :: actions, past, s, h => by
    rw [emitted_cons, ← List.append_assoc]
    exact invariant_emitted hstep actions (hstep past s a h)

/-- A run whose observation changed has emitted a report.  `G` is what every
step of the run may assume of its state and action, and `I` an invariant. -/
theorem emitted_of_obs_ne (hI : ∀ s a, I s → G s a → I (step s a))
    (hquiet : ∀ s a, I s → G s a → emits s a = [] → obs (step s a) = obs s) :
    ∀ (actions : List α) {s : σ}, I s → Along step G s actions →
      obs (run step s actions) ≠ obs s → emitted step emits s actions ≠ []
  | [], _, _, _, hne => absurd rfl hne
  | a :: actions, s, hs, hG, hne => by
    intro hnil
    rw [emitted_cons, List.append_eq_nil_iff] at hnil
    have hstep : obs (step s a) = obs s := hquiet s a hs hG.1 hnil.1
    refine emitted_of_obs_ne hI hquiet actions (hI s a hs hG.1) hG.2 ?_ hnil.2
    rwa [hstep]

/-- If the last report of every step describes the observation after it, and a
step without a report keeps the observation, then the last report of a run
describes the observation at its end. -/
theorem last_emitted_describes {D : ρ → ω → Prop}
    (hI : ∀ s a, I s → G s a → I (step s a))
    (hquiet : ∀ s a, I s → G s a → emits s a = [] → obs (step s a) = obs s)
    (hlast : ∀ s a r, I s → G s a → (emits s a).getLast? = some r → D r (obs (step s a))) :
    ∀ (actions : List α) {s : σ} {r : ρ}, I s → Along step G s actions →
      (emitted step emits s actions).getLast? = some r → D r (obs (run step s actions))
  | [], _, _, _, _, h => by cases h
  | a :: actions, s, r, hs, hG, h => by
    have hs' : I (step s a) := hI s a hs hG.1
    by_cases hrest : emitted step emits (step s a) actions = []
    · -- nothing is emitted later, so the observation stays as this step left it
      rw [emitted_cons, hrest, List.append_nil] at h
      have hobs : obs (run step (step s a) actions) = obs (step s a) := by
        apply Classical.byContradiction
        intro hne
        exact emitted_of_obs_ne hI hquiet actions hs' hG.2 hne hrest
      rw [run_cons, hobs]
      exact hlast s a r hs hG.1 h
    · rw [emitted_cons, List.getLast?_append, Option.or_of_isSome (by simpa using hrest)] at h
      exact last_emitted_describes hI hquiet hlast actions hs' hG.2 h

end

/-! ## Elementary actions -/

section

variable {σ α β : Type} {step : σ → α → σ} {micro : σ → β → σ} {parts : σ → α → List β}

/-- A run is the run of the parts of its actions. -/
theorem run_refine (h : ∀ s a, step s a = run micro s (parts s a)) :
    ∀ (actions : List α) (s : σ),
      run step s actions = run micro s (emitted step parts s actions)
  | [], _ => rfl
  | a :: actions, s => by
    rw [run_cons, emitted_cons, run_append, ← h, run_refine h actions]

/-- What every action makes its parts meet, the parts of a run meet. -/
theorem Along.refine {I : σ → Prop} {G : σ → α → Prop} {H : σ → β → Prop}
    (h : ∀ s a, step s a = run micro s (parts s a)) (hI : ∀ s a, I s → I (step s a))
    (hparts : ∀ s a, I s → G s a → Along micro H s (parts s a)) :
    ∀ (actions : List α) {s : σ}, I s → Along step G s actions →
      Along micro H s (emitted step parts s actions)
  | [], _, _, _ => trivial
  | a :: actions, s, hs, hG => by
    refine along_append.mpr ⟨hparts s a hs hG.1, ?_⟩
    rw [← h]
    exact Along.refine h hI hparts actions (hI s a hs) hG.2

end

end Run

end Base
