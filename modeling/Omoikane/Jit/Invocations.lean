import Omoikane.Jit.FramesInStep

/-!
# Invocations

Every invocation leaves the frames and the roots as they were at its entry, or
empty after a throw, whatever its helper does (`invoke_spec`).  At every
collection, and wherever spilled values are read, both lists are those of the
invocations that were entered and have not returned (`RuntimeEvent.Sound`).
-/

namespace Omoikane.Jit

open Base JitFrameChain

variable {V : Type}

/-- A throw or an allocation failure. -/
def Completion.throws : Completion V → Bool
  | .returned result => result.throws
  | .panicked => false

open RuntimeState in
/-- What holds at a report. -/
def RuntimeEvent.Sound : RuntimeEvent V → Prop
  | .collected stack state =>
    state.frameIds = stack ∧ state.rootIds = stack ∧
      (∃ lookups, resolveSafepoints state.pcTable state.activeFrames = .ok lookups) ∧
      ∃ traced, state.trace = some traced ∧
        ∀ roots ∈ state.activeRoots, ∀ value ∈ roots.values, value ∈ traced
  | .read stack arguments state =>
    state.frameIds = stack ∧ state.rootIds = stack ∧
      state.activeRoots.getLast?.map ActiveFrameRoots.values = some arguments
  | .finished before after completion =>
    if completion.throws then after.activeFrames = [] ∧ after.activeRoots = []
    else after.activeFrames = before.activeFrames ∧ after.activeRoots = before.activeRoots

namespace RuntimeState

/-- A state inside the invocations of a stack, the innermost with these arguments. -/
structure Inside (arguments : List V) (stack : List Nat) (state : RuntimeState V) : Prop where
  inStep : state.InStep
  frameIds : state.frameIds = stack
  spilled : state.activeRoots.getLast?.map ActiveFrameRoots.values = some arguments

variable {arguments : List V} {stack : List Nat} {state before after : RuntimeState V}

theorem Inside.kept (h : Inside arguments stack before) (hkept : Kept before after) :
    Inside arguments stack after := by
  refine ⟨h.inStep.kept hkept, hkept.frameIds.trans h.frameIds, ?_⟩
  rw [hkept.roots]
  exact h.spilled

theorem Inside.collected (h : Inside arguments stack state) :
    (RuntimeEvent.collected stack state).Sound :=
  ⟨h.frameIds, h.inStep.rootIds.trans h.frameIds, h.inStep.resolves, h.inStep.trace⟩

theorem Inside.read (h : Inside arguments stack state) :
    (RuntimeEvent.read stack arguments state).Sound :=
  ⟨h.frameIds, h.inStep.rootIds.trans h.frameIds, h.spilled⟩

end RuntimeState

namespace JitRuntimeCall

open RuntimeState

variable {runtime : JitRuntimeCall} {arguments : List V} {stack : List Nat}
  {state before : RuntimeState V}

/-! ## Helpers -/

/-- What a helper of the innermost invocation does: it keeps the frames and the roots, or
a throw from a nested invocation took them off. -/
structure HelperSpec (before : RuntimeState V) (helped : Helped V) : Prop where
  sound : ∀ event ∈ helped.events, event.Sound
  left : Kept before helped.state ∨
    Cleared before helped.state ∧ helped.completion.throws = true

theorem allocateValue_spec (h : Inside arguments stack before) (kind : JitAllocationKind)
    (circumstances : Circumstances V) (hkept : Kept before state) :
    HelperSpec before (allocateValue kind arguments circumstances stack state) := by
  refine ⟨fun event hm => ?_, Or.inl hkept⟩
  rcases List.mem_append.mp hm with hm | hm
  · split at hm
    · rw [List.mem_singleton.mp hm]
      exact (h.kept hkept).read
    · cases hm
  · rw [List.eq_of_mem_replicate hm]
    exact (h.kept hkept).collected

theorem allocateHelper_spec (h : Inside arguments stack before) (kind : JitAllocationKind)
    (circumstances : Circumstances V) :
    HelperSpec before (allocateHelper kind arguments circumstances stack before) := by
  unfold allocateHelper
  split
  · exact ⟨nofun, Or.inl (.refl before)⟩
  · dsimp only
    split
    · have hcharged : Kept before { before with
          allocationBudget := before.allocationBudget.map (· - 1) } := ⟨rfl, rfl, rfl⟩
      have hcollected := (h.kept hcharged).collected
      split
      · refine ⟨fun event hm => ?_, Or.inl ⟨rfl, rfl, rfl⟩⟩
        rw [List.mem_singleton.mp hm]
        exact hcollected
      · have hrefilled : Kept before { before with
            allocationBudget := before.allocationBudget.map (· - 1)
            fastRemaining := before.fastCapacity - 1 } := ⟨rfl, rfl, rfl⟩
        have hallocated := allocateValue_spec h kind circumstances hrefilled
        refine ⟨fun event hm => ?_, hallocated.left⟩
        rcases List.mem_cons.mp hm with rfl | hm
        · exact hcollected
        · exact hallocated.sound event hm
    · exact allocateValue_spec h kind circumstances ⟨rfl, rfl, rfl⟩

theorem collectHelper_spec (h : Inside arguments stack before) (circumstances : Circumstances V)
    {reads : List (RuntimeEvent V)} (hreads : ∀ event ∈ reads, event.Sound)
    (result : RuntimeResult V) :
    HelperSpec before (collectHelper circumstances stack before reads result) := by
  unfold collectHelper
  split
  · refine ⟨fun event hm => ?_, Or.inl (.refl before)⟩
    rw [List.mem_singleton.mp hm]
    exact h.collected
  · refine ⟨fun event hm => ?_, Or.inl (.refl before)⟩
    rcases List.mem_cons.mp hm with rfl | hm
    · exact h.collected
    · exact hreads event hm

/-! ## Invocations -/

/-- What an invocation does: it keeps the frames and the roots unless it throws. -/
structure InvokeSpec (before : RuntimeState V) (helped : Helped V) : Prop where
  sound : ∀ event ∈ helped.events, event.Sound
  left : if helped.completion.throws then Cleared before helped.state
    else Kept before helped.state

theorem InvokeSpec.helper {helped : Helped V} (h : InvokeSpec before helped) :
    HelperSpec before helped := by
  refine ⟨h.sound, ?_⟩
  have hleft := h.left
  split at hleft
  next hthrows => exact Or.inr ⟨hleft, hthrows⟩
  next => exact Or.inl hleft

theorem refuse_spec (state : RuntimeState V) {completion : Completion V}
    (h : completion.throws = false) : InvokeSpec state (refuse state completion) := by
  have hnot : ¬ completion.throws = true := by
    rw [h]
    exact Bool.false_ne_true
  refine ⟨fun event hm => ?_, ?_⟩
  · rw [List.mem_singleton.mp hm]
    show if completion.throws then _ else _
    rw [if_neg hnot]
    exact ⟨rfl, rfl⟩
  · show if completion.throws then _ else _
    rw [if_neg hnot]
    exact .refl state

/-- The end of an invocation that pushed a frame with its roots. -/
theorem finish_spec {entered : RuntimeState V} {frame : ActiveJitFrame}
    {last : ActiveFrameRoots V} (hentered : entered.InStep) {helped : Helped V}
    (h : HelperSpec entered helped)
    (hframes : entered.activeFrames = before.activeFrames ++ [frame])
    (hroots : entered.activeRoots = before.activeRoots ++ [last])
    (htable : entered.pcTable = before.pcTable) (hid : frame.header.frameId = last.frameId) :
    InvokeSpec before (finish before frame.header.frameId helped) ∧
      ∃ result, (finish before frame.header.frameId helped).completion = .returned result := by
  -- where the lists were cleared by a throw nothing is left to remove
  have hleave : ∃ after, helped.state.leave frame.header.frameId (trampoline helped.completion) =
      (true, after) ∧ if (trampoline helped.completion).throws then Cleared before after
        else Kept before after := by
    rcases h.left with hkept | ⟨hcleared, hthrows⟩
    · have hleave := (hentered.kept hkept).leave (hkept.frames.trans hframes)
        (hkept.roots.trans hroots) hid (trampoline helped.completion)
      refine ⟨_, hleave, ?_⟩
      split
      · exact ⟨rfl, rfl, hkept.table.trans htable⟩
      · exact ⟨rfl, rfl, hkept.table.trans htable⟩
    · refine ⟨helped.state, leave_of_nil hcleared.frames .., ?_⟩
      have hresult : (trampoline helped.completion).throws = true := by
        revert hthrows
        cases helped.completion with
        | returned result => exact id
        | panicked => exact nofun
      rw [hresult, if_pos rfl]
      exact ⟨hcleared.frames, hcleared.roots, hcleared.table.trans htable⟩
  obtain ⟨after, hleft, hafter⟩ := hleave
  unfold finish
  dsimp only
  rw [hleft]
  dsimp only
  rw [if_pos rfl]
  refine ⟨⟨fun event hm => ?_, hafter⟩, _, rfl⟩
  rcases List.mem_append.mp hm with hm | hm
  · exact h.sound event hm
  · rw [List.mem_singleton.mp hm]
    show if (trampoline helped.completion).throws then _ else _
    split at hafter
    next hthrows =>
      rw [if_pos hthrows]
      exact ⟨hafter.frames, hafter.roots⟩
    next hthrows =>
      rw [if_neg hthrows]
      exact ⟨hafter.frames, hafter.roots⟩

/-- The frame and the roots of an invocation. -/
theorem Wired.enter (hwired : runtime.Wired state.pcTable) (hstate : state.InStep)
    {request : RuntimeRequest} {code : RuntimeCallCode}
    (hcode : runtime.codeFor request arguments.length = some code)
    {circumstances : Circumstances V} {activeFrames : JitFrameChain}
    (hpush : JitFrameChain.push state.activeFrames (newFrame code circumstances state) =
      .ok activeFrames) :
    activeFrames = state.activeFrames ++ [newFrame code circumstances state] ∧
      RuntimeState.InStep { state with
        activeFrames
        activeRoots := state.activeRoots ++
          [{ frameId := circumstances.frameId, values := arguments }] } := by
  obtain ⟨hlinked, rfl⟩ := hstate.linked.push_ok hpush
  refine ⟨rfl, hstate.installed, hlinked, ?_⟩
  refine List.rel_append hstate.spilled (.cons ⟨rfl, code, ?_, rfl, rfl⟩ .nil)
  exact hwired.stubs request _ code hcode

variable [Inhabited V] {world : Nat → Circumstances V}

/-- An invocation whose helper keeps its promise. -/
theorem invoke_of_dispatch (hwired : runtime.Wired state.pcTable) (hstate : state.InStep)
    (hframes : state.frameIds = stack) {request : RuntimeRequest}
    (hdispatch : ∀ entered : RuntimeState V, entered.pcTable = state.pcTable →
      Inside arguments (stack ++ [(world stack.length).frameId]) entered →
      HelperSpec entered (runtime.dispatch arguments world request
        (stack ++ [(world stack.length).frameId]) entered)) :
    InvokeSpec state (runtime.invoke arguments world request stack state) ∧
      (state.activeFrames = [] →
        ∃ result, (runtime.invoke arguments world request stack state).completion =
          .returned result) := by
  rw [invoke]
  split
  · exact ⟨refuse_spec state rfl, fun _ => ⟨_, rfl⟩⟩
  next hcount =>
    obtain ⟨code, hcode⟩ := hwired.covers request arguments.length (Nat.le_of_not_lt hcount)
    rw [hcode]
    dsimp only
    cases hpush : JitFrameChain.push state.activeFrames (newFrame code (world stack.length) state) with
    | error error =>
      refine ⟨refuse_spec state rfl, fun hempty => ?_⟩
      -- the first frame is always pushed
      unfold JitFrameChain.push newFrame nextCaller at hpush
      rw [hempty] at hpush
      cases hpush
    | ok activeFrames =>
      obtain ⟨rfl, hentered⟩ := hwired.enter hstate hcode hpush
      have hinside : Inside arguments (stack ++ [(world stack.length).frameId]) { state with
          activeFrames := state.activeFrames ++ [newFrame code (world stack.length) state]
          activeRoots := state.activeRoots ++
            [{ frameId := (world stack.length).frameId, values := arguments }] } := by
        refine ⟨hentered, ?_, ?_⟩
        · rw [← hframes]
          exact List.map_append
        · dsimp only
          rw [List.getLast?_concat]
          rfl
      obtain ⟨hspec, hreturned⟩ :=
        finish_spec hentered (hdispatch _ rfl hinside) rfl rfl rfl rfl
      exact ⟨hspec, fun _ => hreturned⟩

/-- A request that makes no invocation keeps the frames and the roots. -/
theorem dispatch_of_leaf (hinside : Inside arguments stack state) {request : RuntimeRequest}
    (hleaf : request.nesting = 0) :
    HelperSpec state (runtime.dispatch arguments world request stack state) := by
  cases request with
  | allocate kind =>
    rw [dispatch]
    exact allocateHelper_spec hinside kind _
  | throw =>
    rw [dispatch]
    exact collectHelper_spec hinside _ (List.forall_mem_nil _) _
  | nestedThrow => cases hleaf
  | nestedAllocate kind => cases hleaf
  | collectMinor =>
    rw [dispatch]
    refine collectHelper_spec hinside _ (fun event hm => ?_) _
    rw [List.mem_singleton.mp hm]
    exact hinside.read
  | collectMajor =>
    rw [dispatch]
    refine collectHelper_spec hinside _ (fun event hm => ?_) _
    rw [List.mem_singleton.mp hm]
    exact hinside.read

theorem invoke_of_leaf (hwired : runtime.Wired state.pcTable) (hstate : state.InStep)
    (hframes : state.frameIds = stack) {request : RuntimeRequest} (hleaf : request.nesting = 0) :
    InvokeSpec state (runtime.invoke arguments world request stack state) :=
  (invoke_of_dispatch hwired hstate hframes fun _ _ hinside => dispatch_of_leaf hinside hleaf).1

/-- Every helper keeps its promise. -/
theorem dispatch_spec (hwired : runtime.Wired state.pcTable) (hinside : Inside arguments stack state)
    (request : RuntimeRequest) :
    HelperSpec state (runtime.dispatch arguments world request stack state) := by
  cases request with
  | nestedThrow =>
    rw [dispatch]
    exact (invoke_of_leaf hwired hinside.inStep hinside.frameIds rfl).helper
  | nestedAllocate kind =>
    rw [dispatch]
    exact (invoke_of_leaf hwired hinside.inStep hinside.frameIds rfl).helper
  | allocate kind => exact dispatch_of_leaf hinside rfl
  | throw => exact dispatch_of_leaf hinside rfl
  | collectMinor => exact dispatch_of_leaf hinside rfl
  | collectMajor => exact dispatch_of_leaf hinside rfl

/-- Every invocation keeps the frames and the roots unless it throws. -/
theorem invoke_spec (hwired : runtime.Wired state.pcTable) (hstate : state.InStep)
    (hframes : state.frameIds = stack) (request : RuntimeRequest) :
    InvokeSpec state (runtime.invoke arguments world request stack state) ∧
      (state.activeFrames = [] →
        ∃ result, (runtime.invoke arguments world request stack state).completion =
          .returned result) :=
  invoke_of_dispatch hwired hstate hframes fun _ htable hinside =>
    dispatch_spec (htable ▸ hwired) hinside request

end JitRuntimeCall

end Omoikane.Jit
