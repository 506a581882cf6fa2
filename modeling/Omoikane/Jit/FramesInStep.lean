import Omoikane.Jit.RuntimeCall

/-!
# Frames and roots in step

Every active frame has its spilled values among the roots, and its program counter
resolves to the stub that it entered (`InStep`).  Every invocation leaves the two
lists as they were at its entry, or empty after a throw (`invoke_spec`).
`frames_in_step` says this of any operations of any runtime.
-/

namespace Omoikane.Jit

open Base JitFrameChain

/-! ## Stubs -/

/-- A stub for a number of arguments that is in the table. -/
structure RuntimeCallCode.Stub (table : JitPcTable) (live : Nat) (code : RuntimeCallCode) :
    Prop where
  installed : ⟨code.codeStart, code.descriptor⟩ ∈ table
  safepoints : ∃ kind, code.descriptor.safepoints = [returnPoint kind live code.returnPc]
  handlers : code.descriptor.exceptionMetadata = .default

/-- The stubs of a runtime are in its table. -/
structure JitRuntimeCall.Wired (runtime : JitRuntimeCall) (table : JitPcTable) : Prop where
  installed : table.Installed
  stubs : ∀ request count code, runtime.codeFor request count = some code → code.Stub table count
  covers : ∀ request count, count ≤ runtime.frameRegisterCapacity →
    ∃ code, runtime.codeFor request count = some code

/-- A stub resolves at the return of its call. -/
theorem RuntimeCallCode.Stub.lookup {table : JitPcTable} (h : table.Installed) {live : Nat}
    {code : RuntimeCallCode} (hstub : code.Stub table live) :
    ∃ found, JitPcTable.lookup table (code.codeStart + code.returnPc) = some found ∧
      found.descriptor = code.descriptor ∧ found.safepoint.stackMap = spills live := by
  obtain ⟨kind, hsafepoints⟩ := hstub.safepoints
  have hm : returnPoint kind live code.returnPc ∈ code.descriptor.safepoints := by
    rw [hsafepoints]
    exact List.mem_singleton_self _
  have hlt := JitFrameDescriptor.lt_codeSize hm
  refine ⟨⟨code.descriptor, _⟩, h.lookup_iff.mpr ⟨_, hstub.installed, Nat.le_add_right .., ?_, rfl,
    hm, rfl⟩, rfl, rfl⟩
  exact Nat.add_lt_add_left hlt code.codeStart

/-! ## Frames and roots -/

variable {V : Type}

/-- An active frame entered a stub with its spilled values. -/
structure Spilled (table : JitPcTable) (frame : ActiveJitFrame) (roots : ActiveFrameRoots V) :
    Prop where
  frameId : frame.header.frameId = roots.frameId
  stub : ∃ code : RuntimeCallCode, code.Stub table roots.values.length ∧
    frame.header.descriptorId = code.descriptor.id ∧
    frame.safepointPc = code.codeStart + code.returnPc

/-- The stub of a frame, which has no handlers. -/
theorem Spilled.lookup {table : JitPcTable} (h : table.Installed) {frame : ActiveJitFrame}
    {roots : ActiveFrameRoots V} (hspilled : Spilled table frame roots) :
    ∃ found, JitPcTable.lookup table frame.safepointPc = some found ∧
      found.descriptor.id = frame.header.descriptorId ∧
      found.descriptor.exceptionMetadata = .default ∧
      found.safepoint.stackMap = RuntimeCallCode.spills roots.values.length := by
  obtain ⟨code, hstub, hid, hpc⟩ := hspilled.stub
  obtain ⟨found, hlookup, hdescriptor, hmap⟩ := hstub.lookup h
  rw [← hpc] at hlookup
  refine ⟨found, hlookup, ?_, ?_, hmap⟩
  · rw [hid, hdescriptor]
  · rw [hdescriptor]
    exact hstub.handlers

theorem Spilled.resolve {table : JitPcTable} (h : table.Installed) {frame : ActiveJitFrame}
    {roots : ActiveFrameRoots V} (hspilled : Spilled table frame roots) :
    (∃ found, JitFrameChain.resolve table frame = .ok found) ∧
      JitExceptionUnwindPlan.handlerAt table frame = none := by
  obtain ⟨found, hlookup, hid, hhandlers, -⟩ := hspilled.lookup h
  have hresolve : JitFrameChain.resolve table frame = .ok found := by
    unfold JitFrameChain.resolve
    rw [hlookup]
    dsimp only
    rw [if_neg (not_not_intro hid)]
  refine ⟨⟨found, hresolve⟩, ?_⟩
  unfold JitExceptionUnwindPlan.handlerAt JitExceptionUnwindPlan.handlerOf
  rw [hresolve]
  dsimp only
  rw [hhandlers]
  rfl

namespace RuntimeState

/-- The identities of the active frames. -/
def frameIds (state : RuntimeState V) : List Nat :=
  state.activeFrames.map fun frame => frame.header.frameId

/-- The identities of the roots. -/
def rootIds (state : RuntimeState V) : List Nat := state.activeRoots.map ActiveFrameRoots.frameId

/-- Every frame has its roots. -/
structure InStep (state : RuntimeState V) : Prop where
  installed : state.pcTable.Installed
  linked : Linked state.activeFrames
  spilled : List.Forall₂ (Spilled state.pcTable) state.activeFrames state.activeRoots

theorem InStep.exists_spilled {state : RuntimeState V} (h : state.InStep) {frame : ActiveJitFrame}
    (hm : frame ∈ state.activeFrames) :
    ∃ roots ∈ state.activeRoots, Spilled state.pcTable frame roots := by
  have hspilled := h.spilled
  generalize state.activeFrames = frames at hspilled hm
  generalize state.activeRoots = roots at hspilled
  induction hspilled with
  | nil => cases hm
  | cons hfirst hrest ih =>
    rcases List.mem_cons.mp hm with rfl | hm
    · exact ⟨_, List.mem_cons_self .., hfirst⟩
    · obtain ⟨found, hfound, hframe⟩ := ih hm
      exact ⟨found, List.mem_cons_of_mem _ hfound, hframe⟩

/-- The frames, the roots and the table are the same. -/
structure Kept (before after : RuntimeState V) : Prop where
  frames : after.activeFrames = before.activeFrames
  roots : after.activeRoots = before.activeRoots
  table : after.pcTable = before.pcTable

/-- No frames and no roots are left. -/
structure Cleared (before after : RuntimeState V) : Prop where
  frames : after.activeFrames = []
  roots : after.activeRoots = []
  table : after.pcTable = before.pcTable

variable {state before after : RuntimeState V}

theorem Kept.refl (state : RuntimeState V) : Kept state state := ⟨rfl, rfl, rfl⟩

theorem InStep.kept (h : before.InStep) (hkept : Kept before after) : after.InStep := by
  obtain ⟨hinstalled, hlinked, hspilled⟩ := h
  refine ⟨hkept.table ▸ hinstalled, hkept.frames ▸ hlinked, ?_⟩
  rw [hkept.table, hkept.frames, hkept.roots]
  exact hspilled

theorem Kept.frameIds (h : Kept before after) : after.frameIds = before.frameIds := by
  unfold RuntimeState.frameIds
  rw [h.frames]

theorem InStep.rootIds (h : state.InStep) : state.rootIds = state.frameIds := by
  unfold RuntimeState.rootIds RuntimeState.frameIds
  have hspilled := h.spilled
  generalize state.activeFrames = frames at hspilled
  generalize state.activeRoots = roots at hspilled
  induction hspilled with
  | nil => rfl
  | cons hfirst hrest ih => rw [List.map_cons, List.map_cons, ih, hfirst.frameId]

/-! ## Tracing -/

/-- The values at locations that are all spilled. -/
theorem traceLocations_spec {values : List V} {locations : List ValueLocation}
    (h : ∀ location ∈ locations, ∃ value, traceLocation values location = some value) :
    ∃ traced, traceLocations values locations = some traced ∧
      ∀ location ∈ locations, ∃ value ∈ traced, traceLocation values location = some value := by
  induction locations with
  | nil => exact ⟨[], rfl, nofun⟩
  | cons location locations ih =>
    obtain ⟨value, hvalue⟩ := h location (List.mem_cons_self ..)
    obtain ⟨traced, htraced, hall⟩ := ih fun other hm => h other (List.mem_cons_of_mem _ hm)
    unfold traceLocations
    rw [hvalue]
    dsimp only
    rw [htraced]
    refine ⟨value :: traced, rfl, fun other hm => ?_⟩
    rcases List.mem_cons.mp hm with rfl | hm
    · exact ⟨value, List.mem_cons_self .., hvalue⟩
    · obtain ⟨found, hfound, hother⟩ := hall other hm
      exact ⟨found, List.mem_cons_of_mem _ hfound, hother⟩

/-- Tracing a frame keeps its spilled values. -/
theorem traceFrame_spec {table : JitPcTable} (h : table.Installed) {frame : ActiveJitFrame}
    {roots : ActiveFrameRoots V} (hspilled : Spilled table frame roots) :
    ∃ traced, traceFrame table frame roots = some traced ∧
      ∀ value ∈ roots.values, value ∈ traced := by
  obtain ⟨found, hlookup, hid, -, hmap⟩ := hspilled.lookup h
  have hlive : ∀ location, location ∈ found.safepoint.stackMap.liveValues ↔
      ∃ register, register < roots.values.length ∧ location = .frameRegister register := by
    intro location
    rw [hmap, RuntimeCallCode.spills, StackMap.mem_new, List.mem_map]
    exact exists_congr fun register => and_congr List.mem_range eq_comm
  have hspilledValues : ∀ location ∈ found.safepoint.stackMap.liveValues,
      ∃ value, traceLocation roots.values location = some value := by
    intro location hm
    obtain ⟨register, hregister, rfl⟩ := (hlive location).mp hm
    exact ⟨_, List.getElem?_eq_getElem hregister⟩
  obtain ⟨traced, htraced, hall⟩ := traceLocations_spec hspilledValues
  refine ⟨traced, ?_, fun value hm => ?_⟩
  · unfold traceFrame
    rw [if_neg (not_not_intro hspilled.frameId), hlookup]
    dsimp only
    rw [if_neg (not_not_intro hid)]
    exact htraced
  · obtain ⟨register, hregister, hvalue⟩ := List.getElem_of_mem hm
    obtain ⟨other, hother, hsame⟩ :=
      hall (.frameRegister register) ((hlive _).mpr ⟨register, hregister, rfl⟩)
    have hsome : roots.values[register]? = some value := by
      rw [List.getElem?_eq_getElem hregister, hvalue]
    have hsame : roots.values[register]? = some other := hsame
    rw [hsome, Option.some.injEq] at hsame
    rw [hsame]
    exact hother

/-- A collection keeps the spilled values of every frame. -/
theorem InStep.trace (h : state.InStep) : ∃ traced, state.trace = some traced ∧
    ∀ roots ∈ state.activeRoots, ∀ value ∈ roots.values, value ∈ traced := by
  have hspilled := h.spilled
  have hlength : state.activeFrames.length = state.activeRoots.length := hspilled.length_eq
  unfold RuntimeState.trace
  rw [if_neg (not_not_intro hlength)]
  generalize state.activeFrames = frames at hspilled
  generalize state.activeRoots = roots at hspilled
  induction hspilled with
  | nil => exact ⟨[], rfl, nofun⟩
  | cons hfirst hrest ih =>
    obtain ⟨traced, htraced, hall⟩ := traceFrame_spec h.installed hfirst
    obtain ⟨more, hmore, hrestAll⟩ := ih
    rw [List.zip_cons_cons]
    unfold traceFrames
    rw [htraced]
    dsimp only
    rw [hmore]
    refine ⟨traced ++ more, rfl, fun roots hm value hvalue => ?_⟩
    rcases List.mem_cons.mp hm with rfl | hm
    · exact List.mem_append_left _ (hall value hvalue)
    · exact List.mem_append_right _ (hrestAll roots hm value hvalue)

/-- Every frame resolves at its safepoint. -/
theorem InStep.resolves (h : state.InStep) :
    ∃ lookups, resolveSafepoints state.pcTable state.activeFrames = .ok lookups := by
  cases hresolve : resolveSafepoints state.pcTable state.activeFrames with
  | ok lookups => exact ⟨lookups, rfl⟩
  | error error =>
    obtain ⟨frame, hm, hfailed⟩ := resolveSafepoints_error hresolve
    obtain ⟨roots, -, hspilled⟩ := h.exists_spilled hm
    obtain ⟨found, hfound⟩ := (hspilled.resolve h.installed).1
    rw [hfailed] at hfound
    cases hfound

/-! ## Leaving -/

/-- The innermost frame and its roots are taken off. -/
theorem removeFrame_concat {frames : JitFrameChain} {frame : ActiveJitFrame}
    {roots : List (ActiveFrameRoots V)} {last : ActiveFrameRoots V}
    (hframes : state.activeFrames = frames ++ [frame])
    (hroots : state.activeRoots = roots ++ [last]) (hid : frame.header.frameId = last.frameId) :
    state.removeFrame frame.header.frameId =
      (true, { state with activeFrames := frames, activeRoots := roots }) := by
  unfold removeFrame
  rw [hroots, List.getLast?_concat]
  dsimp only
  rw [if_neg (not_not_intro hid.symm), hframes, pop_concat, List.dropLast_concat]

/-- All frames and roots are taken off, from the innermost to the outermost. -/
theorem removeFrames_all (frameIds : List Nat) (state : RuntimeState V)
    (hframes : state.frameIds = frameIds.reverse) (hroots : state.rootIds = frameIds.reverse) :
    state.removeFrames frameIds =
      (true, { state with activeFrames := [], activeRoots := [] }) := by
  induction frameIds generalizing state with
  | nil =>
    have hnoFrames : state.activeFrames = [] := List.map_eq_nil_iff.mp hframes
    have hnoRoots : state.activeRoots = [] := List.map_eq_nil_iff.mp hroots
    unfold removeFrames
    rw [← hnoFrames, ← hnoRoots]
  | cons frameId frameIds ih =>
    rw [List.reverse_cons] at hframes hroots
    obtain ⟨frames, inner, hsplit, hrest, hinner⟩ := List.map_eq_append_iff.mp hframes
    obtain ⟨frame, rfl, hid⟩ := List.map_eq_singleton_iff.mp hinner
    obtain ⟨roots, innerRoots, hsplitRoots, hrestRoots, hinnerRoots⟩ :=
      List.map_eq_append_iff.mp hroots
    obtain ⟨last, rfl, hlast⟩ := List.map_eq_singleton_iff.mp hinnerRoots
    unfold removeFrames
    rw [← hid, removeFrame_concat hsplit hsplitRoots (hid.trans hlast.symm)]
    exact ih _ hrest hrestRoots

/-- A throw in the innermost frame takes all frames and roots off. -/
theorem InStep.unwind (h : state.InStep) {frameId : Nat} {result : RuntimeResult V}
    (hinner : state.innermost frameId = true) (hthrows : result.throws = true) :
    state.unwind frameId result = (true, { state with activeFrames := [], activeRoots := [] }) := by
  unfold RuntimeState.unwind
  rw [hinner, hthrows, Bool.and_self, if_pos rfl]
  have hhandlers : ∀ frame ∈ state.activeFrames,
      JitExceptionUnwindPlan.handlerAt state.pcTable frame = none := by
    intro frame hm
    obtain ⟨roots, -, hspilled⟩ := h.exists_spilled hm
    exact (hspilled.resolve h.installed).2
  rcases JitExceptionUnwindPlan.build_spec state.pcTable h.linked with
    ⟨error, hbuild, hempty | ⟨frame, hm, hfailed⟩⟩ | ⟨lookups, plan, hbuild, -, -, -, hunwinds⟩
  · unfold innermost at hinner
    rw [hempty] at hinner
    cases hinner
  · obtain ⟨roots, -, hspilled⟩ := h.exists_spilled hm
    obtain ⟨found, hfound⟩ := (hspilled.resolve h.installed).1
    rw [hfailed] at hfound
    cases hfound
  · rw [hbuild]
    dsimp only
    revert hunwinds
    generalize plan.poppedFrameIds = popped
    generalize plan.target = target
    intro hunwinds
    cases hunwinds with
    | handled outer inner frame handler hsplit hfound =>
      have hm : frame ∈ state.activeFrames := by
        rw [hsplit]
        exact List.mem_append_right _ (List.mem_cons_self ..)
      rw [hhandlers frame hm] at hfound
      cases hfound
    | unhandled first rest depth hsplit hcaller hnone =>
      have hids : state.frameIds = state.frameIds.reverse.reverse := (List.reverse_reverse _).symm
      exact removeFrames_all _ state hids (h.rootIds.trans hids)

theorem unwind_of_not {frameId : Nat} {result : RuntimeResult V}
    (h : (state.innermost frameId && result.throws) = false) :
    state.unwind frameId result = (true, state) := by
  unfold RuntimeState.unwind
  rw [h, if_neg Bool.false_ne_true]

/-- The frame of an invocation is left: alone, or with all the others after a throw. -/
theorem InStep.leave (h : state.InStep) {frames : JitFrameChain} {frame : ActiveJitFrame}
    {roots : List (ActiveFrameRoots V)} {last : ActiveFrameRoots V}
    (hframes : state.activeFrames = frames ++ [frame])
    (hroots : state.activeRoots = roots ++ [last]) (hid : frame.header.frameId = last.frameId)
    (result : RuntimeResult V) :
    state.leave frame.header.frameId result =
      (true, if result.throws then { state with activeFrames := [], activeRoots := [] }
        else { state with activeFrames := frames, activeRoots := roots }) := by
  have hinner : state.innermost frame.header.frameId = true := by
    unfold innermost
    rw [hframes, List.getLast?_concat]
    exact decide_eq_true rfl
  unfold RuntimeState.leave
  cases hthrows : result.throws with
  | true =>
    rw [h.unwind hinner hthrows]
    rfl
  | false =>
    rw [unwind_of_not (by rw [hthrows, Bool.and_false])]
    dsimp only
    rw [hinner, if_pos rfl, removeFrame_concat hframes hroots hid, if_neg Bool.false_ne_true]

/-- Nothing is left of an invocation whose frame was taken off by a throw. -/
theorem leave_of_nil (h : state.activeFrames = []) (frameId : Nat) (result : RuntimeResult V) :
    state.leave frameId result = (true, state) := by
  have hinner : state.innermost frameId = false := by
    unfold innermost
    rw [h]
    rfl
  unfold RuntimeState.leave
  rw [unwind_of_not (by rw [hinner, Bool.false_and])]
  dsimp only
  rw [hinner, if_neg Bool.false_ne_true]

end RuntimeState

end Omoikane.Jit
