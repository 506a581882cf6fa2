import Omoikane.Jit.Invocations

/-!
# Runtimes

The stubs of a new runtime are in its table (`new_wired`), so its frames and roots
stay in step in any operations.  `frames_in_step` says so, with what the table and
the plans do for any code and any chain.
-/

namespace Omoikane.Jit

open Base JitFrameChain

/-! ## New runtimes -/

namespace RuntimeCallCode

variable {host : Host} {kind : SafepointKind} {table next : JitPcTable}

theorem compile_ok {live : Nat} {code : RuntimeCallCode} (h : compile host kind live = .ok code) :
    code.descriptor.safepoints = [returnPoint kind live code.returnPc] ∧
      code.descriptor.exceptionMetadata = .default := by
  unfold compile at h
  split at h
  · cases h
  · dsimp only at h
    split at h
    · cases h
    next descriptor hdescriptor =>
      split at h
      · cases h
      · cases h
        unfold JitFrameDescriptor.new at hdescriptor
        split at hdescriptor
        · cases hdescriptor
        · split at hdescriptor
          · cases hdescriptor
          · cases hdescriptor
            exact ⟨rfl, rfl⟩

theorem compileAll_ok {lives : List Nat} {codes : List RuntimeCallCode}
    (h : compileAll host kind lives = .ok codes) :
    List.Forall₂ (fun live code => compile host kind live = .ok code) lives codes := by
  induction lives generalizing codes with
  | nil =>
    cases h
    exact .nil
  | cons live lives ih =>
    unfold compileAll at h
    split at h
    · cases h
    next code hcode =>
      split at h
      · cases h
      next rest hrest =>
        cases h
        exact .cons hcode (ih hrest)

theorem installAll_ok {codes : List RuntimeCallCode} (hinstalled : table.Installed)
    (h : installAll table codes = .ok next) :
    next.Installed ∧ (∀ entry ∈ table, entry ∈ next) ∧
      ∀ code ∈ codes, ⟨code.codeStart, code.descriptor⟩ ∈ next := by
  induction codes generalizing table with
  | nil =>
    cases h
    exact ⟨hinstalled, fun _ => id, nofun⟩
  | cons code codes ih =>
    unfold installAll at h
    split at h
    · cases h
    next grown hgrown =>
      obtain ⟨hkept, hmem⟩ := hinstalled.install_ok hgrown
      obtain ⟨hnext, hold, hcodes⟩ := ih hkept h
      refine ⟨hnext, fun entry hm => hold entry ((hmem entry).mpr (Or.inl hm)), ?_⟩
      intro other hm
      rcases List.mem_cons.mp hm with rfl | hm
      · exact hold _ ((hmem _).mpr (Or.inr rfl))
      · exact hcodes other hm

/-- The stub for a number of arguments. -/
theorem compileAll_range {count : Nat} {codes : List RuntimeCallCode}
    (h : compileAll host kind (List.range (count + 1)) = .ok codes)
    (hcodes : ∀ code ∈ codes, ⟨code.codeStart, code.descriptor⟩ ∈ table) :
    (∀ live (code : RuntimeCallCode), codes[live]? = some code → code.Stub table live) ∧
      ∀ live, live ≤ count → ∃ code, codes[live]? = some code := by
  have hall := compileAll_ok h
  have hlength : codes.length = count + 1 := by
    rw [← hall.length_eq, List.length_range]
  refine ⟨fun live code hcode => ?_, fun live hlive => ?_⟩
  · obtain ⟨hlive, hget⟩ := List.getElem?_eq_some_iff.mp hcode
    have hrange : (List.range (count + 1))[live]? = some live :=
      List.getElem?_range (hlength ▸ hlive)
    obtain ⟨hlt, hsame⟩ := List.getElem?_eq_some_iff.mp hrange
    have hcompile := hall.get hlt hlive
    simp only [List.get_eq_getElem] at hcompile
    rw [hsame, hget] at hcompile
    obtain ⟨hsafepoints, hhandlers⟩ := compile_ok hcompile
    exact ⟨hcodes code (List.mem_of_getElem? hcode), ⟨kind, hsafepoints⟩, hhandlers⟩
  · have hlt : live < codes.length := by
      rw [hlength]
      exact Nat.lt_succ_of_le hlive
    exact ⟨_, List.getElem?_eq_getElem hlt⟩

end RuntimeCallCode

namespace JitRuntimeCall

variable {V : Type} {runtime : JitRuntimeCall} {state : RuntimeState V}

/-- A state between the invocations of a runtime. -/
structure Idle (runtime : JitRuntimeCall) (state : RuntimeState V) : Prop where
  wired : runtime.Wired state.pcTable
  frames : state.activeFrames = []
  roots : state.activeRoots = []

theorem new_idle {host : Host} {capacity fastCapacity : Nat}
    (h : new V host capacity fastCapacity = .ok (runtime, state)) : runtime.Idle state := by
  unfold new at h
  split at h
  · cases h
  · dsimp only at h
    split at h
    · cases h
    next callCode hcall =>
      split at h
      · cases h
      next allocationCode hallocation =>
        split at h
        · cases h
        next table htable =>
          cases h
          obtain ⟨hinstalled, -, hcodes⟩ := RuntimeCallCode.installAll_ok .nil htable
          obtain ⟨hcallStubs, hcallCovers⟩ := RuntimeCallCode.compileAll_range hcall fun code hm =>
            hcodes code (List.mem_append_left _ hm)
          obtain ⟨hallocationStubs, hallocationCovers⟩ :=
            RuntimeCallCode.compileAll_range hallocation fun code hm =>
              hcodes code (List.mem_append_right _ hm)
          refine ⟨⟨hinstalled, fun request count code hcode => ?_, fun request count hcount => ?_⟩,
            rfl, rfl⟩
          · cases request with
            | allocate kind => exact hallocationStubs count code hcode
            | _ => exact hcallStubs count code hcode
          · cases request with
            | allocate kind => exact hallocationCovers count hcount
            | _ => exact hcallCovers count hcount

theorem Idle.inStep (h : runtime.Idle state) : state.InStep := by
  refine ⟨h.wired.installed, ?_, ?_⟩
  · rw [h.frames]
    exact .empty
  · rw [h.frames, h.roots]
    exact .nil

variable [Inhabited V]

theorem Idle.invoke (h : runtime.Idle state) (request : RuntimeRequest) (arguments : List V)
    (world : Nat → Circumstances V) :
    InvokeSpec state (runtime.invoke arguments world request [] state) ∧
      ∃ result, (runtime.invoke arguments world request [] state).completion =
        .returned result := by
  have hframes : state.frameIds = [] := by
    unfold RuntimeState.frameIds
    rw [h.frames]
    rfl
  obtain ⟨hspec, hreturned⟩ := invoke_spec h.wired h.inStep hframes request
  exact ⟨hspec, hreturned h.frames⟩

/-- No operation leaves frames or roots behind. -/
theorem Idle.step (h : runtime.Idle state) (operation : Operation V) :
    runtime.Idle (runtime.step state operation) ∧
      ∀ event ∈ runtime.emits state operation, event.Sound := by
  cases operation with
  | setAllocationBudget budget => exact ⟨⟨h.wired, h.frames, h.roots⟩, nofun⟩
  | invoke request arguments world =>
    obtain ⟨hspec, -⟩ := h.invoke request arguments world
    refine ⟨?_, hspec.sound⟩
    have hleft := hspec.left
    split at hleft
    · exact ⟨hleft.table ▸ h.wired, hleft.frames, hleft.roots⟩
    · exact ⟨hleft.table ▸ h.wired, hleft.frames.trans h.frames, hleft.roots.trans h.roots⟩

/-- The frames and the roots of a runtime are in step in any operations. -/
theorem Idle.run (h : runtime.Idle state) (operations : List (Operation V)) :
    runtime.Idle (Run.run runtime.step state operations) ∧
      ∀ event ∈ Run.emitted runtime.step runtime.emits state operations, event.Sound :=
  ⟨Run.invariant (I := runtime.Idle) (fun _ operation hstate => (hstate.step operation).1)
      operations h,
    Run.forall_emitted (I := runtime.Idle) (fun _ operation hstate => hstate.step operation)
      operations h⟩

end JitRuntimeCall

/-! ## Chains -/

namespace JitFrameChain

/-- What can be done with a chain. -/
inductive Move where
  | push (frame : ActiveJitFrame)
  | pop (frameId : Nat)

/-- The chain after a move, which changes nothing where it is rejected. -/
def move (chain : JitFrameChain) : Move → JitFrameChain
  | .push frame =>
    match JitFrameChain.push chain frame with
    | .ok next => next
    | .error _ => chain
  | .pop frameId =>
    match JitFrameChain.pop chain frameId with
    | .ok (_, next) => next
    | .error _ => chain

theorem Linked.move {chain : JitFrameChain} (h : Linked chain) (next : Move) :
    Linked (move chain next) := by
  unfold JitFrameChain.move
  cases next with
  | push frame =>
    dsimp only
    split
    next hok => exact (h.push_ok hok).1
    · exact h
  | pop frameId =>
    dsimp only
    split
    next hok => exact (h.pop_ok hok).1
    · exact h

theorem linked_run (moves : List Move) : Linked (Run.run move [] moves) :=
  Run.invariant (I := Linked) (fun _ next h => h.move next) moves .empty

end JitFrameChain

/-! ## Everything in step -/

/-- The frames and the roots of every runtime are in step at every collection and
wherever spilled values are read, and empty between the invocations; the table
resolves an address to the code that owns it; and a plan removes the frames inside
the innermost one with a handler. -/
theorem frames_in_step (V : Type) [Inhabited V] (host : Host) (capacity fastCapacity : Nat) :
    (match JitRuntimeCall.new V host capacity fastCapacity with
      | .error _ => True
      | .ok (runtime, state) => ∀ operations,
          let idle := Run.run runtime.step state operations
          (∀ event ∈ Run.emitted runtime.step runtime.emits state operations, event.Sound) ∧
            idle.activeFrames = [] ∧ idle.activeRoots = [] ∧
            ∀ request arguments world, ∃ result,
              (runtime.invoke arguments world request [] idle).completion = .returned result) ∧
      (∀ codes : List (Nat × JitFrameDescriptor),
        let table := Run.run JitPcTable.step [] codes
        table.Installed ∧
          (∀ code : Nat × JitFrameDescriptor, (∃ error, JitPcTable.install table code.1 code.2 = .error error) ↔
            table.Conflicts code.1 code.2) ∧
          (∀ code : Nat × JitFrameDescriptor, table.Conflicts code.1 code.2 → JitPcTable.step table code = table) ∧
          ∀ machinePc found, JitPcTable.lookup table machinePc = some found ↔
            ∃ entry ∈ table, entry.codeStart ≤ machinePc ∧ machinePc < entry.codeEnd ∧
              found.descriptor = entry.descriptor ∧
              found.safepoint ∈ entry.descriptor.safepoints ∧
              entry.codeStart + found.safepoint.machineOffset = machinePc) ∧
      ∀ (moves : List JitFrameChain.Move) (codes : List (Nat × JitFrameDescriptor)),
        let chain := Run.run JitFrameChain.move [] moves
        let table := Run.run JitPcTable.step [] codes
        (∃ error, JitExceptionUnwindPlan.build chain table = .failed error ∧
            (chain = [] ∨ ∃ frame ∈ chain, resolve table frame = .error error)) ∨
          ∃ lookups plan, JitExceptionUnwindPlan.build chain table = .plan plan ∧ chain ≠ [] ∧
            List.Forall₂ (fun frame found => resolve table frame = .ok found) chain lookups ∧
            plan.trace = List.zipWith JitExceptionUnwindPlan.traceFrame chain lookups ∧
            JitExceptionUnwindPlan.Unwinds table chain plan.poppedFrameIds plan.target := by
  refine ⟨?_, fun codes => ?_, fun moves codes => ?_⟩
  · split
    · trivial
    next runtime state hnew =>
      intro operations
      obtain ⟨hidle, hsound⟩ := (JitRuntimeCall.new_idle hnew).run operations
      exact ⟨hsound, hidle.frames, hidle.roots, fun request arguments world =>
        (hidle.invoke request arguments world).2⟩
  · have hinstalled := JitPcTable.installed_run codes
    exact ⟨hinstalled, fun _ => hinstalled.install_error_iff,
      fun _ hconflict => hinstalled.step_of_conflicts hconflict,
      fun _ _ => hinstalled.lookup_iff⟩
  · exact JitExceptionUnwindPlan.build_spec _ (JitFrameChain.linked_run moves)

end Omoikane.Jit
