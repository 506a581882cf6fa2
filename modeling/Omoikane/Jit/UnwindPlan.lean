import Omoikane.Jit.PcTable

/-!
# Unwinding

The plan for a thrown completion: the frames are walked from the innermost one
to the first that has a handler.  `build_spec` says which frames the plan removes
and where it goes on.
-/

namespace Omoikane.Jit

open Base

/-! ## Plans -/

/-- A frame in the trace of an exception. -/
structure JitExceptionTraceFrame where
  frameId : Nat
  descriptorId : Nat
  bytecodeOffset : Nat
  source : Option JitSourceLocation
deriving DecidableEq, Repr

/-- Where an exception is handled. -/
inductive JitExceptionUnwindTarget where
  | handler (frameId bytecodeOffset environmentCount : Nat)
  | interpreter (frameDepth : Nat)
deriving DecidableEq, Repr

/-- The trace, the removed frames from the innermost to the outermost, and the target. -/
structure JitExceptionUnwindPlan where
  trace : List JitExceptionTraceFrame
  poppedFrameIds : List Nat
  target : JitExceptionUnwindTarget
deriving DecidableEq, Repr

/-- What building a plan gives; an outermost frame with a generated caller panics. -/
inductive Built where
  | plan (plan : JitExceptionUnwindPlan)
  | failed (error : FrameMetadataError)
  | panicked

namespace JitExceptionUnwindPlan

/-- The entry of a frame in the trace. -/
def traceFrame (frame : ActiveJitFrame) (found : JitPcLookup) : JitExceptionTraceFrame where
  frameId := frame.header.frameId
  descriptorId := frame.header.descriptorId
  bytecodeOffset := found.safepoint.bytecodeOffset
  source := found.descriptor.exceptionMetadata.sourceLocation found.safepoint.bytecodeOffset

/-- The handler of a safepoint. -/
def handlerOf (found : JitPcLookup) : Option JitExceptionHandler :=
  found.descriptor.exceptionMetadata.handlerAt found.safepoint.bytecodeOffset

/-- The first frame with a handler, after the frames in `popped`. -/
def search (popped : List Nat) : List (ActiveJitFrame × JitPcLookup) →
    List Nat × Option (ActiveJitFrame × JitExceptionHandler)
  | [] => (popped, none)
  | (frame, found) :: rest =>
    match handlerOf found with
    | some handler => (popped, some (frame, handler))
    | none => search (popped ++ [frame.header.frameId]) rest

/-- `build`. -/
def build (chain : JitFrameChain) (table : JitPcTable) : Built :=
  match chain with
  | [] => .failed .brokenCallerChain
  | first :: _ =>
    match JitFrameChain.resolveSafepoints table chain with
    | .error error => .failed error
    | .ok lookups =>
      let trace := List.zipWith traceFrame chain lookups
      match search [] (chain.zip lookups).reverse with
      | (poppedFrameIds, some (frame, handler)) =>
        .plan {
          trace
          poppedFrameIds
          target := .handler frame.header.frameId handler.handler handler.environmentCount }
      | (poppedFrameIds, none) =>
        match first.header.caller with
        | .interpreter frameDepth =>
          .plan { trace, poppedFrameIds, target := .interpreter frameDepth }
        | .jit _ => .panicked

end JitExceptionUnwindPlan

/-! ## Chains -/

namespace JitFrameChain

variable {chain next : JitFrameChain} {frame : ActiveJitFrame} {table : JitPcTable}

/-- The invariant of the chain: it is what pushing frames makes. -/
inductive Linked : JitFrameChain → Prop where
  | empty : Linked []
  | pushed {chain : JitFrameChain} {frame : ActiveJitFrame} (linked : Linked chain)
      (caller : callerMatches chain frame.header.caller = true)
      (fresh : ∀ active ∈ chain, active.header.frameId ≠ frame.header.frameId) :
      Linked (chain ++ [frame])

theorem Linked.push_ok (h : Linked chain) (hok : JitFrameChain.push chain frame = .ok next) :
    Linked next ∧ next = chain ++ [frame] := by
  unfold JitFrameChain.push at hok
  split at hok
  · cases hok
  next hcheck =>
    cases hok
    rw [Bool.or_eq_true, not_or, Bool.not_eq_true', Bool.not_eq_false] at hcheck
    refine ⟨.pushed h hcheck.1 fun active hm hsame => hcheck.2 ?_, rfl⟩
    exact List.any_eq_true.mpr ⟨active, hm, decide_eq_true hsame⟩

theorem Linked.dropLast (h : Linked chain) : Linked chain.dropLast := by
  cases h with
  | empty => exact .empty
  | pushed linked caller fresh =>
    rw [List.dropLast_concat]
    exact linked

theorem Linked.pop_ok (h : Linked chain) {frameId : Nat} {rest : JitFrameChain}
    (hok : pop chain frameId = .ok (frame, rest)) :
    Linked rest ∧ chain = rest ++ [frame] ∧ frame.header.frameId = frameId := by
  unfold JitFrameChain.pop at hok
  split at hok
  · cases hok
  next last hlast =>
    split at hok
    · cases hok
    next hid =>
      cases hok
      refine ⟨h.dropLast, ?_, Classical.not_not.mp hid⟩
      obtain ⟨rest, rfl⟩ := List.getLast?_eq_some_iff.mp hlast
      rw [List.dropLast_concat]

theorem pop_concat (chain : JitFrameChain) (frame : ActiveJitFrame) :
    pop (chain ++ [frame]) frame.header.frameId = .ok (frame, chain) := by
  unfold JitFrameChain.pop
  rw [List.getLast?_concat]
  dsimp only
  rw [if_neg (not_not_intro rfl), List.dropLast_concat]

/-- The outermost frame was entered by the interpreter. -/
theorem Linked.head_caller (h : Linked chain) {first : ActiveJitFrame} {rest : JitFrameChain}
    (hchain : chain = first :: rest) : ∃ depth, first.header.caller = .interpreter depth := by
  induction h generalizing rest with
  | empty => cases hchain
  | @pushed chain frame linked caller fresh ih =>
    cases chain with
    | nil =>
      cases hchain
      unfold callerMatches at caller
      cases hcaller : first.header.caller with
      | interpreter depth => exact ⟨depth, rfl⟩
      | jit frameId =>
        rw [hcaller] at caller
        cases caller
    | cons other chain =>
      cases hchain
      exact ih rfl

/-- Every frame of a chain resolves. -/
theorem resolveSafepoints_ok {lookups : List JitPcLookup}
    (h : resolveSafepoints table chain = .ok lookups) :
    List.Forall₂ (fun frame found => resolve table frame = .ok found) chain lookups := by
  induction chain generalizing lookups with
  | nil =>
    cases h
    exact .nil
  | cons frame chain ih =>
    unfold resolveSafepoints at h
    split at h
    · cases h
    next found hfound =>
      split at h
      · cases h
      next rest hrest =>
        cases h
        exact .cons hfound (ih hrest)

theorem resolveSafepoints_error {error : FrameMetadataError}
    (h : resolveSafepoints table chain = .error error) :
    ∃ frame ∈ chain, resolve table frame = .error error := by
  induction chain with
  | nil => cases h
  | cons frame chain ih =>
    unfold resolveSafepoints at h
    split at h
    next hfound =>
      cases h
      exact ⟨frame, List.mem_cons_self .., hfound⟩
    next found hfound =>
      split at h
      next hrest =>
        cases h
        obtain ⟨other, hm, hother⟩ := ih hrest
        exact ⟨other, List.mem_cons_of_mem _ hm, hother⟩
      · cases h

end JitFrameChain

/-! ## What a plan does -/

namespace JitExceptionUnwindPlan

open JitFrameChain

variable {chain : JitFrameChain} {table : JitPcTable}

/-- The handler that a frame has where it stopped. -/
def handlerAt (table : JitPcTable) (frame : ActiveJitFrame) : Option JitExceptionHandler :=
  match resolve table frame with
  | .ok found => handlerOf found
  | .error _ => none

/-- The frames inside the innermost one with a handler are removed, or all of them. -/
inductive Unwinds (table : JitPcTable) (chain : JitFrameChain) : List Nat →
    JitExceptionUnwindTarget → Prop where
  | handled (outer inner : List ActiveJitFrame) (frame : ActiveJitFrame)
      (handler : JitExceptionHandler) (split : chain = outer ++ frame :: inner)
      (found : handlerAt table frame = some handler)
      (first : ∀ other ∈ inner, handlerAt table other = none) :
      Unwinds table chain (inner.map fun frame => frame.header.frameId).reverse
        (.handler frame.header.frameId handler.handler handler.environmentCount)
  | unhandled (first : ActiveJitFrame) (rest : List ActiveJitFrame) (depth : Nat)
      (split : chain = first :: rest) (caller : first.header.caller = .interpreter depth)
      (none : ∀ frame ∈ chain, handlerAt table frame = none) :
      Unwinds table chain (chain.map fun frame => frame.header.frameId).reverse
        (.interpreter depth)

/-- What the search finds in a list of frames, the innermost first. -/
theorem search_spec (popped : List Nat) (frames : List (ActiveJitFrame × JitPcLookup)) :
    (∃ inner frame found outer handler, frames = inner ++ (frame, found) :: outer ∧
        handlerOf found = some handler ∧ (∀ entry ∈ inner, handlerOf entry.2 = none) ∧
        search popped frames =
          (popped ++ inner.map (fun entry => entry.1.header.frameId), some (frame, handler))) ∨
      ((∀ entry ∈ frames, handlerOf entry.2 = none) ∧
        search popped frames =
          (popped ++ frames.map (fun entry => entry.1.header.frameId), none)) := by
  induction frames generalizing popped with
  | nil => exact Or.inr ⟨nofun, by rw [List.map_nil, List.append_nil]; rfl⟩
  | cons entry frames ih =>
    obtain ⟨frame, found⟩ := entry
    unfold search
    cases hfound : handlerOf found with
    | some handler =>
      refine Or.inl ⟨[], frame, found, frames, handler, rfl, hfound, nofun, ?_⟩
      rw [List.map_nil, List.append_nil]
    | none =>
      dsimp only
      rcases ih (popped ++ [frame.header.frameId]) with
        ⟨inner, other, otherFound, outer, handler, rfl, hother, hinner, hsearch⟩ |
        ⟨hall, hsearch⟩
      · refine Or.inl ⟨(frame, found) :: inner, other, otherFound, outer, handler, rfl, hother,
          ?_, ?_⟩
        · intro entry hm
          rcases List.mem_cons.mp hm with rfl | hm
          · exact hfound
          · exact hinner entry hm
        · rw [hsearch, List.append_assoc]
          rfl
      · refine Or.inr ⟨?_, ?_⟩
        · intro entry hm
          rcases List.mem_cons.mp hm with rfl | hm
          · exact hfound
          · exact hall entry hm
        · rw [hsearch, List.append_assoc]
          rfl

/-- The frames of a chain that resolves, with their handlers. -/
theorem handlerAt_of_mem_zip {lookups : List JitPcLookup}
    (h : List.Forall₂ (fun frame found => resolve table frame = .ok found) chain lookups)
    {entry : ActiveJitFrame × JitPcLookup} (hm : entry ∈ chain.zip lookups) :
    handlerAt table entry.1 = handlerOf entry.2 := by
  induction h with
  | nil => cases hm
  | cons hfound hrest ih =>
    rw [List.zip_cons_cons] at hm
    rcases List.mem_cons.mp hm with rfl | hm
    · unfold handlerAt
      rw [hfound]
    · exact ih hm

theorem map_fst_zip {lookups : List JitPcLookup}
    (h : List.Forall₂ (fun frame found => resolve table frame = .ok found) chain lookups) :
    (chain.zip lookups).map Prod.fst = chain := List.map_fst_zip (Nat.le_of_eq h.length_eq)

/-- A linked chain has a plan unless it is empty or a frame does not resolve. -/
theorem build_spec (table : JitPcTable) (h : Linked chain) :
    (∃ error, build chain table = .failed error ∧
        (chain = [] ∨ ∃ frame ∈ chain, resolve table frame = .error error)) ∨
      ∃ lookups plan, build chain table = .plan plan ∧ chain ≠ [] ∧
        List.Forall₂ (fun frame found => resolve table frame = .ok found) chain lookups ∧
        plan.trace = List.zipWith traceFrame chain lookups ∧
        Unwinds table chain plan.poppedFrameIds plan.target := by
  cases chain with
  | nil => exact Or.inl ⟨_, rfl, Or.inl rfl⟩
  | cons first rest =>
    unfold build
    dsimp only
    cases hresolve : resolveSafepoints table (first :: rest) with
    | error error => exact Or.inl ⟨error, rfl, Or.inr (resolveSafepoints_error hresolve)⟩
    | ok lookups =>
      have hall := resolveSafepoints_ok hresolve
      have hzip := map_fst_zip hall
      refine Or.inr ⟨lookups, ?_⟩
      dsimp only
      rcases search_spec [] ((first :: rest).zip lookups).reverse with
        ⟨inner, frame, found, outer, handler, hsplit, hfound, hinner, hsearch⟩ |
        ⟨hnone, hsearch⟩
      · rw [hsearch]
        refine ⟨_, rfl, nofun, hall, rfl, ?_⟩
        have hpairs : (first :: rest).zip lookups =
            outer.reverse ++ (frame, found) :: inner.reverse := by
          rw [← List.reverse_reverse ((first :: rest).zip lookups), hsplit]
          simp
        have hchain : first :: rest =
            outer.reverse.map Prod.fst ++ frame :: inner.reverse.map Prod.fst := by
          rw [← hzip, hpairs, List.map_append]
          rfl
        have hhandlers : ∀ entry ∈ (first :: rest).zip lookups,
            handlerAt table entry.1 = handlerOf entry.2 := fun _ hm => handlerAt_of_mem_zip hall hm
        rw [hpairs] at hhandlers
        have hpopped : [] ++ inner.map (fun entry => entry.1.header.frameId) =
            ((inner.reverse.map Prod.fst).map fun frame => frame.header.frameId).reverse := by
          rw [List.map_map, ← List.map_reverse, List.reverse_reverse]
          rfl
        dsimp only
        rw [hpopped]
        refine .handled _ _ frame handler hchain ?_ ?_
        · rw [← hfound]
          exact hhandlers (frame, found) (List.mem_append_right _ (List.mem_cons_self ..))
        · intro other hm
          obtain ⟨entry, hentry, rfl⟩ := List.mem_map.mp hm
          rw [hhandlers entry (List.mem_append_right _ (List.mem_cons_of_mem _ hentry))]
          exact hinner entry (List.mem_reverse.mp hentry)
      · obtain ⟨depth, hcaller⟩ := h.head_caller rfl
        rw [hsearch]
        dsimp only
        rw [hcaller]
        refine ⟨_, rfl, nofun, hall, rfl, ?_⟩
        have hpopped : [] ++ ((first :: rest).zip lookups).reverse.map
            (fun entry => entry.1.header.frameId) =
            ((first :: rest).map fun frame => frame.header.frameId).reverse := by
          rw [← hzip, List.map_map, ← List.map_reverse, hzip]
          rfl
        dsimp only
        rw [hpopped]
        refine .unhandled first rest depth rfl hcaller fun frame hm => ?_
        rw [← hzip] at hm
        obtain ⟨entry, hentry, rfl⟩ := List.mem_map.mp hm
        rw [handlerAt_of_mem_zip hall hentry]
        exact hnone entry (List.mem_reverse.mpr hentry)

end JitExceptionUnwindPlan

end Omoikane.Jit
