import Omoikane.Jit.UnwindPlan

/-!
# Runtime calls

The boundary between generated code and its Rust helpers.  Each invocation pushes
a frame and its spilled values, enters generated code, which calls a helper, and
takes the frame off again.

What the source does not decide is an argument: the identities and addresses that
it is given, how often an allocation collects and whether a helper panics
(`Circumstances`).  An invocation reports the state at every collection and at
every read of its spilled values, with the physical stack of the invocations that
were entered and have not returned.
-/

namespace Omoikane.Jit

/-! ## Requests and results -/

/-- What is allocated. -/
inductive JitAllocationKind where
  | object
  | array
  | closure
deriving DecidableEq, Repr

/-- What generated code asks of a helper. -/
inductive RuntimeRequest where
  | allocate (kind : JitAllocationKind)
  | throw
  | nestedThrow
  | nestedAllocate (kind : JitAllocationKind)
  | collectMinor
  | collectMajor
deriving DecidableEq, Repr

/-- The number of invocations that a request makes from its helper. -/
def RuntimeRequest.nesting : RuntimeRequest → Nat
  | .nestedThrow | .nestedAllocate _ => 1
  | .allocate _ | .throw | .collectMinor | .collectMajor => 0

/-- Why code cannot be published. -/
inductive JitError where
  | unsupportedPlatform
  | invalidCodeSize
  | os
  | frameMetadata (error : FrameMetadataError)
deriving DecidableEq, Repr

/-- Why a runtime call fails. -/
inductive RuntimeCallError where
  | jit (error : JitError)
  | tooManyArguments (supplied capacity : Nat)
  | allocationFailure
  | missingResult
  | helperPanicked
  | frameCapacityTooLarge (requested maximum : Nat)
deriving DecidableEq, Repr

/-- A thrown error. -/
inductive JsError where
  | typ (message : String)
deriving DecidableEq, Repr

/-- The result of a runtime call. -/
abbrev RuntimeResult (V : Type) := Except RuntimeCallError (Except JsError V)

/-- A thrown completion or an allocation failure. -/
def RuntimeResult.throws {V : Type} : RuntimeResult V → Bool
  | .ok (.error _) => true
  | .error .allocationFailure => true
  | _ => false

/-! ## The runtime -/

/-- The spilled values of an active frame. -/
structure ActiveFrameRoots (V : Type) where
  frameId : Nat
  values : List V

/-- The state of the runtime. -/
structure RuntimeState (V : Type) where
  activeFrames : JitFrameChain
  activeRoots : List (ActiveFrameRoots V)
  pcTable : JitPcTable
  fastCapacity : Nat
  fastRemaining : Nat
  allocationBudget : Option Nat

/-- A published stub. -/
structure RuntimeCallCode where
  codeStart : Nat
  descriptor : JitFrameDescriptor
  returnPc : Nat

/-- The stubs of the runtime, one of each kind for every number of arguments. -/
structure JitRuntimeCall where
  frameRegisterCapacity : Nat
  callCode : List RuntimeCallCode
  allocationCode : List RuntimeCallCode

/-- What the stubs are given: the addresses of their code and their identities. -/
structure Host where
  architecture : JitArchitecture
  publish : SafepointKind → Nat → Except JitError Nat
  descriptorId : SafepointKind → Nat → Nat

namespace RuntimeCallCode

/-- The size of the stub and the offset at which its call returns. -/
def stub : JitArchitecture → Option (UInt32 × Nat)
  | .x86_64 => some (14, 9)
  | .aarch64 => some (24, 16)
  | .unsupported => none

/-- The values that are spilled in a call with `live` arguments. -/
def spills (live : Nat) : StackMap := StackMap.new ((List.range live).map ValueLocation.frameRegister)

/-- The safepoint at the return of the call. -/
def returnPoint (kind : SafepointKind) (live returnPc : Nat) : Safepoint where
  machineOffset := returnPc
  bytecodeOffset := 0
  kind
  stackMap := spills live

/-- `compile`. -/
def compile (host : Host) (kind : SafepointKind) (live : Nat) : Except JitError RuntimeCallCode :=
  match stub host.architecture with
  | none => .error .unsupportedPlatform
  | some (codeSize, returnPc) =>
    let layout : FrameLayout := {
      architecture := host.architecture
      codeSize
      frameSize := 64
      frameRegisterCount := live }
    match JitFrameDescriptor.new (host.descriptorId kind live) layout
        [returnPoint kind live returnPc] with
    | .error error => .error (.frameMetadata error)
    | .ok descriptor =>
      match host.publish kind live with
      | .error error => .error error
      | .ok codeStart => .ok { codeStart, descriptor, returnPc }

/-- The stubs for each number of arguments. -/
def compileAll (host : Host) (kind : SafepointKind) :
    List Nat → Except JitError (List RuntimeCallCode)
  | [] => .ok []
  | live :: lives =>
    match compile host kind live with
    | .error error => .error error
    | .ok code =>
      match compileAll host kind lives with
      | .error error => .error error
      | .ok codes => .ok (code :: codes)

/-- The table with the stubs. -/
def installAll (table : JitPcTable) : List RuntimeCallCode → Except FrameMetadataError JitPcTable
  | [] => .ok table
  | code :: codes =>
    match JitPcTable.install table code.codeStart code.descriptor with
    | .error error => .error error
    | .ok table => installAll table codes

end RuntimeCallCode

/-- `MAX_FRAME_REGISTERS`. -/
def maxFrameRegisters : Nat := 256

/-- `new`. -/
def JitRuntimeCall.new (V : Type) (host : Host) (frameRegisterCount fastCapacity : Nat) :
    Except RuntimeCallError (JitRuntimeCall × RuntimeState V) :=
  if maxFrameRegisters < frameRegisterCount then
    .error (.frameCapacityTooLarge frameRegisterCount maxFrameRegisters)
  else
    let lives := List.range (frameRegisterCount + 1)
    match RuntimeCallCode.compileAll host .call lives with
    | .error error => .error (.jit error)
    | .ok callCode =>
      match RuntimeCallCode.compileAll host .allocation lives with
      | .error error => .error (.jit error)
      | .ok allocationCode =>
        match RuntimeCallCode.installAll [] (callCode ++ allocationCode) with
        | .error error => .error (.jit (.frameMetadata error))
        | .ok pcTable =>
          .ok ({ frameRegisterCapacity := frameRegisterCount, callCode, allocationCode },
            { activeFrames := []
              activeRoots := []
              pcTable
              fastCapacity
              fastRemaining := fastCapacity
              allocationBudget := none })

/-! ## Roots -/

namespace RuntimeState

variable {V : Type}

/-- The value at a location of a stack map. -/
def traceLocation (values : List V) : ValueLocation → Option V
  | .frameRegister register => values[register]?
  | .machineRegister _ | .stackSlot _ => none

/-- The values at the locations of a stack map. -/
def traceLocations (values : List V) : List ValueLocation → Option (List V)
  | [] => some []
  | location :: locations =>
    match traceLocation values location with
    | none => none
    | some value =>
      match traceLocations values locations with
      | none => none
      | some more => some (value :: more)

/-- The values of a frame that are live where it stopped. -/
def traceFrame (table : JitPcTable) (frame : ActiveJitFrame) (roots : ActiveFrameRoots V) :
    Option (List V) :=
  if frame.header.frameId ≠ roots.frameId then none
  else match JitPcTable.lookup table frame.safepointPc with
    | none => none
    | some found =>
      if found.descriptor.id ≠ frame.header.descriptorId then none
      else traceLocations roots.values found.safepoint.stackMap.liveValues

/-- The values of the frames. -/
def traceFrames (table : JitPcTable) : List (ActiveJitFrame × ActiveFrameRoots V) → Option (List V)
  | [] => some []
  | (frame, roots) :: rest =>
    match traceFrame table frame roots with
    | none => none
    | some values =>
      match traceFrames table rest with
      | none => none
      | some more => some (values ++ more)

/-- `trace`: the values that a collection keeps, unless an assertion fails. -/
def trace (state : RuntimeState V) : Option (List V) :=
  if state.activeFrames.length ≠ state.activeRoots.length then none
  else traceFrames state.pcTable (state.activeFrames.zip state.activeRoots)

/-! ## Frames -/

/-- The innermost frame is this one. -/
def innermost (state : RuntimeState V) (frameId : Nat) : Bool :=
  match state.activeFrames.getLast? with
  | none => false
  | some frame => frame.header.frameId = frameId

/-- The caller of a new frame. -/
def nextCaller (state : RuntimeState V) (frameDepth : Nat) : FrameCaller :=
  match state.activeFrames.getLast? with
  | none => .interpreter frameDepth
  | some frame => .jit frame.header.frameId

/-- The innermost frame and its values are taken off; whether no assertion fails. -/
def removeFrame (state : RuntimeState V) (frameId : Nat) : Bool × RuntimeState V :=
  match state.activeRoots.getLast? with
  | none => (false, state)
  | some roots =>
    let state := { state with activeRoots := state.activeRoots.dropLast }
    if roots.frameId ≠ frameId then (false, state)
    else match JitFrameChain.pop state.activeFrames frameId with
      | .error _ => (false, state)
      | .ok (_, activeFrames) => (true, { state with activeFrames })

/-- The frames of a plan are taken off. -/
def removeFrames (state : RuntimeState V) : List Nat → Bool × RuntimeState V
  | [] => (true, state)
  | frameId :: frameIds =>
    match state.removeFrame frameId with
    | (false, state) => (false, state)
    | (true, state) => removeFrames state frameIds

/-- The unwinding of a thrown completion. -/
def unwind (state : RuntimeState V) (frameId : Nat) (result : RuntimeResult V) :
    Bool × RuntimeState V :=
  if state.innermost frameId && result.throws then
    match JitExceptionUnwindPlan.build state.activeFrames state.pcTable with
    | .plan plan =>
      match plan.target with
      | .interpreter _ => state.removeFrames plan.poppedFrameIds
      | .handler _ _ _ => (false, state)
    | .failed _ | .panicked => (false, state)
  else (true, state)

/-- The end of an invocation. -/
def leave (state : RuntimeState V) (frameId : Nat) (result : RuntimeResult V) :
    Bool × RuntimeState V :=
  match state.unwind frameId result with
  | (false, state) => (false, state)
  | (true, state) => if state.innermost frameId then state.removeFrame frameId else (true, state)

end RuntimeState

/-! ## Invocations -/

/-- How an invocation or a helper ends. -/
inductive Completion (V : Type) where
  | returned (result : RuntimeResult V)
  | panicked

/-- What an invocation reports. -/
inductive RuntimeEvent (V : Type) where
  /-- A collection, with the invocations that were entered and have not returned. -/
  | collected (stack : List Nat) (state : RuntimeState V)
  /-- A read of the spilled values of the innermost invocation. -/
  | read (stack : List Nat) (arguments : List V) (state : RuntimeState V)
  /-- An invocation that ends, with the states at its entry and at its end. -/
  | finished (before after : RuntimeState V) (completion : Completion V)

/-- What an invocation or a helper leaves. -/
structure Helped (V : Type) where
  completion : Completion V
  state : RuntimeState V
  events : List (RuntimeEvent V)

/-- What an invocation meets at a depth. -/
structure Circumstances (V : Type) where
  frameId : Nat
  frameDepth : Nat
  /-- The helper panics in a collection that it asks for. -/
  panicsCollecting : Bool
  /-- The helper panics while it allocates. -/
  panicsAllocating : Bool
  /-- The collections of an allocation. -/
  collections : Nat
  /-- What is allocated. -/
  value : JitAllocationKind → List V → V

namespace JitRuntimeCall

variable {V : Type} (runtime : JitRuntimeCall)

/-- The allocation of a value. -/
def allocateValue (kind : JitAllocationKind) (arguments : List V) (circumstances : Circumstances V)
    (stack : List Nat) (state : RuntimeState V) : Helped V where
  completion :=
    if circumstances.panicsAllocating then .panicked
    else .returned (.ok (.ok (circumstances.value kind arguments)))
  state
  events :=
    (if kind = .array then [.read stack arguments state] else []) ++
      List.replicate circumstances.collections (.collected stack state)

/-- `allocate_helper`. -/
def allocateHelper (kind : JitAllocationKind) (arguments : List V)
    (circumstances : Circumstances V) (stack : List Nat) (state : RuntimeState V) : Helped V :=
  if state.allocationBudget = some 0 then
    { completion := .returned (.error .allocationFailure), state, events := [] }
  else
    let state := { state with allocationBudget := state.allocationBudget.map (· - 1) }
    if state.fastRemaining = 0 then
      if circumstances.panicsCollecting then
        { completion := .panicked, state, events := [.collected stack state] }
      else
        let refilled := { state with fastRemaining := state.fastCapacity - 1 }
        let allocated := allocateValue kind arguments circumstances stack refilled
        { allocated with events := .collected stack state :: allocated.events }
    else
      allocateValue kind arguments circumstances stack
        { state with fastRemaining := state.fastRemaining - 1 }

/-- A helper that only collects. -/
def collectHelper (circumstances : Circumstances V) (stack : List Nat) (state : RuntimeState V)
    (reads : List (RuntimeEvent V)) (result : RuntimeResult V) : Helped V :=
  if circumstances.panicsCollecting then
    { completion := .panicked, state, events := [.collected stack state] }
  else { completion := .returned result, state, events := .collected stack state :: reads }

/-- The stub for a request. -/
def codeFor (request : RuntimeRequest) (argumentCount : Nat) : Option RuntimeCallCode :=
  match request with
  | .allocate _ => runtime.allocationCode[argumentCount]?
  | .throw | .nestedThrow | .nestedAllocate _ | .collectMinor | .collectMajor =>
    runtime.callCode[argumentCount]?

/-- The frame of an invocation. -/
def newFrame (code : RuntimeCallCode) (circumstances : Circumstances V) (state : RuntimeState V) :
    ActiveJitFrame where
  header := {
    frameId := circumstances.frameId
    descriptorId := code.descriptor.id
    caller := state.nextCaller circumstances.frameDepth }
  safepointPc := code.codeStart + code.returnPc

/-- The result that the trampoline leaves, where a panic is caught. -/
def trampoline : Completion V → RuntimeResult V
  | .returned result => result
  | .panicked => .error .helperPanicked

/-- The end of an invocation whose helper ended. -/
def finish (before : RuntimeState V) (frameId : Nat) (helped : Helped V) : Helped V :=
  let result := trampoline helped.completion
  let left := helped.state.leave frameId result
  let completion := if left.1 then .returned result else .panicked
  { completion
    state := left.2
    events := helped.events ++ [.finished before left.2 completion] }

/-- An invocation that does not enter generated code. -/
def refuse (state : RuntimeState V) (completion : Completion V) : Helped V :=
  { completion, state, events := [.finished state state completion] }

variable [Inhabited V] (arguments : List V) (world : Nat → Circumstances V)

mutual

/-- `invoke`, in the invocations of `stack`. -/
def invoke (request : RuntimeRequest) (stack : List Nat) (state : RuntimeState V) : Helped V :=
  if runtime.frameRegisterCapacity < arguments.length then
    refuse state (.returned
      (.error (.tooManyArguments arguments.length runtime.frameRegisterCapacity)))
  else match runtime.codeFor request arguments.length with
    | none => refuse state .panicked
    | some code =>
      let frameId := (world stack.length).frameId
      match JitFrameChain.push state.activeFrames (newFrame code (world stack.length) state) with
      | .error _ => refuse state .panicked
      | .ok activeFrames =>
        finish state frameId (dispatch request (stack ++ [frameId])
          { state with
            activeFrames
            activeRoots := state.activeRoots ++ [{ frameId, values := arguments }] })
termination_by (request.nesting, 1)

/-- `dispatch`. -/
def dispatch (request : RuntimeRequest) (stack : List Nat) (state : RuntimeState V) : Helped V :=
  let circumstances := world (stack.length - 1)
  match request with
  | .allocate kind => allocateHelper kind arguments circumstances stack state
  | .throw =>
    collectHelper circumstances stack state []
      (.ok (.error (.typ "JIT runtime helper exception")))
  | .nestedThrow => invoke .throw stack state
  | .nestedAllocate kind => invoke (.allocate kind) stack state
  | .collectMinor | .collectMajor =>
    collectHelper circumstances stack state [.read stack arguments state]
      (.ok (.ok (arguments.head?.getD default)))
termination_by (request.nesting, 0)
decreasing_by
  · exact Prod.Lex.left _ _ Nat.zero_lt_one
  · exact Prod.Lex.left _ _ Nat.zero_lt_one

end

/-! ## Operations -/

/-- What can be asked of the runtime. -/
inductive Operation (V : Type) where
  | setAllocationBudget (budget : Option Nat)
  | invoke (request : RuntimeRequest) (arguments : List V) (world : Nat → Circumstances V)

/-- The state after an operation, and what the operation reports. -/
def act (state : RuntimeState V) : Operation V → RuntimeState V × List (RuntimeEvent V)
  | .setAllocationBudget budget => ({ state with allocationBudget := budget }, [])
  | .invoke request arguments world =>
    let helped := runtime.invoke arguments world request [] state
    (helped.state, helped.events)

/-- The state after an operation. -/
def step (state : RuntimeState V) (operation : Operation V) : RuntimeState V :=
  (runtime.act state operation).1

/-- What an operation reports. -/
def emits (state : RuntimeState V) (operation : Operation V) : List (RuntimeEvent V) :=
  (runtime.act state operation).2

end JitRuntimeCall

end Omoikane.Jit
