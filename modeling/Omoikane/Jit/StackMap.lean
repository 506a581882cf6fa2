import Omoikane.Base.Ranges

/-!
# Frames and program counters

The metadata of generated code: the safepoints of a piece of code with the live
values at each, the table of the installed pieces, and the chain of the active
frames.  Addresses and identities are numbers; an address sum that exceeds
`usize` is rejected where the source checks it.
-/

/-!
## Exception metadata

The handlers and the source map of a piece of generated code.
-/

namespace Omoikane.Jit

/-- A source position of a bytecode offset. -/
structure JitSourceLocation where
  bytecodeOffset : Nat
  line : Option Nat
  column : Option Nat
deriving DecidableEq, Repr

/-- A protected range and its handler. -/
structure JitExceptionHandler where
  start : Nat
  stop : Nat
  handler : Nat
  environmentCount : Nat
deriving DecidableEq, Repr

/-- `contains`. -/
def JitExceptionHandler.contains (handler : JitExceptionHandler) (pc : Nat) : Bool :=
  handler.start ≤ pc && pc < handler.stop

/-- Why metadata is rejected. -/
inductive JitExceptionMetadataError where
  | invalidHandler (index : Nat)
  | invalidSourceLocation (bytecodeOffset : Nat)
deriving DecidableEq, Repr

/-- The handlers, in the order of the compiler, and the source map. -/
structure JitExceptionMetadata where
  handlers : List JitExceptionHandler
  sourceLocations : List JitSourceLocation
deriving DecidableEq, Repr

namespace JitExceptionMetadata

/-- `default`. -/
def default : JitExceptionMetadata := { handlers := [], sourceLocations := [] }

/-- The first handler that is empty or not at the boundaries of instructions. -/
def checkHandlers (valid : List Nat) (index : Nat) :
    List JitExceptionHandler → Except JitExceptionMetadataError Unit
  | [] => .ok ()
  | handler :: handlers =>
    if handler.stop ≤ handler.start ∨ handler.start ∉ valid ∨ handler.stop ∉ valid ∨
        handler.handler ∉ valid then
      .error (.invalidHandler (index % 2 ^ 32))
    else checkHandlers valid (index + 1) handlers

/-- The first location that is not at a boundary, or that repeats the one before it. -/
def checkSources (valid : List Nat) (previous : Option Nat) :
    List JitSourceLocation → Except JitExceptionMetadataError Unit
  | [] => .ok ()
  | location :: locations =>
    if location.bytecodeOffset ∉ valid ∨ previous = some location.bytecodeOffset then
      .error (.invalidSourceLocation location.bytecodeOffset)
    else checkSources valid (some location.bytecodeOffset) locations

/-- `new`. -/
def new (valid : List Nat) (handlers : List JitExceptionHandler)
    (sources : List JitSourceLocation) : Except JitExceptionMetadataError JitExceptionMetadata :=
  let sources := sources.mergeSort fun a b => a.bytecodeOffset ≤ b.bytecodeOffset
  match checkHandlers valid 0 handlers with
  | .error error => .error error
  | .ok () =>
    match checkSources valid none sources with
    | .error error => .error error
    | .ok () => .ok { handlers, sourceLocations := sources }

variable (metadata : JitExceptionMetadata)

/-- `handler_at`: of the handlers around an instruction, the last. -/
def handlerAt (pc : Nat) : Option JitExceptionHandler :=
  metadata.handlers.reverse.find? fun handler => handler.contains pc

/-- `source_location`; the source map has one entry for each offset. -/
def sourceLocation (pc : Nat) : Option JitSourceLocation :=
  metadata.sourceLocations.find? fun location => location.bytecodeOffset = pc

end JitExceptionMetadata

end Omoikane.Jit

namespace Omoikane.Jit

open Base

/-! ## Architectures -/

/-- An architecture. -/
inductive JitArchitecture where
  | x86_64
  | aarch64
  | unsupported
deriving DecidableEq, Repr

/-- The number of named registers. -/
def JitArchitecture.registerCount : JitArchitecture → Nat
  | .x86_64 => 16
  | .aarch64 => 32
  | .unsupported => 0

/-- The stack pointer. -/
def JitArchitecture.stackPointer : JitArchitecture → Nat
  | .x86_64 => 7
  | .aarch64 => 31
  | .unsupported => 0

/-- `is_value_register`. -/
def JitArchitecture.isValueRegister (architecture : JitArchitecture) (register : Nat) : Bool :=
  register < architecture.registerCount && register ≠ architecture.stackPointer &&
    !(architecture = .aarch64 && register = 18)

/-! ## Safepoints -/

/-- Where a live value is. -/
inductive ValueLocation where
  | machineRegister (register : Nat)
  | stackSlot (offset : Int)
  | frameRegister (register : Nat)
deriving DecidableEq, Repr

/-- The derived order: registers, stack slots, frame registers. -/
def ValueLocation.le : ValueLocation → ValueLocation → Bool
  | .machineRegister a, .machineRegister b => a ≤ b
  | .machineRegister _, _ => true
  | .stackSlot _, .machineRegister _ => false
  | .stackSlot a, .stackSlot b => a ≤ b
  | .stackSlot _, .frameRegister _ => true
  | .frameRegister a, .frameRegister b => a ≤ b
  | .frameRegister _, _ => false

/-- Why execution may stop. -/
inductive SafepointKind where
  | call
  | allocation
  | loopBackedge
  | bailout
deriving DecidableEq, Repr

/-- The live values at a safepoint. -/
structure StackMap where
  liveValues : List ValueLocation
deriving DecidableEq, Repr

/-- `StackMap::new`: sorted and without duplicates. -/
def StackMap.new (locations : List ValueLocation) : StackMap where
  liveValues := (locations.mergeSort ValueLocation.le).eraseDups

theorem StackMap.mem_new {locations : List ValueLocation} {location : ValueLocation} :
    location ∈ (StackMap.new locations).liveValues ↔ location ∈ locations := by
  show location ∈ (locations.mergeSort ValueLocation.le).eraseDups ↔ _
  rw [List.mem_eraseDups, List.mem_mergeSort]

/-- A stop point of generated code. -/
structure Safepoint where
  machineOffset : Nat
  bytecodeOffset : Nat
  kind : SafepointKind
  stackMap : StackMap
deriving DecidableEq, Repr

/-- Why metadata is rejected. -/
inductive FrameMetadataError where
  | emptyCode
  | machineOffsetOutOfBounds (offset : Nat)
  | safepointsOutOfOrder (offset : Nat)
  | frameRegisterOutOfBounds (register : Nat)
  | invalidMachineRegister (register : Nat)
  | stackSlotOutOfBounds (offset : Int)
  | duplicateDescriptorId
  | codeRangesOverlap
  | brokenCallerChain
  | unknownSafepoint
deriving DecidableEq, Repr

/-! ## Descriptors -/

/-- The size of a frame and of its code. -/
structure FrameLayout where
  architecture : JitArchitecture
  codeSize : UInt32
  frameSize : Nat
  frameRegisterCount : Nat
deriving DecidableEq, Repr

namespace FrameLayout

variable (layout : FrameLayout)

/-- The check of one live value. -/
def validateLocation : ValueLocation → Except FrameMetadataError Unit
  | .machineRegister register =>
    if layout.architecture.isValueRegister register then .ok ()
    else .error (.invalidMachineRegister register)
  | .frameRegister register =>
    if layout.frameRegisterCount ≤ register then .error (.frameRegisterOutOfBounds register)
    else .ok ()
  | .stackSlot offset =>
    if layout.frameSize ≤ offset.natAbs then .error (.stackSlotOutOfBounds offset)
    else .ok ()

/-- The check of the live values of a safepoint. -/
def validateLocations : List ValueLocation → Except FrameMetadataError Unit
  | [] => .ok ()
  | location :: locations =>
    match layout.validateLocation location with
    | .error error => .error error
    | .ok () => validateLocations locations

/-- `validate`, after a safepoint at `previous`. -/
def validate (previous : Option Nat) : List Safepoint → Except FrameMetadataError Unit
  | [] => .ok ()
  | safepoint :: safepoints =>
    if layout.codeSize.toNat ≤ safepoint.machineOffset then
      .error (.machineOffsetOutOfBounds safepoint.machineOffset)
    else if previous.any (safepoint.machineOffset ≤ ·) then
      .error (.safepointsOutOfOrder safepoint.machineOffset)
    else match layout.validateLocations safepoint.stackMap.liveValues with
      | .error error => .error error
      | .ok () => validate (some safepoint.machineOffset) safepoints

end FrameLayout

/-- The layout and the safepoints of a piece of generated code, which were validated. -/
structure JitFrameDescriptor where
  id : Nat
  layout : FrameLayout
  safepoints : List Safepoint
  exceptionMetadata : JitExceptionMetadata
  nonempty : layout.codeSize ≠ 0
  valid : layout.validate none safepoints = .ok ()

namespace JitFrameDescriptor

/-- `new`. -/
def new (id : Nat) (layout : FrameLayout) (safepoints : List Safepoint) :
    Except FrameMetadataError JitFrameDescriptor :=
  if nonempty : layout.codeSize = 0 then .error .emptyCode
  else match valid : layout.validate none safepoints with
    | .error error => .error error
    | .ok () =>
      .ok { id, layout, safepoints, exceptionMetadata := .default, nonempty, valid }

/-- `with_exception_metadata`. -/
def withExceptionMetadata (descriptor : JitFrameDescriptor) (metadata : JitExceptionMetadata) :
    JitFrameDescriptor :=
  { descriptor with exceptionMetadata := metadata }

/-- The size of the code in bytes. -/
def codeSize (descriptor : JitFrameDescriptor) : Nat := descriptor.layout.codeSize.toNat

/-- `lookup`; the offsets of the safepoints are distinct. -/
def lookup (descriptor : JitFrameDescriptor) (machineOffset : Nat) : Option Safepoint :=
  descriptor.safepoints.find? fun safepoint => safepoint.machineOffset = machineOffset

end JitFrameDescriptor

/-! ## The table of installed code -/

/-- A piece of code at an address. -/
structure InstalledDescriptor where
  codeStart : Nat
  descriptor : JitFrameDescriptor

/-- The end of the code. -/
def InstalledDescriptor.codeEnd (entry : InstalledDescriptor) : Nat :=
  entry.codeStart + entry.descriptor.codeSize

/-- The installed pieces of code, by address. -/
abbrev JitPcTable := List InstalledDescriptor

/-- A safepoint and the descriptor that owns it. -/
structure JitPcLookup where
  descriptor : JitFrameDescriptor
  safepoint : Safepoint

namespace JitPcTable

variable (table : JitPcTable)

/-- An installed piece of code that overlaps a range, or exceeds `usize`. -/
def overlaps (codeStart codeEnd : Nat) (entry : InstalledDescriptor) : Bool :=
  2 ^ 64 ≤ entry.codeEnd || codeStart < entry.codeEnd && entry.codeStart < codeEnd

/-- `install`. -/
def install (codeStart : Nat) (descriptor : JitFrameDescriptor) :
    Except FrameMetadataError JitPcTable :=
  if table.any fun entry => entry.descriptor.id = descriptor.id then .error .duplicateDescriptorId
  else if 2 ^ 64 ≤ codeStart + descriptor.codeSize then .error .codeRangesOverlap
  else if table.any (overlaps codeStart (codeStart + descriptor.codeSize)) then
    .error .codeRangesOverlap
  else .ok ((table ++ [(⟨codeStart, descriptor⟩ : InstalledDescriptor)]).mergeSort
    fun a b => a.codeStart ≤ b.codeStart)

/-- `lookup`. -/
def lookup (machinePc : Nat) : Option JitPcLookup :=
  match Ranges.before InstalledDescriptor.codeStart machinePc table with
  | none => none
  | some entry =>
    let offset := machinePc - entry.codeStart
    if 2 ^ 32 ≤ offset then none
    else match entry.descriptor.lookup offset with
      | none => none
      | some safepoint => some { descriptor := entry.descriptor, safepoint }

end JitPcTable

/-! ## Active frames -/

/-- The caller of a frame. -/
inductive FrameCaller where
  | interpreter (frameDepth : Nat)
  | jit (frameId : Nat)
deriving DecidableEq, Repr

/-- The header of an active frame. -/
structure JitFrameHeader where
  frameId : Nat
  descriptorId : Nat
  caller : FrameCaller
deriving DecidableEq, Repr

/-- A frame that stopped at a safepoint. -/
structure ActiveJitFrame where
  header : JitFrameHeader
  safepointPc : Nat
deriving DecidableEq, Repr

/-- The active frames, from the outermost to the innermost. -/
abbrev JitFrameChain := List ActiveJitFrame

namespace JitFrameChain

variable (chain : JitFrameChain)

/-- The caller of a new frame is the innermost one. -/
def callerMatches (caller : FrameCaller) : Bool :=
  match chain.getLast?, caller with
  | none, .interpreter _ => true
  | some parent, .jit frameId => parent.header.frameId = frameId
  | _, _ => false

/-- `push`. -/
def push (frame : ActiveJitFrame) : Except FrameMetadataError JitFrameChain :=
  if !callerMatches chain frame.header.caller ||
      chain.any fun active => active.header.frameId = frame.header.frameId then
    .error .brokenCallerChain
  else .ok (chain ++ [frame])

/-- `pop`. -/
def pop (frameId : Nat) : Except FrameMetadataError (ActiveJitFrame × JitFrameChain) :=
  match chain.getLast? with
  | none => .error .brokenCallerChain
  | some frame =>
    if frame.header.frameId ≠ frameId then .error .brokenCallerChain
    else .ok (frame, chain.dropLast)

/-- The safepoint of a frame. -/
def resolve (table : JitPcTable) (frame : ActiveJitFrame) : Except FrameMetadataError JitPcLookup :=
  match JitPcTable.lookup table frame.safepointPc with
  | none => .error .unknownSafepoint
  | some found =>
    if found.descriptor.id ≠ frame.header.descriptorId then .error .unknownSafepoint
    else .ok found

/-- `resolve_safepoints`. -/
def resolveSafepoints (table : JitPcTable) : JitFrameChain → Except FrameMetadataError (List JitPcLookup)
  | [] => .ok []
  | frame :: frames =>
    match resolve table frame with
    | .error error => .error error
    | .ok found =>
      match resolveSafepoints table frames with
      | .error error => .error error
      | .ok rest => .ok (found :: rest)

end JitFrameChain

end Omoikane.Jit
