import Omoikane.Base.Bytes
import Omoikane.Base.Ranges

/-!
# Basic blocks of the baseline compiler

`lower` cuts verified bytecode into basic blocks.  A block starts at the first instruction, at every jump
target, at both ends of every handler, at an unsupported instruction and behind it, and behind a terminator.
An unsupported instruction is a block of its own, from which the interpreter goes on.

The interpreter moves from an instruction to the next one, to a jump target, or to the entry of a handler that
covers it, which is where the handler ends (`Moves`).  `IsSoundGraph` says that the blocks have an edge for
each of these moves.
-/

namespace Omoikane.Jit.Lowering

open Base

/-! ## Bytecode -/

/-- A scalar operand.  `F` has the floating-point numbers. -/
inductive BytecodeOperandValue (F : Type) where
  | unsigned (value : Nat)
  | signed (value : Int)
  | float (value : F)
deriving DecidableEq, Repr

structure BytecodeOperand (F : Type) where
  name : String
  value : BytecodeOperandValue F
deriving DecidableEq, Repr

structure BytecodeInstruction (F : Type) where
  offset : Nat
  nextOffset : Nat
  opcode : Nat
  name : String
  operands : List (BytecodeOperand F)
deriving DecidableEq, Repr

/-- A handler covers the bytecode from its start to its end, where it is entered. -/
structure BytecodeHandler where
  start : Nat
  stop : Nat
deriving DecidableEq, Repr

def BytecodeHandler.contains (handler : BytecodeHandler) (pc : Nat) : Bool := pc < handler.stop && pc ≥ handler.start

structure BytecodeContractSnapshot (F : Type) where
  version : Nat
  byteLen : Nat
  registerCount : Nat
  instructions : List (BytecodeInstruction F)
  handlers : List BytecodeHandler
deriving DecidableEq, Repr

def bytecodeContractVersion : Nat := 3

def isJumpOperand (name : String) : Bool :=
  ["address", "default", "addresses", "throw_method_undefined", "return_method_undefined", "return", "r#return",
    "exit"].contains name

def isRegisterOperand (opcode name : String) : Bool :=
  ["dst", "src", "lhs", "rhs", "value", "values", "object", "source", "key", "function", "home", "prototype",
    "class", "superclass", "array", "condition", "exception", "has_exception", "receiver", "proto", "local",
    "called", "resume_kind", "excluded_keys", "is_return", "name"].contains name ||
  (opcode == "JumpTable" && name == "index")

/-! ## Blocks -/

/-- An instruction of a block. -/
structure BaselineInstruction (F : Type) where
  bytecodeOffset : Nat
  opcode : Nat
  name : String
  operands : List (BytecodeOperand F)
deriving DecidableEq, Repr

structure VmState where
  registerCount : Nat
  liveRegisters : List Nat
  bytecodeOffset : Nat
deriving DecidableEq, Repr

inductive BaselineBlockKind where
  | compilable
  | interpreterFallback (opcode : String) (resumeOffset : Nat)
deriving DecidableEq, Repr

structure BaselineBlock (F : Type) where
  id : Nat
  startOffset : Nat
  endOffset : Nat
  entryState : VmState
  instructions : List (BaselineInstruction F)
  successors : List Nat
  exceptionSuccessors : List Nat
  kind : BaselineBlockKind
deriving DecidableEq, Repr

structure BaselineIr (F : Type) where
  contractVersion : Nat
  byteLen : Nat
  blocks : List (BaselineBlock F)
deriving DecidableEq, Repr

inductive LoweringError where
  | contractVersion (expected actual : Nat)
  | malformedSnapshot (offset : Nat)
deriving DecidableEq, Repr

section Lower

variable {F : Type}

/-- A set of numbers, in order. -/
def ordered (numbers : List Nat) : List Nat := (numbers.insertionSort (· ≤ ·)).dedup

/-- The unsigned operands whose names satisfy a test, as `u32`. -/
def unsignedOperands (test : String → Bool) (instruction : BytecodeInstruction F) : List Nat :=
  (instruction.operands.filter fun operand => test operand.name).filterMap fun operand =>
    match operand.value with
    | .unsigned value => some (value % 2 ^ 32)
    | _ => none

def branchTargets (instruction : BytecodeInstruction F) : List Nat := unsignedOperands isJumpOperand instruction

def registerOperands (instruction : BytecodeInstruction F) : List Nat :=
  unsignedOperands (isRegisterOperand instruction.name) instruction

def isTerminator (name : String) : Bool :=
  ["Jump", "JumpIfTrue", "JumpIfFalse", "LogicalAnd", "LogicalOr", "Return", "Throw"].contains name

def isSupported (name : String) : Bool :=
  ["PushZero", "PushOne", "PushInt8", "PushInt16", "PushInt32", "PushFloat", "PushDouble", "PushNan", "PushTrue",
    "PushFalse", "PushNull", "PushUndefined", "Move", "Inc", "Add", "Sub", "Mul", "Div", "Mod", "StrictEq",
    "StrictNotEq", "GreaterThan", "GreaterThanOrEq", "LessThan", "LessThanOrEq", "LogicalNot", "Neg", "Jump",
    "JumpIfTrue", "JumpIfFalse", "IncrementLoopIteration", "Return"].contains name

def lowerInstruction (instruction : BytecodeInstruction F) : BaselineInstruction F where
  bytecodeOffset := instruction.offset
  opcode := instruction.opcode
  name := instruction.name
  operands := instruction.operands

def successors (instruction : BytecodeInstruction F) (fallthrough byteLen : Nat) : List Nat :=
  ordered (branchTargets instruction ++
    if instruction.name ≠ "Jump" ∧ instruction.name ≠ "Return" ∧ instruction.name ≠ "Throw" ∧ fallthrough < byteLen
    then [fallthrough] else [])

/-- The boundaries at handlers. -/
def handlerBoundaries (offsets : List Nat) : List BytecodeHandler → Except LoweringError (List Nat)
  | [] => .ok []
  | handler :: handlers => do
    if handler.start ≥ handler.stop ∨ handler.start ∉ offsets ∨ handler.stop ∉ offsets then
      .error (.malformedSnapshot handler.start)
    else
      let boundaries ← handlerBoundaries offsets handlers
      return handler.start :: handler.stop :: boundaries

/-- An operand of 64 bits. -/
def hasWideOperand (instruction : BytecodeInstruction F) : Bool :=
  instruction.operands.any fun operand =>
    match operand.value with
    | .unsigned value => value > 2 ^ 32 - 1
    | _ => false

/-- The boundaries that an instruction asks for. -/
def boundariesOf (byteLen : Nat) (instruction : BytecodeInstruction F) : List Nat :=
  branchTargets instruction ++
    (if isSupported instruction.name then [] else [instruction.offset]) ++
    if (isTerminator instruction.name ∨ ¬ isSupported instruction.name) ∧ instruction.nextOffset < byteLen then
      [instruction.nextOffset] else []

/-- The boundaries at instructions, each of which ends where the next one starts. -/
def instructionBoundaries (offsets : List Nat) (byteLen : Nat) :
    List (BytecodeInstruction F) → Except LoweringError (List Nat)
  | [] => .ok []
  | instruction :: rest => do
    if hasWideOperand instruction then .error (.malformedSnapshot instruction.offset)
    else if instruction.nextOffset ≤ instruction.offset ∨
        instruction.nextOffset ≠ (rest.head?.map (·.offset)).getD byteLen then
      .error (.malformedSnapshot instruction.offset)
    else if ¬ ∀ target ∈ branchTargets instruction, target ∈ offsets then
      .error (.malformedSnapshot instruction.offset)
    else
      let boundaries ← instructionBoundaries offsets byteLen rest
      return boundariesOf byteLen instruction ++ boundaries

/-- The identifier of the block at an offset. -/
def blockByOffset (starts : List Nat) (offset : Nat) : Option Nat :=
  if offset ∈ starts then some (starts.idxOf offset) else none

def lowerBlock (snapshot : BytecodeContractSnapshot F) (starts : List Nat) (id start stop : Nat) :
    Except LoweringError (BaselineBlock F) :=
  let source := Pieces.piece (fun instruction : BytecodeInstruction F => instruction.offset) start stop
    snapshot.instructions
  match source.getLast? with
  | none => .error (.malformedSnapshot start)
  | some last => .ok {
      id
      startOffset := start
      endOffset := stop
      entryState := {
        registerCount := snapshot.registerCount
        liveRegisters := ordered (source.flatMap registerOperands)
        bytecodeOffset := start }
      instructions := source.map lowerInstruction
      successors := (successors last stop snapshot.byteLen).filterMap (blockByOffset starts)
      exceptionSuccessors := ordered
        ((snapshot.handlers.filter fun handler => start < handler.stop && stop > handler.start).filterMap
          fun handler => blockByOffset starts handler.stop)
      kind := match source.find? fun instruction => !isSupported instruction.name with
        | none => .compilable
        | some instruction => .interpreterFallback instruction.name instruction.offset }

def lowerBlocks (snapshot : BytecodeContractSnapshot F) (starts : List Nat) :
    Nat → List Nat → Except LoweringError (List (BaselineBlock F))
  | _, [] => .ok []
  | id, start :: rest => do
    let block ← lowerBlock snapshot starts id start (rest.head?.getD snapshot.byteLen)
    let blocks ← lowerBlocks snapshot starts (id + 1) rest
    return block :: blocks

/-- Lowers a snapshot into basic blocks. -/
def lower (snapshot : BytecodeContractSnapshot F) : Except LoweringError (BaselineIr F) :=
  if snapshot.version ≠ bytecodeContractVersion then
    .error (.contractVersion bytecodeContractVersion snapshot.version)
  else
    match snapshot.instructions with
    | [] => .ok { contractVersion := snapshot.version, byteLen := snapshot.byteLen, blocks := [] }
    | first :: _ => do
      if first.offset ≠ 0 then .error (.malformedSnapshot first.offset)
      else
        let offsets := snapshot.instructions.map (·.offset)
        let atHandlers ← handlerBoundaries offsets snapshot.handlers
        let atInstructions ← instructionBoundaries offsets snapshot.byteLen snapshot.instructions
        let starts := ordered (first.offset :: atHandlers ++ atInstructions)
        let blocks ← lowerBlocks snapshot starts 0 starts
        return { contractVersion := snapshot.version, byteLen := snapshot.byteLen, blocks }

/-! ## Moves of the interpreter -/

/-- The operands that an operation takes for the program counter. -/
def jumpFields (opcode : String) : List String :=
  if ["Jump", "JumpIfTrue", "JumpIfFalse", "JumpIfNotUndefined", "JumpIfNullOrUndefined", "LogicalAnd", "LogicalOr",
      "Coalesce", "Case", "JumpIfNotResumeKind", "TemplateLookup"].contains opcode then ["address"]
  else if opcode = "JumpTable" then ["default", "addresses"]
  else if opcode = "GeneratorDelegateNext" then ["throw_method_undefined", "return_method_undefined"]
  else if opcode = "GeneratorDelegateResume" then ["r#return", "exit"]
  else []

/-- The interpreter may move from an instruction to an offset.  When an instruction is carried out the program
counter is behind it already, and a handler is looked for one byte before. -/
inductive Moves (handlers : List BytecodeHandler) (instruction : BytecodeInstruction F) : Nat → Prop
  | next (h : instruction.name ∉ ["Jump", "Return", "Throw"]) : Moves handlers instruction instruction.nextOffset
  | jump {operand : BytecodeOperand F} {target : Nat} (hoperand : operand ∈ instruction.operands)
      (hname : operand.name ∈ jumpFields instruction.name) (hvalue : operand.value = .unsigned target) :
      Moves handlers instruction target
  | throw {handler : BytecodeHandler} (hhandler : handler ∈ handlers)
      (hcovers : handler.contains (instruction.nextOffset - 1) = true) : Moves handlers instruction handler.stop

/-- An offset is a jump target, or an end of a handler. -/
def IsTarget (snapshot : BytecodeContractSnapshot F) (offset : Nat) : Prop :=
  (∃ instruction ∈ snapshot.instructions, offset ∈ branchTargets instruction) ∨
    ∃ handler ∈ snapshot.handlers, offset = handler.start ∨ offset = handler.stop

/-- A block starts with an instruction. -/
def BaselineBlock.StartsWith (block : BaselineBlock F) (instruction : BytecodeInstruction F) : Prop :=
  block.instructions.head? = some (lowerInstruction instruction)

/-- The blocks are the instructions in pieces, with an edge for every move. -/
structure IsSoundGraph (snapshot : BytecodeContractSnapshot F) (ir : BaselineIr F) : Prop where
  partition : ir.blocks.flatMap (·.instructions) = snapshot.instructions.map lowerInstruction
  nonempty : ∀ block ∈ ir.blocks, block.instructions ≠ []
  leaders : ∀ instruction ∈ snapshot.instructions, IsTarget snapshot instruction.offset →
    ∃ block ∈ ir.blocks, block.StartsWith instruction
  fallbacks : ∀ instruction ∈ snapshot.instructions, isSupported instruction.name = false →
    ∃ block ∈ ir.blocks, block.instructions = [lowerInstruction instruction] ∧
      block.kind = .interpreterFallback instruction.name instruction.offset
  edges : ∀ block ∈ ir.blocks, ∀ last ∈ snapshot.instructions, ∀ next ∈ snapshot.instructions,
    block.instructions.getLast? = some (lowerInstruction last) → Moves snapshot.handlers last next.offset →
    ∃ id target, ir.blocks[id]? = some target ∧ target.StartsWith next ∧
      (id ∈ block.successors ∨ id ∈ block.exceptionSuccessors)

/-! ## Offsets -/

theorem mem_ordered {numbers : List Nat} {n : Nat} : n ∈ ordered numbers ↔ n ∈ numbers := by
  rw [ordered, List.mem_dedup, List.mem_insertionSort]

theorem sorted_ordered (numbers : List Nat) : (ordered numbers).Pairwise (· < ·) := by
  have hle : (ordered numbers).Pairwise (· ≤ ·) :=
    (List.pairwise_insertionSort (· ≤ ·) numbers).sublist (List.dedup_sublist _)
  exact (hle.and (List.nodup_dedup _)).imp fun h => Nat.lt_of_le_of_ne h.1 h.2

/-- Each instruction ends where the next one starts. -/
def Contiguous (byteLen : Nat) : List (BytecodeInstruction F) → Prop
  | [] => True
  | instruction :: rest => instruction.offset < instruction.nextOffset ∧
      instruction.nextOffset = (rest.head?.map (·.offset)).getD byteLen ∧ Contiguous byteLen rest

/-- Where the first instruction starts, or the end. -/
def startOf (byteLen : Nat) (instructions : List (BytecodeInstruction F)) : Nat :=
  (instructions.head?.map (·.offset)).getD byteLen

namespace Contiguous

variable {byteLen : Nat} {instructions : List (BytecodeInstruction F)}

theorem startOf_le : ∀ {instructions : List (BytecodeInstruction F)}, Contiguous byteLen instructions →
    startOf byteLen instructions ≤ byteLen
  | [], _ => Nat.le_refl _
  | first :: rest, ⟨hlt, hnext, hrest⟩ => by
    have hle : startOf byteLen rest ≤ byteLen := hrest.startOf_le
    rw [startOf] at hle
    show first.offset ≤ byteLen
    omega

theorem startOf_le_offset : ∀ {instructions : List (BytecodeInstruction F)}, Contiguous byteLen instructions →
    ∀ instruction ∈ instructions, startOf byteLen instructions ≤ instruction.offset
  | first :: rest, ⟨hlt, hnext, hrest⟩, instruction, hmem => by
    show first.offset ≤ instruction.offset
    rcases List.mem_cons.mp hmem with rfl | hmem
    · exact Nat.le_refl _
    · have hle := hrest.startOf_le_offset instruction hmem
      rw [startOf] at hle
      omega

theorem sorted : ∀ {instructions : List (BytecodeInstruction F)}, Contiguous byteLen instructions →
    Pieces.Sorted (fun instruction : BytecodeInstruction F => instruction.offset) instructions
  | [], _ => List.Pairwise.nil
  | first :: rest, ⟨hlt, hnext, hrest⟩ => by
    refine List.pairwise_cons.mpr ⟨fun instruction hmem => ?_, hrest.sorted⟩
    have hle := hrest.startOf_le_offset instruction hmem
    rw [startOf] at hle
    show first.offset < instruction.offset
    omega

theorem next_le : ∀ {instructions : List (BytecodeInstruction F)}, Contiguous byteLen instructions →
    ∀ instruction ∈ instructions, instruction.offset < instruction.nextOffset ∧ instruction.nextOffset ≤ byteLen
  | first :: rest, ⟨hlt, hnext, hrest⟩, instruction, hmem => by
    rcases List.mem_cons.mp hmem with rfl | hmem
    · refine ⟨hlt, ?_⟩
      rw [hnext]
      exact hrest.startOf_le
    · exact hrest.next_le instruction hmem

/-- Behind an instruction stands the next one. -/
theorem exists_next : ∀ {instructions : List (BytecodeInstruction F)}, Contiguous byteLen instructions →
    ∀ instruction ∈ instructions, instruction.nextOffset < byteLen →
      ∃ next ∈ instructions, next.offset = instruction.nextOffset
  | first :: rest, ⟨hlt, hnext, hrest⟩, instruction, hmem, hinside => by
    rcases List.mem_cons.mp hmem with rfl | hmem
    · cases rest with
      | nil =>
        rw [hnext] at hinside
        exact absurd hinside (Nat.lt_irrefl _)
      | cons next rest => exact ⟨next, List.mem_cons_of_mem _ List.mem_cons_self, hnext.symm⟩
    · obtain ⟨next, hmem', heq⟩ := hrest.exists_next instruction hmem hinside
      exact ⟨next, List.mem_cons_of_mem _ hmem', heq⟩

/-- No instruction starts inside of another one. -/
theorem next_le_of_lt : ∀ {instructions : List (BytecodeInstruction F)}, Contiguous byteLen instructions →
    ∀ instruction ∈ instructions, ∀ other ∈ instructions, instruction.offset < other.offset →
      instruction.nextOffset ≤ other.offset
  | first :: rest, ⟨hlt, hnext, hrest⟩, instruction, hmem, other, hother, hless => by
    have hstart : ∀ i ∈ first :: rest, first.offset ≤ i.offset :=
      startOf_le_offset (show Contiguous byteLen (first :: rest) from ⟨hlt, hnext, hrest⟩)
    rcases List.mem_cons.mp hother with rfl | hbehind
    · exact absurd hless (Nat.not_lt.mpr (hstart instruction hmem))
    · rcases List.mem_cons.mp hmem with rfl | hmem
      · rw [hnext]
        exact hrest.startOf_le_offset other hbehind
      · exact hrest.next_le_of_lt instruction hmem other hbehind hless

theorem eq_of_offset (h : Contiguous byteLen instructions) {a b : BytecodeInstruction F} (ha : a ∈ instructions)
    (hb : b ∈ instructions) (heq : a.offset = b.offset) : a = b := by
  have hnodup : (instructions.map (·.offset)).Nodup :=
    List.pairwise_map.mpr (h.sorted.imp fun hlt => Nat.ne_of_lt hlt)
  exact List.inj_on_of_nodup_map hnodup ha hb heq

end Contiguous

/-! ## What the checks establish -/

theorem handlerBoundaries_ok {offsets : List Nat} : ∀ {handlers : List BytecodeHandler} {boundaries : List Nat},
    handlerBoundaries offsets handlers = .ok boundaries →
    (∀ boundary ∈ boundaries, boundary ∈ offsets) ∧
      ∀ handler ∈ handlers, handler.start ∈ boundaries ∧ handler.stop ∈ boundaries
  | [], boundaries, h => by
    cases h
    exact ⟨fun _ hmem => (nomatch hmem), fun _ hmem => (nomatch hmem)⟩
  | handler :: handlers, boundaries, h => by
    rw [handlerBoundaries] at h
    split at h
    next => cases h
    next hvalid =>
      rw [not_or, not_or, not_not, not_not] at hvalid
      obtain ⟨rest, hrest, heq⟩ := bind_eq_ok.mp h
      cases heq
      obtain ⟨hoffsets, hends⟩ := handlerBoundaries_ok hrest
      refine ⟨fun boundary hmem => ?_, fun other hmem => ?_⟩
      · rcases List.mem_cons.mp hmem with rfl | hmem
        · exact hvalid.2.1
        · rcases List.mem_cons.mp hmem with rfl | hmem
          · exact hvalid.2.2
          · exact hoffsets boundary hmem
      · rcases List.mem_cons.mp hmem with rfl | hmem
        · exact ⟨List.mem_cons_self, List.mem_cons_of_mem _ List.mem_cons_self⟩
        · obtain ⟨hstart, hstop⟩ := hends other hmem
          exact ⟨List.mem_cons_of_mem _ (List.mem_cons_of_mem _ hstart),
            List.mem_cons_of_mem _ (List.mem_cons_of_mem _ hstop)⟩

/-- The first of a sorted list is its least element. -/
theorem head?_of_sorted {numbers : List Nat} {least : Nat} (h : numbers.Pairwise (· < ·)) (hmem : least ∈ numbers)
    (hle : ∀ n ∈ numbers, least ≤ n) : numbers.head? = some least := by
  cases numbers with
  | nil => cases hmem
  | cons first rest =>
    rcases List.mem_cons.mp hmem with rfl | hrest
    · rfl
    · have hlt := (List.pairwise_cons.mp h).1 least hrest
      have hge := hle first List.mem_cons_self
      omega

/-- What holds of instructions that pass the checks. -/
structure Checked (offsets : List Nat) (byteLen : Nat) (instructions : List (BytecodeInstruction F))
    (boundaries : List Nat) : Prop where
  contiguous : Contiguous byteLen instructions
  narrow : ∀ instruction ∈ instructions, hasWideOperand instruction = false
  targets : ∀ instruction ∈ instructions, ∀ target ∈ branchTargets instruction, target ∈ offsets
  boundary : ∀ boundary : Nat, boundary ∈ boundaries ↔
    ∃ instruction ∈ instructions, boundary ∈ boundariesOf byteLen instruction

theorem instructionBoundaries_ok {offsets : List Nat} {byteLen : Nat} :
    ∀ {instructions : List (BytecodeInstruction F)} {boundaries : List Nat},
    instructionBoundaries offsets byteLen instructions = .ok boundaries →
    Checked offsets byteLen instructions boundaries
  | [], boundaries, h => by
    cases h
    exact ⟨trivial, fun _ hmem => (nomatch hmem), fun _ hmem => (nomatch hmem),
      fun boundary => ⟨fun hmem => (nomatch hmem), fun ⟨_, hmem, _⟩ => nomatch hmem⟩⟩
  | instruction :: rest, boundaries, h => by
    rw [instructionBoundaries] at h
    split at h
    next => cases h
    next hnarrow =>
    split at h
    next => cases h
    next hnext =>
    split at h
    next => cases h
    next htargets =>
      rw [not_or, not_not] at hnext
      obtain ⟨more, hrest, heq⟩ := bind_eq_ok.mp h
      cases heq
      have hchecked := instructionBoundaries_ok hrest
      refine ⟨⟨Nat.lt_of_not_le hnext.1, hnext.2, hchecked.contiguous⟩, fun other hmem => ?_, fun other hmem => ?_,
        fun boundary => ?_⟩
      · rcases List.mem_cons.mp hmem with rfl | hmem
        · exact Bool.eq_false_iff.mpr hnarrow
        · exact hchecked.narrow other hmem
      · rcases List.mem_cons.mp hmem with rfl | hmem
        · exact not_not.mp htargets
        · exact hchecked.targets other hmem
      · rw [List.mem_append, hchecked.boundary]
        simp only [List.mem_cons, exists_eq_or_imp]

/-- Every boundary is the offset of an instruction. -/
theorem Checked.offset_of_boundary {instructions : List (BytecodeInstruction F)} {byteLen : Nat}
    {boundaries : List Nat} (h : Checked (instructions.map (·.offset)) byteLen instructions boundaries)
    {instruction : BytecodeInstruction F} (hinstruction : instruction ∈ instructions) {boundary : Nat}
    (hboundary : boundary ∈ boundariesOf byteLen instruction) :
    ∃ other ∈ instructions, other.offset = boundary := by
  rw [boundariesOf, List.mem_append, List.mem_append] at hboundary
  rcases hboundary with (htarget | hown) | hnext
  · exact List.mem_map.mp (h.targets instruction hinstruction boundary htarget)
  · split at hown
    next => cases hown
    next =>
      rw [List.mem_singleton.mp hown]
      exact ⟨instruction, hinstruction, rfl⟩
  · split at hnext
    next hinside =>
      rw [List.mem_singleton.mp hnext]
      exact h.contiguous.exists_next instruction hinstruction hinside.2
    next => cases hnext

/-- Where blocks start, and what starts one. -/
structure Cuts (snapshot : BytecodeContractSnapshot F) (starts : List Nat) : Prop where
  contiguous : Contiguous snapshot.byteLen snapshot.instructions
  narrow : ∀ instruction ∈ snapshot.instructions, hasWideOperand instruction = false
  sorted : starts.Pairwise (· < ·)
  first : starts.head? = some (startOf snapshot.byteLen snapshot.instructions)
  offsets : ∀ start ∈ starts, ∃ instruction ∈ snapshot.instructions, instruction.offset = start
  leaders : ∀ instruction ∈ snapshot.instructions, ∀ boundary ∈ boundariesOf snapshot.byteLen instruction,
    boundary ∈ starts
  handlers : ∀ handler ∈ snapshot.handlers, handler.start ∈ starts ∧ handler.stop ∈ starts

/-- Lowering cuts the instructions into blocks, if there are any. -/
theorem lower_ok {snapshot : BytecodeContractSnapshot F} {ir : BaselineIr F} (h : lower snapshot = .ok ir) :
    (snapshot.instructions = [] ∧ ir.blocks = []) ∨
      ∃ starts, Cuts snapshot starts ∧ lowerBlocks snapshot starts 0 starts = .ok ir.blocks := by
  rw [lower] at h
  split at h
  next => cases h
  next =>
  cases hinstructions : snapshot.instructions with
  | nil =>
    rw [hinstructions] at h
    cases h
    exact .inl ⟨rfl, rfl⟩
  | cons first rest =>
    right
    rw [hinstructions] at h
    dsimp only at h
    split at h
    next => cases h
    next hzero =>
      obtain ⟨atHandlers, hhandlers, h⟩ := bind_eq_ok.mp h
      obtain ⟨atInstructions, hchecks, h⟩ := bind_eq_ok.mp h
      obtain ⟨blocks, hblocks, h⟩ := bind_eq_ok.mp h
      cases h
      rw [← hinstructions] at hhandlers hchecks
      have hchecked := instructionBoundaries_ok hchecks
      obtain ⟨hatHandlers, hends⟩ := handlerBoundaries_ok hhandlers
      have hfirst : first ∈ snapshot.instructions := hinstructions ▸ List.mem_cons_self
      have hstart : startOf snapshot.byteLen snapshot.instructions = first.offset := by
        rw [startOf, hinstructions]
        rfl
      have hoffsets : ∀ start ∈ ordered (first.offset :: atHandlers ++ atInstructions),
          ∃ instruction ∈ snapshot.instructions, instruction.offset = start := by
        intro start hmem
        rw [mem_ordered, List.mem_append, List.mem_cons] at hmem
        rcases hmem with (rfl | hmem) | hmem
        · exact ⟨first, hfirst, rfl⟩
        · exact List.mem_map.mp (hatHandlers start hmem)
        · obtain ⟨instruction, hinstruction, hboundary⟩ := (hchecked.boundary start).mp hmem
          exact hchecked.offset_of_boundary hinstruction hboundary
      refine ⟨_, ⟨hchecked.contiguous, hchecked.narrow, sorted_ordered _, ?_, hoffsets, ?_, ?_⟩, hblocks⟩
      · rw [hstart]
        refine head?_of_sorted (sorted_ordered _) (mem_ordered.mpr List.mem_cons_self) fun start hmem => ?_
        obtain ⟨instruction, hinstruction, rfl⟩ := hoffsets start hmem
        rw [← hstart]
        exact hchecked.contiguous.startOf_le_offset instruction hinstruction
      · intro instruction hinstruction boundary hboundary
        refine mem_ordered.mpr (List.mem_append_right _ ?_)
        exact (hchecked.boundary boundary).mpr ⟨instruction, hinstruction, hboundary⟩
      · intro handler hhandler
        obtain ⟨hstart, hstop⟩ := hends handler hhandler
        exact ⟨mem_ordered.mpr (List.mem_append_left _ (List.mem_cons_of_mem _ hstart)),
          mem_ordered.mpr (List.mem_append_left _ (List.mem_cons_of_mem _ hstop))⟩

/-! ## Blocks of a cut -/

/-- The instructions of the block that starts at an offset. -/
def sourceOf (snapshot : BytecodeContractSnapshot F) (start stop : Nat) : List (BytecodeInstruction F) :=
  Pieces.piece (fun instruction : BytecodeInstruction F => instruction.offset) start stop snapshot.instructions

theorem lowerBlocks_ok {snapshot : BytecodeContractSnapshot F} {all : List Nat} :
    ∀ {starts : List Nat} {id : Nat} {blocks : List (BaselineBlock F)},
    lowerBlocks snapshot all id starts = .ok blocks →
    blocks.length = starts.length ∧ ∀ k start, starts[k]? = some start → ∃ block, blocks[k]? = some block ∧
      lowerBlock snapshot all (id + k) start (starts[k + 1]?.getD snapshot.byteLen) = .ok block
  | [], id, blocks, h => by
    cases h
    exact ⟨rfl, fun k start hk => nomatch hk⟩
  | start :: rest, id, blocks, h => by
    rw [lowerBlocks] at h
    obtain ⟨block, hblock, h⟩ := bind_eq_ok.mp h
    obtain ⟨more, hmore, h⟩ := bind_eq_ok.mp h
    cases h
    obtain ⟨hlength, hrest⟩ := lowerBlocks_ok hmore
    refine ⟨congrArg Nat.succ hlength, fun k other hk => ?_⟩
    cases k with
    | zero =>
      cases hk
      refine ⟨block, rfl, ?_⟩
      rw [List.getElem?_cons_succ, ← List.head?_eq_getElem?]
      exact hblock
    | succ k =>
      obtain ⟨other, hother, hlower⟩ := hrest k other hk
      refine ⟨other, hother, ?_⟩
      have hid : id + (k + 1) = id + 1 + k := by omega
      rw [hid]
      exact hlower

/-- The parts of a block. -/
structure IsBlock (snapshot : BytecodeContractSnapshot F) (starts : List Nat) (start stop : Nat)
    (last : BytecodeInstruction F) (block : BaselineBlock F) : Prop where
  isLast : (sourceOf snapshot start stop).getLast? = some last
  instructions : block.instructions = (sourceOf snapshot start stop).map lowerInstruction
  successors : block.successors = (successors last stop snapshot.byteLen).filterMap (blockByOffset starts)
  exceptions : ∀ id : Nat, id ∈ block.exceptionSuccessors ↔ ∃ handler ∈ snapshot.handlers,
    (start < handler.stop ∧ stop > handler.start) ∧ blockByOffset starts handler.stop = some id
  kind : ∀ instruction : BytecodeInstruction F, sourceOf snapshot start stop = [instruction] →
    isSupported instruction.name = false → block.kind = .interpreterFallback instruction.name instruction.offset

theorem lowerBlock_ok {snapshot : BytecodeContractSnapshot F} {starts : List Nat} {id start stop : Nat}
    {block : BaselineBlock F} (h : lowerBlock snapshot starts id start stop = .ok block) :
    ∃ last, IsBlock snapshot starts start stop last block := by
  rw [lowerBlock] at h
  cases hlast : (sourceOf snapshot start stop).getLast? with
  | none =>
    rw [sourceOf] at hlast
    rw [hlast] at h
    cases h
  | some last =>
    refine ⟨last, ?_⟩
    have hsource := hlast
    rw [sourceOf] at hlast
    rw [hlast] at h
    cases h
    refine ⟨hsource, rfl, rfl, fun id => ?_, fun instruction hsingle hunsupported => ?_⟩
    · simp only [mem_ordered, List.mem_filterMap, List.mem_filter, Bool.and_eq_true, decide_eq_true_eq, and_assoc]
    · dsimp only
      rw [← sourceOf, hsingle, List.find?_cons_of_pos (by rw [hunsupported]; rfl)]

theorem blockByOffset_eq_some {starts : List Nat} {offset : Nat} (h : offset ∈ starts) :
    ∃ id, blockByOffset starts offset = some id ∧ starts[id]? = some offset := by
  refine ⟨starts.idxOf offset, if_pos h, ?_⟩
  rw [List.getElem?_eq_getElem (List.idxOf_lt_length_of_mem h), List.getElem_idxOf]

theorem isJumpOperand_of_jumpFields {opcode name : String} (h : name ∈ jumpFields opcode) :
    isJumpOperand name = true := by
  have hfields {fields : List String} (hall : fields.all isJumpOperand = true) (hmem : name ∈ fields) :
      isJumpOperand name = true := List.all_eq_true.mp hall name hmem
  rw [jumpFields] at h
  split at h
  next => exact hfields (by decide) h
  next =>
  split at h
  next => exact hfields (by decide) h
  next =>
  split at h
  next => exact hfields (by decide) h
  next =>
  split at h
  next => exact hfields (by decide) h
  next => cases h

namespace Cuts

variable {snapshot : BytecodeContractSnapshot F} {starts : List Nat}

/-- A block ends behind its start, and where the next one starts or the code ends. -/
theorem stop_spec (h : Cuts snapshot starts) {k start : Nat} (hk : starts[k]? = some start) :
    start < starts[k + 1]?.getD snapshot.byteLen ∧ starts[k + 1]?.getD snapshot.byteLen ≤ snapshot.byteLen ∧
      (starts[k + 1]?.getD snapshot.byteLen < snapshot.byteLen → starts[k + 1]?.getD snapshot.byteLen ∈ starts) := by
  have hinside : ∀ start ∈ starts, start < snapshot.byteLen := by
    intro start hmem
    obtain ⟨instruction, hinstruction, rfl⟩ := h.offsets start hmem
    obtain ⟨hlt, hle⟩ := h.contiguous.next_le instruction hinstruction
    exact Nat.lt_of_lt_of_le hlt hle
  cases hnext : starts[k + 1]? with
  | none =>
    exact ⟨hinside start (List.mem_of_getElem? hk), Nat.le_refl _, fun hlt => absurd hlt (Nat.lt_irrefl _)⟩
  | some next =>
    have hmem := List.mem_of_getElem? hnext
    refine ⟨?_, Nat.le_of_lt (hinside next hmem), fun _ => hmem⟩
    obtain ⟨hk', rfl⟩ := List.getElem?_eq_some_iff.mp hk
    obtain ⟨hnext', rfl⟩ := List.getElem?_eq_some_iff.mp hnext
    exact List.pairwise_iff_getElem.mp h.sorted k (k + 1) hk' hnext' (Nat.lt_succ_self k)

/-- The last instruction of a block ends where the block ends. -/
theorem next_of_last (h : Cuts snapshot starts) {k start : Nat} (hk : starts[k]? = some start)
    {last : BytecodeInstruction F}
    (hlast : (sourceOf snapshot start (starts[k + 1]?.getD snapshot.byteLen)).getLast? = some last) :
    last ∈ snapshot.instructions ∧ start ≤ last.offset ∧
      last.nextOffset = starts[k + 1]?.getD snapshot.byteLen := by
  obtain ⟨hlt, hle, hstop⟩ := h.stop_spec hk
  generalize starts[k + 1]?.getD snapshot.byteLen = stop at hlast hlt hle hstop ⊢
  have hsorted := h.contiguous.sorted
  have hpiece {instruction : BytecodeInstruction F} : instruction ∈ sourceOf snapshot start stop ↔
      instruction ∈ snapshot.instructions ∧ start ≤ instruction.offset ∧ instruction.offset < stop :=
    Pieces.mem_piece hsorted (Nat.le_of_lt hlt)
  obtain ⟨hmem, hstart, hbelow⟩ := hpiece.mp (List.mem_of_getLast? hlast)
  have hgreatest := Pieces.le_of_getLast? (Pieces.sorted_piece hsorted start stop) hlast
  obtain ⟨hown, hinside⟩ := h.contiguous.next_le last hmem
  refine ⟨hmem, hstart, Nat.le_antisymm ?_ ?_⟩
  · rcases Nat.lt_or_ge stop snapshot.byteLen with hshort | hlong
    · obtain ⟨other, hother, heq⟩ := h.offsets stop (hstop hshort)
      rw [← heq]
      exact h.contiguous.next_le_of_lt last hmem other hother (heq ▸ hbelow)
    · exact Nat.le_trans hinside hlong
  · rcases Nat.lt_or_ge last.nextOffset snapshot.byteLen with hshort | hlong
    · obtain ⟨other, hother, heq⟩ := h.contiguous.exists_next last hmem hshort
      by_contra hnot
      have hin := hgreatest other (hpiece.mpr ⟨hother, by omega, by omega⟩)
      omega
    · exact Nat.le_trans hle hlong

/-- The block at an offset among the starts. -/
theorem exists_block (h : Cuts snapshot starts) {blocks : List (BaselineBlock F)}
    (hblocks : lowerBlocks snapshot starts 0 starts = .ok blocks) {instruction : BytecodeInstruction F}
    (hmem : instruction ∈ snapshot.instructions) (hstart : instruction.offset ∈ starts) :
    ∃ id block, blockByOffset starts instruction.offset = some id ∧ blocks[id]? = some block ∧
      block.StartsWith instruction := by
  obtain ⟨id, hid, hget⟩ := blockByOffset_eq_some hstart
  obtain ⟨block, hblock, hlower⟩ := (lowerBlocks_ok hblocks).2 id _ hget
  obtain ⟨last, hparts⟩ := lowerBlock_ok hlower
  refine ⟨id, block, hid, hblock, ?_⟩
  rw [BaselineBlock.StartsWith, hparts.instructions, List.head?_map, sourceOf,
    Pieces.head?_piece h.contiguous.sorted hmem (h.stop_spec hget).1, Option.map_some]

/-- The bounds of a block are next to each other among the starts. -/
theorem stop_le (h : Cuts snapshot starts) {k start bound : Nat} (hk : starts[k]? = some start) (hbound : bound ∈ starts)
    (hlt : start < bound) : starts[k + 1]?.getD snapshot.byteLen ≤ bound := by
  obtain ⟨j, hj⟩ := List.mem_iff_getElem?.mp hbound
  obtain ⟨hk', rfl⟩ := List.getElem?_eq_some_iff.mp hk
  obtain ⟨hj', rfl⟩ := List.getElem?_eq_some_iff.mp hj
  have hsorted := List.pairwise_iff_getElem.mp h.sorted
  have hbefore : k < j := by
    by_contra hnot
    rcases Nat.lt_or_eq_of_le (Nat.le_of_not_lt hnot) with hback | rfl
    · exact Nat.lt_asymm hlt (hsorted j k hj' hk' hback)
    · exact Nat.lt_irrefl _ hlt
  have hnext : k + 1 < starts.length := Nat.lt_of_le_of_lt hbefore hj'
  rw [List.getElem?_eq_getElem hnext, Option.getD_some]
  rcases Nat.lt_or_eq_of_le hbefore with hless | rfl
  · exact Nat.le_of_lt (hsorted (k + 1) j hnext hj' hless)
  · exact Nat.le_refl _

/-- An unsupported instruction starts a block that ends behind it. -/
theorem source_of_unsupported (h : Cuts snapshot starts) {k : Nat} {instruction : BytecodeInstruction F}
    (hmem : instruction ∈ snapshot.instructions) (hunsupported : isSupported instruction.name = false)
    (hk : starts[k]? = some instruction.offset) :
    sourceOf snapshot instruction.offset (starts[k + 1]?.getD snapshot.byteLen) = [instruction] := by
  obtain ⟨hown, hinside⟩ := h.contiguous.next_le instruction hmem
  obtain ⟨hlt, hle, -⟩ := h.stop_spec hk
  have hstop : starts[k + 1]?.getD snapshot.byteLen ≤ instruction.nextOffset := by
    rcases Nat.lt_or_ge instruction.nextOffset snapshot.byteLen with hshort | hlong
    · refine h.stop_le hk (h.leaders instruction hmem _ (List.mem_append_right _ ?_)) hown
      rw [if_pos ⟨.inr (by rw [hunsupported]; decide), hshort⟩]
      exact List.mem_cons_self
    · exact Nat.le_trans hle hlong
  generalize starts[k + 1]?.getD snapshot.byteLen = stop at hlt hstop ⊢
  have hhead := Pieces.head?_piece h.contiguous.sorted hmem hlt
  obtain ⟨rest, hrest⟩ := List.head?_eq_some_iff.mp hhead
  have hnone : rest = [] := by
    refine List.eq_nil_iff_forall_not_mem.mpr fun other hother => ?_
    have hsorted := Pieces.sorted_piece h.contiguous.sorted instruction.offset stop
    rw [hrest] at hsorted
    have hbehind := (List.pairwise_cons.mp hsorted).1 other hother
    have hpiece := (Pieces.mem_piece h.contiguous.sorted (Nat.le_of_lt hlt)).mp
      (hrest ▸ List.mem_cons_of_mem instruction hother)
    have hnext := h.contiguous.next_le_of_lt instruction hmem other hpiece.1 hbehind
    omega
  rw [sourceOf, hrest, hnone]

/-- A target that an instruction names is one of its targets. -/
theorem mem_branchTargets (h : Cuts snapshot starts) {instruction : BytecodeInstruction F}
    (hmem : instruction ∈ snapshot.instructions) {operand : BytecodeOperand F} {target : Nat}
    (hoperand : operand ∈ instruction.operands) (hname : operand.name ∈ jumpFields instruction.name)
    (hvalue : operand.value = .unsigned target) : target ∈ branchTargets instruction := by
  have hjump := isJumpOperand_of_jumpFields hname
  have hnarrow : target < 2 ^ 32 := by
    have hall := List.any_eq_false.mp (h.narrow instruction hmem) operand hoperand
    rw [hvalue] at hall
    have hle := of_decide_eq_false (Bool.eq_false_iff.mpr hall)
    omega
  refine List.mem_filterMap.mpr ⟨operand, List.mem_filter.mpr ⟨hoperand, hjump⟩, ?_⟩
  rw [hvalue]
  exact congrArg some (Nat.mod_eq_of_lt hnarrow)

/-- A move from the last instruction of a block leads to the start of a successor. -/
theorem edge (h : Cuts snapshot starts) {k start : Nat} {last next : BytecodeInstruction F}
    (hk : starts[k]? = some start) (hlast : last ∈ snapshot.instructions) (hstart : start ≤ last.offset)
    (hstop : last.nextOffset = starts[k + 1]?.getD snapshot.byteLen) (hnext : next ∈ snapshot.instructions)
    (hmoves : Moves snapshot.handlers last next.offset) :
    next.offset ∈ starts ∧ (next.offset ∈ successors last (starts[k + 1]?.getD snapshot.byteLen) snapshot.byteLen ∨
      ∃ handler ∈ snapshot.handlers,
        (start < handler.stop ∧ starts[k + 1]?.getD snapshot.byteLen > handler.start) ∧
          handler.stop = next.offset) := by
  obtain ⟨-, -, hinner⟩ := h.stop_spec hk
  obtain ⟨hown, -⟩ := h.contiguous.next_le last hlast
  generalize starts[k + 1]?.getD snapshot.byteLen = stop at hstop hinner ⊢
  generalize htarget : next.offset = target at hmoves ⊢
  cases hmoves with
  | next hfalls =>
    obtain ⟨hbefore, hinside⟩ := h.contiguous.next_le next hnext
    have hshort : stop < snapshot.byteLen := by omega
    simp only [List.mem_cons, List.not_mem_nil, or_false, not_or] at hfalls
    rw [hstop]
    refine ⟨hinner hshort, .inl (mem_ordered.mpr (List.mem_append_right _ ?_))⟩
    rw [if_pos ⟨hfalls.1, hfalls.2.1, hfalls.2.2, hshort⟩]
    exact List.mem_cons_self
  | jump hoperand hname hvalue =>
    have hmem := h.mem_branchTargets hlast hoperand hname hvalue
    exact ⟨h.leaders last hlast _ (List.mem_append_left _ (List.mem_append_left _ hmem)),
      .inl (mem_ordered.mpr (List.mem_append_left _ hmem))⟩
  | @throw handler hhandler hcovers =>
    rw [BytecodeHandler.contains, Bool.and_eq_true, decide_eq_true_eq, decide_eq_true_eq] at hcovers
    exact ⟨(h.handlers handler hhandler).2, .inr ⟨handler, hhandler, ⟨by omega, by omega⟩, rfl⟩⟩

end Cuts

end Lower

/-- A loop with a call that a handler covers. -/
def loopSnapshot : BytecodeContractSnapshot Empty where
  version := 3
  byteLen := 20
  registerCount := 1
  instructions := [
    { offset := 0, nextOffset := 4, opcode := 1, name := "PushZero", operands := [⟨"dst", .unsigned 0⟩] },
    { offset := 4, nextOffset := 9, opcode := 2, name := "Call", operands := [⟨"argument_count", .unsigned 0⟩] },
    { offset := 9, nextOffset := 14, opcode := 3, name := "Jump", operands := [⟨"address", .unsigned 0⟩] },
    { offset := 14, nextOffset := 16, opcode := 4, name := "Exception", operands := [⟨"dst", .unsigned 0⟩] },
    { offset := 16, nextOffset := 20, opcode := 5, name := "Return", operands := [] }]
  handlers := [{ start := 0, stop := 14 }]

end Omoikane.Jit.Lowering
