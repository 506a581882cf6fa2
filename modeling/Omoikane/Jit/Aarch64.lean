import Omoikane.Base.Bytes

/-!
# The A64 assembler

Instructions are words of four bytes, and positions count bytes.  A branch refers to a label, which may be
bound later, and a load to a literal, which stands in a pool behind the code; both are noted as fixups and
written into their instructions by `finish`.
-/

namespace Omoikane.Jit.Aarch64

open Base

/-- What the assembler refuses. -/
inductive AssemblyError where
  | invalidAssembly (message : String)
  | invalidCodeSize
deriving DecidableEq, Repr

/-- A label is its number in the table of the assembler. -/
structure Label where
  index : Nat
deriving DecidableEq, Repr

inductive Relocation where
  | branch
  | conditional
  | literal
deriving DecidableEq, Repr

namespace Relocation

/-- The width of the field of a displacement. -/
def bits : Relocation → Nat
  | .branch => 26
  | .conditional | .literal => 19

/-- The lowest bit of the field of a displacement. -/
def shift : Relocation → Nat
  | .branch => 0
  | .conditional | .literal => 5

theorem bits_pos (kind : Relocation) : 0 < kind.bits := by cases kind <;> decide

theorem fits (kind : Relocation) : kind.shift + kind.bits ≤ 32 := by cases kind <;> decide

end Relocation

/-- An instruction that waits for the position of a label. -/
structure Fixup where
  instruction : Nat
  target : Label
  kind : Relocation
deriving DecidableEq, Repr

structure Assembler where
  words : List (BitVec 32)
  labels : List (Option Nat)
  fixups : List Fixup
  literals : List (BitVec 64 × Label)
deriving DecidableEq, Repr

/-- `x18` is reserved by a platform, and 31 is no general register. -/
def checkRegister (register : UInt8) : Except AssemblyError Unit :=
  if register > 30 ∨ register = 18 then .error (.invalidAssembly "invalid or reserved A64 register")
  else .ok ()

/-- The field of a displacement of so many bytes: the number of words, in two's complement. -/
def displacement (bytes : Int) (bits : Nat) : Except AssemblyError (BitVec 32) :=
  if bytes.tmod 4 ≠ 0 then .error (.invalidAssembly "unaligned A64 branch or literal")
  else
    let words := bytes.tdiv 4
    let bound : Int := (2 ^ (bits - 1) : Nat)
    if ¬ (-bound ≤ words ∧ words < bound) then .error (.invalidAssembly "A64 branch or literal out of range")
    else
      let field := BitVec.ofInt 64 words &&& BitFields.ones 64 bits
      if field.toNat < 2 ^ 32 then .ok (field.setWidth 32) else .error .invalidCodeSize

/-- The displacement in a field of a word. -/
def signedImmediate (word : BitVec 32) (bits shift : Nat) : Int :=
  BitFields.signedLow ((BitFields.field word shift bits).setWidth 64) bits

namespace Assembler

def default : Assembler where
  words := []
  labels := []
  fixups := []
  literals := []

/-- Where the next instruction will stand. -/
def position (assembler : Assembler) : Nat := assembler.words.length * 4

def label (assembler : Assembler) : Label × Assembler :=
  (⟨assembler.labels.length⟩, { assembler with labels := assembler.labels ++ [none] })

def bind (assembler : Assembler) (label : Label) : Except AssemblyError Assembler :=
  match assembler.labels[label.index]? with
  | none => .error (.invalidAssembly "unknown A64 label")
  | some (some _) => .error (.invalidAssembly "A64 label bound twice")
  | some none => .ok { assembler with labels := assembler.labels.set label.index (some assembler.position) }

def instruction (assembler : Assembler) (word : BitVec 32) : Assembler :=
  { assembler with words := assembler.words ++ [word] }

def relocate (assembler : Assembler) (instruction : BitVec 32) (target : Label) (kind : Relocation) : Assembler :=
  let fixup : Fixup := { instruction := assembler.words.length, target, kind }
  { assembler with fixups := assembler.fixups ++ [fixup] }.instruction instruction

def branch (assembler : Assembler) (target : Label) : Assembler :=
  assembler.relocate 0x14000000#32 target .branch

/-- `none` if the assertion about the condition fails. -/
def branchCondition (assembler : Assembler) (target : Label) (condition : UInt8) : Option Assembler :=
  if condition < 14 then
    some (assembler.relocate (0x54000000#32 ||| BitVec.ofNat 32 condition.toNat) target .conditional)
  else none

/-- The label of a literal, which is kept once. -/
def literalLabel (assembler : Assembler) (value : BitVec 64) : Label × Assembler :=
  match assembler.literals.find? fun literal => literal.1 == value with
  | some (_, target) => (target, assembler)
  | none =>
    let (target, assembler) := assembler.label
    (target, { assembler with literals := assembler.literals ++ [(value, target)] })

def literalU64 (assembler : Assembler) (register : UInt8) (value : BitVec 64) : Except AssemblyError Assembler := do
  checkRegister register
  let (target, assembler) := assembler.literalLabel value
  return assembler.relocate (0x58000000#32 ||| BitVec.ofNat 32 register.toNat) target .literal

/-- A `nop`, if the pool would not stand at a multiple of eight. -/
def alignPool (assembler : Assembler) : Assembler :=
  if assembler.literals ≠ [] ∧ assembler.position % 8 ≠ 0 then assembler.instruction 0xd503201f#32 else assembler

def placeLiterals : List (BitVec 64 × Label) → Assembler → Except AssemblyError Assembler
  | [], assembler => .ok assembler
  | (value, label) :: literals, assembler => do
    let assembler ← assembler.bind label
    let bytes := Bytes.ofNatLe 8 value.toNat
    placeLiterals literals
      ((assembler.instruction (BitVec.ofNat 32 (Bytes.toNatLe (bytes.take 4)))).instruction
        (BitVec.ofNat 32 (Bytes.toNatLe (bytes.drop 4))))

/-- The field that belongs to a fixup. -/
def fixupField (labels : List (Option Nat)) (fixup : Fixup) : Except AssemblyError (BitVec 32) :=
  match labels[fixup.target.index]?.join with
  | none => .error (.invalidAssembly "unbound A64 label")
  | some target =>
    if 2 ^ 63 ≤ target ∨ 2 ^ 63 ≤ fixup.instruction * 4 then .error .invalidCodeSize
    else displacement ((target : Int) - (fixup.instruction * 4 : Nat)) fixup.kind.bits

def patch (labels : List (Option Nat)) :
    List Fixup → List (BitVec 32) → Except AssemblyError (List (BitVec 32))
  | [], words => .ok words
  | fixup :: fixups, words => do
    let field ← fixupField labels fixup
    patch labels fixups (words.modify fixup.instruction (· ||| field <<< fixup.kind.shift))

/-- The code: the literals behind the instructions, and the displacements in them. -/
def finish (assembler : Assembler) : Except AssemblyError Bytes := do
  let assembler := assembler.alignPool
  let assembler ← placeLiterals assembler.literals { assembler with literals := [] }
  let words ← patch assembler.labels assembler.fixups assembler.words
  return words.flatMap fun word => Bytes.ofNatLe 4 word.toNat

end Assembler

end Omoikane.Jit.Aarch64
