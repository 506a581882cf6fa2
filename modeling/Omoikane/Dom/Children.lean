import Omoikane.Base.Ends
import Omoikane.Base.Links
import Omoikane.Base.Run

/-!
# Children

The children of a node are a doubly linked list inside a vector of slots.  A slot
that was freed is on a list of its own through the same `next` field, and is used
again before the vector grows.  The index `NONE`, which no vector has, is `none`.

An operation that panics returns `none`: an index out of range, or a slot without
a node.  The nodes hold their slot in `parent_slot`, which is a part of the state
that every parent writes.
-/

namespace Omoikane.Dom

open Base

/-- A handle of a node. -/
abbrev NodeHandle := Nat

/-- An entry of the vector. -/
structure Slot where
  node : Option NodeHandle
  previous : Option Nat
  next : Option Nat
deriving DecidableEq, Repr

/-- The vector with the ends of the list and of the list of free slots. -/
structure Storage where
  slots : List Slot
  first : Option Nat
  last : Option Nat
  free : Option Nat
  len : Nat
deriving DecidableEq, Repr

/-- Children of one parent; the storage is made by the first insertion. -/
structure Children where
  storage : Option Storage
deriving DecidableEq, Repr

/-- `self.slots[slot].next = next`. -/
def setNext (slots : List Slot) (slot : Nat) (next : Option Nat) : Option (List Slot) :=
  slots[slot]?.map fun entry => slots.set slot { entry with next }

/-- `self.slots[slot].previous = previous`. -/
def setPrevious (slots : List Slot) (slot : Nat) (previous : Option Nat) : Option (List Slot) :=
  slots[slot]?.map fun entry => slots.set slot { entry with previous }

namespace Storage

/-- `default`. -/
def default : Storage := { slots := [], first := none, last := none, free := none, len := 0 }

variable (storage : Storage)

/-- The node of a slot, if there is one. -/
def node (slot : Nat) : Option NodeHandle := storage.slots[slot]?.bind Slot.node

/-- The next slot of `previous` is set, or the first slot. -/
def linkPrevious (previous next : Option Nat) : Option Storage :=
  match previous with
  | none => some { storage with first := next }
  | some previous =>
    (setNext storage.slots previous next).map fun slots => { storage with slots }

/-- The previous slot of `next` is set, or the last slot. -/
def linkNext (next previous : Option Nat) : Option Storage :=
  match next with
  | none => some { storage with last := previous }
  | some next =>
    (setPrevious storage.slots next previous).map fun slots => { storage with slots }

/-- The slot for a new entry: a free one, or one at the end of the vector. -/
def allocate : Option (Nat × Storage) :=
  match storage.free with
  | none => some (storage.slots.length, storage)
  | some index => storage.slots[index]?.map fun entry => (index, { storage with free := entry.next })

/-- The entry is pushed, or replaces a free one. -/
def place (index : Nat) (entry : Slot) : Storage :=
  { storage with
    slots := if index = storage.slots.length then storage.slots ++ [entry]
      else storage.slots.set index entry }

/-- `insert_between`; also returns the slot, which becomes the node's `parent_slot`. -/
def insertBetween (node : NodeHandle) (previous next : Option Nat) : Option (Nat × Storage) := do
  let (index, storage) ← storage.allocate
  let storage := storage.place index { node := some node, previous, next }
  let storage ← storage.linkPrevious previous (some index)
  let storage ← storage.linkNext next (some index)
  return (index, { storage with len := storage.len + 1 })

/-- The part of `remove` after the entry was found. -/
def unlink (slot : Nat) (entry : Slot) : Option Storage := do
  let storage := { storage with
    slots := storage.slots.set slot { entry with node := none, next := storage.free }
    free := some slot }
  let storage ← storage.linkPrevious entry.previous entry.next
  let storage ← storage.linkNext entry.next entry.previous
  return { storage with len := storage.len - 1 }

end Storage

namespace Children

/-- `default`. -/
def default : Children := { storage := none }

variable (children : Children)

/-- `len`. -/
def len : Nat := (children.storage.map Storage.len).getD 0

/-- `get_slot`. -/
def getSlot (slot : Nat) : Option NodeHandle := children.storage.bind fun storage => storage.node slot

/-- `first`. -/
def first : Option NodeHandle := (children.storage.bind Storage.first).bind children.getSlot

/-- `last`. -/
def last : Option NodeHandle := (children.storage.bind Storage.last).bind children.getSlot

/-- `adjacent`. -/
def adjacent (slot : Nat) (previous : Bool) : Option NodeHandle := do
  let storage ← children.storage
  let entry ← storage.slots[slot]?
  let _ ← entry.node
  (if previous then entry.previous else entry.next).bind children.getSlot

/-- `push`. -/
def push (node : NodeHandle) : Option (Nat × Children) := do
  let storage := children.storage.getD .default
  let (index, storage) ← storage.insertBetween node storage.last none
  return (index, { storage := some storage })

/-- `insert_before`. -/
def insertBefore (node : NodeHandle) (reference : Nat) : Option (Nat × Children) := do
  let storage ← children.storage
  let entry ← storage.slots[reference]?
  let _ ← entry.node
  let (index, storage) ← storage.insertBetween node entry.previous (some reference)
  return (index, { storage := some storage })

/-- `remove`. -/
def remove (slot : Nat) : Option (NodeHandle × Children) := do
  let storage ← children.storage
  let entry ← storage.slots[slot]?
  let node ← entry.node
  let storage ← storage.unlink slot entry
  return (node, { storage := some storage })

end Children

/-! ## Iteration -/

/-- A view that is taken from both ends. -/
structure Iter where
  slots : List Slot
  first : Option Nat
  last : Option Nat
  remaining : Nat

/-- `iter`. -/
def Children.iter (children : Children) : Iter :=
  match children.storage with
  | none => { slots := [], first := none, last := none, remaining := 0 }
  | some storage =>
    { slots := storage.slots, first := storage.first, last := storage.last,
      remaining := storage.len }

namespace Iter

variable (iter : Iter)

/-- `next`. -/
def next : Option (Option NodeHandle × Iter) :=
  if iter.remaining = 0 then some (none, iter)
  else do
    let first ← iter.first
    let slot ← iter.slots[first]?
    let node ← slot.node
    return (some node, { iter with first := slot.next, remaining := iter.remaining - 1 })

/-- `next_back`. -/
def nextBack : Option (Option NodeHandle × Iter) :=
  if iter.remaining = 0 then some (none, iter)
  else do
    let last ← iter.last
    let slot ← iter.slots[last]?
    let node ← slot.node
    return (some node, { iter with last := slot.previous, remaining := iter.remaining - 1 })

/-- A call of `next` or of `next_back`. -/
def pull : End → Option (Option NodeHandle × Iter)
  | .front => iter.next
  | .back => iter.nextBack

/-- What some calls return, and the iterator after them. -/
def pulls : List End → Iter → Option (List (Option NodeHandle) × Iter)
  | [], iter => some ([], iter)
  | e :: ends, iter => do
    let (node, iter) ← iter.pull e
    let (nodes, iter) ← pulls ends iter
    return (node :: nodes, iter)

end Iter

/-! ## Operations -/

/-- A parent's children, and the `parent_slot` of every node. -/
structure Family where
  children : Children
  parentSlot : NodeHandle → Nat

/-- What happens to a family. -/
inductive Operation where
  | push (node : NodeHandle)
  | insertBefore (node : NodeHandle) (reference : Nat)
  | remove (slot : Nat)
  /-- Another parent, or the end of a removal, writes the `parent_slot` of a node. -/
  | elsewhere (node : NodeHandle) (slot : Nat)
deriving DecidableEq, Repr

namespace Family

/-- No children yet. -/
def new (parentSlot : NodeHandle → Nat) : Family := { children := .default, parentSlot }

variable (family : Family)

/-- A node was inserted at a slot. -/
def inserted (node : NodeHandle) (inserted : Nat × Children) : Family where
  children := inserted.2
  parentSlot := Function.update family.parentSlot node inserted.1

/-- An operation on a family. -/
def apply : Operation → Option Family
  | .push node => (family.children.push node).map (family.inserted node)
  | .insertBefore node reference =>
    (family.children.insertBefore node reference).map (family.inserted node)
  | .remove slot => (family.children.remove slot).map fun (_, children) => { family with children }
  | .elsewhere node slot =>
    some { family with parentSlot := Function.update family.parentSlot node slot }

/-- The family after an operation; one that panics changes nothing. -/
def step (operation : Operation) : Family := (family.apply operation).getD family

end Family

end Omoikane.Dom
