import Omoikane.Base.Ascent
import Omoikane.Base.Text
import Omoikane.Dom.ChildOrder
import Omoikane.Dom.Children

/-!
# Nodes that share their links

A node has a weak link to its parent, its children in slots, and the slot it has in its parent;
`append_child`, `insert_before` and `remove_child` write those of several nodes.  A handle keeps
its node alive, so that there is a node for every handle.

The revisions are 64-bit counters that panic when they are exhausted.  An operation that panics
returns `none`, and so does one whose walk to the ancestors takes more than `limit` steps; the walk
of the code has no bound.  What `remove_child` resets beside the links (the top layer, the scroll
offsets, the epochs of the caches) is left out: no operation reads it.
-/

namespace Omoikane.Dom

open Base

inductive DomError where
  | hierarchyRequest
  | referenceChildNotFound
  | childNotFound
deriving DecidableEq, Repr

/-! ## Lists of children -/

/-- A list of children with one more in front of a reference child. -/
def placeBefore (new reference : NodeHandle) : List NodeHandle → List NodeHandle
  | [] => []
  | child :: children =>
    if child = reference then new :: child :: children
    else child :: placeBefore new reference children

namespace Nodes

theorem placeBefore_append {new reference : NodeHandle} {pre post : List NodeHandle}
    (h : reference ∉ pre) :
    placeBefore new reference (pre ++ reference :: post) = pre ++ new :: reference :: post := by
  induction pre with
  | nil => exact if_pos rfl
  | cons child pre ih =>
    obtain ⟨hchild, hpre⟩ := List.ne_and_not_mem_of_not_mem_cons h
    rw [List.cons_append, placeBefore, if_neg (Ne.symm hchild), ih hpre, List.cons_append]

theorem erase_append_cons {child : NodeHandle} {pre post : List NodeHandle} (h : child ∉ pre) :
    (pre ++ child :: post).erase child = pre ++ post := by
  rw [List.erase_append_right _ h, List.erase_cons_head]

end Nodes

/-! ## Links -/

/-- What a node holds of its place among the others. -/
structure LinkedNode where
  parent : Option NodeHandle
  parentRevision : Nat
  mutationRevision : Nat
  parentSlot : Nat
  children : Children
deriving DecidableEq, Repr

/-- Every node, by its handle. -/
abbrev LinkedNodes := NodeHandle → LinkedNode

/-- `checked_add(1)` on a `u64`. -/
def nextRevision (revision : Nat) : Option Nat :=
  if revision + 1 < 2 ^ 64 then some (revision + 1) else none

/-- `insert_before` with a slot, `push` without one. -/
def Children.insert (children : Children) (node : NodeHandle) :
    Option Nat → Option (Nat × Children)
  | some reference => children.insertBefore node reference
  | none => children.push node

namespace LinkedNodes

variable (nodes : LinkedNodes)

/-- `parent_node` of every node. -/
def parentNode (node : NodeHandle) : Option NodeHandle := (nodes node).parent

/-- `child_nodes`. -/
def childNodes (node : NodeHandle) : Option (List NodeHandle) :=
  (Iter.pulls (List.replicate (nodes node).children.len .front) (nodes node).children.iter).map
    fun (pulled, _) => pulled.reduceOption

/-- `first_child`. -/
def firstChild (node : NodeHandle) : Option NodeHandle := (nodes node).children.first

/-- `last_child`. -/
def lastChild (node : NodeHandle) : Option NodeHandle := (nodes node).children.last

/-- `child_slot`: the slot that a child holds, if it is a slot of this node with that child. -/
def childSlot (node child : NodeHandle) : Option Nat :=
  let slot := (nodes child).parentSlot
  if (nodes node).children.getSlot slot = some child then some slot else none

/-- `adjacent_sibling`. -/
def adjacentSibling (node : NodeHandle) (previous : Bool) : Option NodeHandle := do
  let parent ← nodes.parentNode node
  let slot ← nodes.childSlot parent node
  (nodes parent).children.adjacent slot previous

/-- `next_sibling`. -/
def nextSibling (node : NodeHandle) : Option NodeHandle := nodes.adjacentSibling node false

/-- `previous_sibling`. -/
def previousSibling (node : NodeHandle) : Option NodeHandle := nodes.adjacentSibling node true

/-- `set_parent_link`. -/
def setParentLink (node : NodeHandle) (parent : Option NodeHandle) : Option LinkedNodes :=
  (nextRevision (nodes node).parentRevision).map fun parentRevision =>
    Function.update nodes node { nodes node with
      parent, parentRevision
      parentSlot := if parent.isNone then 0 else (nodes node).parentSlot }

/-- `bump_mutation_revision`. -/
def bumpMutationRevision (node : NodeHandle) : Option LinkedNodes :=
  (nextRevision (nodes node).mutationRevision).map fun mutationRevision =>
    Function.update nodes node { nodes node with mutationRevision }

/-- The children of a node are written. -/
def setChildren (node : NodeHandle) (children : Children) : LinkedNodes :=
  Function.update nodes node { nodes node with children }

/-- An insertion into the children of a node: the child is told its slot. -/
def inserted (node child : NodeHandle) (inserted : Nat × Children) : LinkedNodes :=
  let nodes : LinkedNodes := Function.update nodes child { nodes child with
    parentSlot := inserted.1 }
  nodes.setChildren node inserted.2

/-- `is_inclusive_ancestor_of`. -/
def isInclusiveAncestorOf (limit : Nat) (node other : NodeHandle) : Option Bool :=
  climb nodes.parentNode node limit (some other)

/-- `remove_child`. -/
def removeChild (node child : NodeHandle) : Option (LinkedNodes × Except DomError NodeHandle) :=
  match nodes.childSlot node child with
  | none => some (nodes, .error .childNotFound)
  | some slot => do
    let (removed, children) ← (nodes node).children.remove slot
    let nodes ← (nodes.setChildren node children).bumpMutationRevision node
    let nodes ← nodes.setParentLink removed none
    return (nodes, .ok removed)

/-- `detach_from_parent`. -/
def detachFromParent (child : NodeHandle) : Option LinkedNodes :=
  match nodes.parentNode child with
  | none => some nodes
  | some parent => (nodes.removeChild parent child).map Prod.fst

/-- `append_child`. -/
def appendChild (limit : Nat) (node child : NodeHandle) : Option LinkedNodes := do
  if ← nodes.isInclusiveAncestorOf limit child node then
    return nodes
  let nodes ← nodes.detachFromParent child
  let nodes ← nodes.setParentLink child (some node)
  let pushed ← (nodes node).children.push child
  (nodes.inserted node child pushed).bumpMutationRevision node

/-- The reference of `insert_before` once the new child is detached: a child that is put before
itself goes before the one after it. -/
def referenceAfterMove (node newChild referenceChild : NodeHandle) (slot : Nat) :
    Option NodeHandle :=
  if newChild = referenceChild then (nodes node).children.adjacent slot false
  else some referenceChild

/-- The part of `insert_before` that links the new child. -/
def linkBefore (node newChild : NodeHandle) (slot : Option Nat) : Option LinkedNodes := do
  let nodes ← nodes.setParentLink newChild (some node)
  let placed ← (nodes node).children.insert newChild slot
  (nodes.inserted node newChild placed).bumpMutationRevision node

/-- `insert_before`. -/
def insertBefore (limit : Nat) (node newChild referenceChild : NodeHandle) :
    Option (LinkedNodes × Except DomError Unit) := do
  if ← nodes.isInclusiveAncestorOf limit newChild node then
    return (nodes, .error .hierarchyRequest)
  match nodes.childSlot node referenceChild with
  | none => return (nodes, .error .referenceChildNotFound)
  | some slot =>
    let reference := nodes.referenceAfterMove node newChild referenceChild slot
    let nodes ← nodes.detachFromParent newChild
    match reference with
    | none => return (← nodes.linkBefore node newChild none, .ok ())
    | some reference =>
      match nodes.childSlot node reference with
      | none => return (nodes, .error .referenceChildNotFound)
      | some slot => return (← nodes.linkBefore node newChild (some slot), .ok ())

end LinkedNodes

/-- A call. -/
inductive TreeCall where
  | appendChild (node child : NodeHandle)
  | insertBefore (node newChild referenceChild : NodeHandle)
  | removeChild (node child : NodeHandle)
deriving DecidableEq, Repr

/-- What a call does; one of `append_child` returns nothing. -/
def TreeCall.perform (limit : Nat) (nodes : LinkedNodes) :
    TreeCall → Option (LinkedNodes × Except DomError Unit)
  | .appendChild node child => (nodes.appendChild limit node child).map (·, .ok ())
  | .insertBefore node newChild referenceChild =>
    nodes.insertBefore limit node newChild referenceChild
  | .removeChild node child =>
    (nodes.removeChild node child).map fun (nodes, result) => (nodes, result.map fun _ => ())

/-- A call ends, whatever the number of steps its walk takes. -/
def TreeCall.Ends (nodes : LinkedNodes) (call : TreeCall) (nodes' : LinkedNodes)
    (result : Except DomError Unit) : Prop :=
  ∃ limit, call.perform limit nodes = some (nodes', result)

end Omoikane.Dom
