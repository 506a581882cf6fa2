import Omoikane.Css.Selector

/-!
# Trees of nodes

The nodes of a tree with what selectors read of them.  A node knows its parent and its children; the
two agree, and a child is one level below its parent, so that walks up and down end.
-/

namespace Omoikane.Css

open Base (Text)

/-- An attribute of an element. -/
structure AttributeRecord where
  qualifiedName : Text
  namespaceUri : Option Text
  localName : Text
  value : Text
deriving DecidableEq, Repr

/-- An element. -/
structure Element where
  tagName : Text
  localName : Text
  namespaceUri : Option Text
  /-- The element was made with the semantics of HTML. -/
  html : Bool
  attributeRecords : List AttributeRecord
  customStates : List (List UInt16)
  customElementDefined : Option Bool
  userActionState : UserAction → Bool
  mediaSelectorState : MediaState → Bool
  popoverOpen : Bool
  modalDialog : Bool
  fullscreen : Bool
  pickerOpen : Bool
  checked : Bool
  autofilled : Bool
  userValidity : Bool
  cssValidity : Option Bool
  formAssociatedCustom : Bool

/-- What a node is. -/
inductive NodeData where
  | document (activeViewTransition : Bool)
  | documentFragment
  | element (element : Element)
  | text (data : Text)
  | comment
  | processingInstruction
  | documentType

def NodeData.element? : NodeData → Option Element
  | .element data => some data
  | _ => none

/-- The nodes of a tree, of type `ι`. -/
structure Tree (ι : Type) where
  data : ι → NodeData
  parentNode : ι → Option ι
  childNodes : ι → List ι
  depth : ι → Nat
  height : Nat
  mem_childNodes : ∀ parent child, child ∈ childNodes parent ↔ parentNode child = some parent
  nodup_childNodes : ∀ parent, (childNodes parent).Nodup
  depth_parent : ∀ node parent, parentNode node = some parent → depth node = depth parent + 1
  depth_lt : ∀ node, depth node < height

namespace Tree

variable {ι : Type} (tree : Tree ι)

/-! ## Elements -/

/-- The element that a node is. -/
def element? (node : ι) : Option Element := (tree.data node).element?

/-- `node_type() == NodeType::Element`. -/
def isElement (node : ι) : Bool := (tree.element? node).isSome

def isDocument (node : ι) : Bool :=
  match tree.data node with
  | .document _ => true
  | _ => false

/-- `with_attribute`: the value of an attribute; the name may be in capitals in HTML. -/
def withAttribute (node : ι) (name : Text) : Option Text := do
  let element ← tree.element? node
  let record ← (element.attributeRecords.find? (·.qualifiedName == name)).orElse fun _ =>
    if element.html then
      element.attributeRecords.find? (·.qualifiedName == Text.toAsciiLowercase name)
    else none
  return record.value

/-- `attribute_value_ns(None, local_name)`. -/
def attributeValue (node : ι) (localName : Text) : Option Text := do
  let element ← tree.element? node
  let record ← element.attributeRecords.find? fun record =>
    record.namespaceUri == none && record.localName == localName
  return record.value

def hasAttribute (node : ι) (name : Text) : Bool := (tree.withAttribute node name).isSome

def tagName (node : ι) : Option Text := (tree.element? node).map (·.tagName)

def localName (node : ι) : Option Text :=
  (tree.element? node).map fun element =>
    if element.localName = [] then element.tagName else element.localName

def isHtmlElement (node : ι) : Bool := (tree.element? node).elim false (·.html)

def hasTagName (node : ι) (expected : Text) : Bool := tree.tagName node == some expected

/-- `html_local_name`: the local name of an element in the namespace of HTML. -/
def htmlLocalName (node : ι) : Option Text := do
  let element ← tree.element? node
  let html := match element.namespaceUri with
    | some uri => uri == "http://www.w3.org/1999/xhtml".toList
    | none => element.html
  if html then tree.localName node else none

/-! ## Walks -/

/-- The elements among the children of a node. -/
def childElements (parent : ι) : List ι := (tree.childNodes parent).filter tree.isElement

/-- `collect_element_descendants`, down to a number of levels. -/
def elementDescendants : Nat → ι → List ι
  | 0, _ => []
  | levels + 1, node => (tree.childNodes node).flatMap fun child =>
    (if tree.isElement child then [child] else []) ++ elementDescendants levels child

/-- A node is the parent of another. -/
def ParentOf (parent child : ι) : Prop := tree.parentNode child = some parent

/-- A node is an ancestor of another. -/
def AncestorOf : ι → ι → Prop := Relation.TransGen tree.ParentOf

/-- A node comes before another among the children of a parent. -/
def Precedes (node next : ι) : Prop :=
  ∃ parent before between after,
    tree.childNodes parent = before ++ node :: (between ++ next :: after)

/-- A node comes before another, with no element between. -/
def Adjacent (node next : ι) : Prop :=
  ∃ parent before between after,
    tree.childNodes parent = before ++ node :: (between ++ next :: after) ∧
      ∀ other ∈ between, tree.isElement other = false

variable {tree} {node next parent child : ι}

theorem AncestorOf.depth_lt (h : tree.AncestorOf node child) : tree.depth node < tree.depth child := by
  induction h with
  | single hparent =>
    rw [tree.depth_parent _ _ hparent]
    exact Nat.lt_succ_self _
  | tail _ hparent ih =>
    rw [tree.depth_parent _ _ hparent]
    exact Nat.lt_succ_of_lt ih

theorem mem_elementDescendants_of_ancestor {levels : Nat}
    (h : child ∈ tree.elementDescendants levels node) :
    tree.isElement child = true ∧ tree.AncestorOf node child := by
  induction levels generalizing node with
  | zero => cases h
  | succ levels ih =>
    obtain ⟨below, hbelow, hchild⟩ := List.mem_flatMap.mp h
    have hparent : tree.ParentOf node below := (tree.mem_childNodes _ _).mp hbelow
    rcases List.mem_append.mp hchild with hself | hdeep
    · split at hself
      next helement =>
        rw [List.mem_singleton.mp hself]
        exact ⟨helement, .single hparent⟩
      next => cases hself
    · obtain ⟨helement, hancestor⟩ := ih hdeep
      exact ⟨helement, .head hparent hancestor⟩

theorem mem_elementDescendants_of_depth {levels : Nat} (helement : tree.isElement child = true)
    (h : tree.AncestorOf node child) (hlevels : tree.depth child ≤ tree.depth node + levels) :
    child ∈ tree.elementDescendants levels node := by
  induction levels generalizing node with
  | zero => exact absurd h.depth_lt (Nat.not_lt.mpr hlevels)
  | succ levels ih =>
    rcases Relation.TransGen.head'_iff.mp h with ⟨below, hparent, hrest⟩
    refine List.mem_flatMap.mpr ⟨below, (tree.mem_childNodes _ _).mpr hparent, ?_⟩
    rcases Relation.reflTransGen_iff_eq_or_transGen.mp hrest with rfl | hrest
    · simp [helement]
    · refine List.mem_append_right _ (ih hrest ?_)
      rw [tree.depth_parent _ _ hparent]
      omega

/-- The descendants down to the height of the tree are all of them. -/
theorem mem_elementDescendants : child ∈ tree.elementDescendants tree.height node ↔
    tree.isElement child = true ∧ tree.AncestorOf node child := by
  refine ⟨mem_elementDescendants_of_ancestor, fun h => mem_elementDescendants_of_depth h.1 h.2 ?_⟩
  have := tree.depth_lt child
  omega

theorem Adjacent.precedes (h : tree.Adjacent node next) : tree.Precedes node next := by
  obtain ⟨parent, before, between, after, heq, -⟩ := h
  exact ⟨parent, before, between, after, heq⟩

theorem mem_childElements : child ∈ tree.childElements parent ↔
    tree.parentNode child = some parent ∧ tree.isElement child = true := by
  rw [childElements, List.mem_filter, tree.mem_childNodes]

end Tree

end Omoikane.Css
