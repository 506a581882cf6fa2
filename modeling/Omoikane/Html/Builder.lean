import Omoikane.Html.Input
import Omoikane.Html.Lexer

/-!
# The tree builder's state

The part of the document object model that parsing touches, and the state of the tree builder.  Nodes are
named by their identity, which is never used again, and `Nodes` maps identities to nodes.  A node knows
its parent, and the parent lists its children; that the two agree is part of the structure.
-/

namespace Omoikane.Html

open Base

/-- The identity of a node. -/
abbrev NodeId := Nat

/-! ## Payloads -/

structure AttributeRecord where
  qualifiedName : Text
  namespaceUri : Option Text
  localName : Text
  data : DomString
deriving DecidableEq, Repr

structure Element where
  tagName : Text
  namespaceUri : Option Text := none
  localName : Text
  html : Bool := false
  attributeRecords : List AttributeRecord := []
  templateContent : Option NodeId := none
  shadowRoot : Option NodeId := none
deriving DecidableEq, Repr

inductive ShadowRootMode
  | open
  | closed
deriving DecidableEq, Repr

structure ShadowRootSettings where
  serializable : Bool := false
  delegatesFocus : Bool := false
  clonable : Bool := false
  keepCustomElementRegistryNull : Bool := false
  declarative : Bool := false
  manualSlotAssignment : Bool := false
deriving DecidableEq, Repr

inductive NodeData
  | document
  | documentFragment
  | shadowRoot (host : NodeId) (mode : ShadowRootMode) (settings : ShadowRootSettings)
  | element (element : Element)
  | text (units : List UInt16)
  | comment (units : List UInt16)
  | processingInstruction (target : Text) (units : List UInt16)
  | documentType (name publicId systemId : Text)
deriving DecidableEq, Repr

namespace Element

/-- Replaces the record that `found` selects, or appends a new one. -/
def putAttribute (e : Element) (found : AttributeRecord → Bool) (record : AttributeRecord) :
    Element :=
  if e.attributeRecords.any found then
    { e with
      attributeRecords := e.attributeRecords.map fun old =>
        if found old then { old with data := record.data } else old }
  else { e with attributeRecords := e.attributeRecords ++ [record] }

/-- `set_attribute_owned`. -/
def setAttributeOwned (e : Element) (name : Text) (data : DomString) : Element :=
  let name := if e.html then Text.toAsciiLowercase name else name
  e.putAttribute (fun old => old.qualifiedName == name) ⟨name, none, name, data⟩

end Element

structure Node where
  data : NodeData
  parent : Option NodeId := none
  children : List NodeId := []

/-! ## The nodes -/

/-- The nodes that exist are those below `count`. -/
structure Nodes where
  count : Nat
  node : NodeId → Node
  /-- A node is among the children of its parent. -/
  linked : ∀ n p, (node n).parent = some p → n ∈ (node p).children
  bounded : ∀ n p, n ∈ (node p).children → n < count
  /-- What is no node yet has neither relations nor data. -/
  fresh : ∀ n, count ≤ n → node n = { data := .documentFragment }

namespace Nodes

/-- `parent_node`. -/
def parentNode (nodes : Nodes) (n : NodeId) : Option NodeId := (nodes.node n).parent

theorem lt_of_parent {nodes : Nodes} {n p : NodeId} (h : nodes.parentNode n = some p) :
    n < nodes.count ∧ p < nodes.count := by
  have hmem := nodes.linked n p h
  refine ⟨nodes.bounded n p hmem, Nat.lt_of_not_le fun hle => ?_⟩
  rw [nodes.fresh p hle] at hmem
  cases hmem

/-! ## Changes -/

/-- A new node without relations, which has the identity `nodes.count`. -/
def create (nodes : Nodes) (data : NodeData) : Nodes where
  count := nodes.count + 1
  node n := if n = nodes.count then { data } else nodes.node n
  linked := by
    intro m p h
    split at h
    next => cases h
    next =>
      have hp := (lt_of_parent h).2
      rw [if_neg (Nat.ne_of_lt hp)]
      exact nodes.linked m p h
  bounded := by
    intro m p h
    split at h
    next => cases h
    next => exact Nat.lt_succ_of_lt (nodes.bounded m p h)
  fresh := by
    intro m hle
    rw [if_neg (Nat.ne_of_gt hle)]
    exact nodes.fresh m (Nat.le_of_succ_le hle)

end Nodes

/-! ## The state -/

def htmlNamespace : Text := "http://www.w3.org/1999/xhtml".toList

/-- The current tree-construction insertion mode. -/
inductive InsertionMode
  | initial
  | beforeHtml
  | beforeHead
  | inHead
  | inBody
  | inTable
  | inColumnGroup
  | inTableBody
  | inRow
  | inCell
  | afterBody
  | afterAfterBody
deriving DecidableEq, Repr

/-- The tree builder.  The current node is the first of the open elements. -/
structure Builder where
  nodes : Nodes
  characterSurrogate : Option UInt16 := none
  leafDataUtf16 : Option (List UInt16) := none
  document : NodeId
  openElements : List NodeId := []
  activeFormattingElements : List NodeId := []
  formElement : Option NodeId := none
  templateInsertionModes : List InsertionMode := []
  mode : InsertionMode := .initial
  writeBoundary : Option (NodeId × Option NodeId) := none
  fragment : Bool := false
  allowDeclarativeShadowRoots : Bool := true

namespace Builder

/-- `new_html_element_with_attributes`.  A template is created with its contents. -/
def newHtmlElement (b : Builder) (name : Text) (attributes : List Attribute) : Builder × Element :=
  let element : Element :=
    { tagName := name
      namespaceUri := some htmlNamespace
      localName := ((Text.splitOnce ':' name).map Prod.snd).getD name
      html := true }
  let element := attributes.foldl (fun e attr => e.setAttributeOwned attr.name attr.data)
    element
  if Text.eqIgnoreAsciiCase element.localName "template".toList then
    ({ b with nodes := b.nodes.create .documentFragment },
      { element with templateContent := some b.nodes.count })
  else (b, element)

end Builder

end Omoikane.Html
