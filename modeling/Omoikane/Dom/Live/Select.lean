import Omoikane.Base.TreeLoops
import Omoikane.Dom.Live.Consistency

/-!
# Option lists of the select element

An option belongs to its nearest ancestor select.  A select collects its options from above
(`listOfOptions`), an option looks for its select from below (`nearestAncestorSelect`).  What the calls
keep of an option is whether it is selected; `SubtreeSelects` is what is captured before a subtree is
inserted, removed or moved, so that the selects its options join or leave can be set again.

The loops have no bound in the code; here they take at most `limit` steps.
-/

namespace Omoikane.Dom.Live

open Base

/-- Elements that influence which select an option belongs to; `hr` and `datalist` are barriers. -/
inductive Role where
  | select
  | option
  | optgroup
  | barrier
  | selectedContent
  | other
  | notElement
deriving DecidableEq, Repr

/-- The role of an element. -/
def Element.role (element : Element) : Role :=
  if element.html then
    if element.localNameOrTag = "select".toList then .select
    else if element.localNameOrTag = "option".toList then .option
    else if element.localNameOrTag = "optgroup".toList then .optgroup
    else if element.localNameOrTag = "hr".toList ∨ element.localNameOrTag = "datalist".toList then
      .barrier
    else if element.localNameOrTag = "selectedcontent".toList then .selectedContent
    else .other
  else .other

/-- An option is selected or not, and may become dirty. -/
def Element.mark (selected markDirty : Bool) (element : Element) : Element :=
  { element with selected, dirtySelectedness := element.dirtySelectedness || markDirty }

/-- `parse_non_negative_integer`. -/
def parseNonNegativeInteger (value : Text) : Option Nat :=
  let value := value.dropWhile fun c =>
    c == '\t' || c == '\n' || c == '\x0c' || c == '\r' || c == ' '
  let value := (Text.stripPrefix value ['+']).getD value
  let digits := value.takeWhile Char.isDigit
  if digits = [] then none
  else some (((Text.parseUnsigned (2 ^ 64 - 1) digits).map (min · (2 ^ 32 - 1))).getD (2 ^ 32 - 1))

/-- One select whose `selectedcontent` elements need updating; removal and move steps defer that. -/
structure SelectedContentUpdate where
  select : NodeHandle
  deferred : Bool
deriving DecidableEq, Repr

/-- Appends an update, unless there is one of the select. -/
def pushUpdate (updates : List SelectedContentUpdate) (select : NodeHandle) (deferred : Bool) :
    List SelectedContentUpdate :=
  if updates.any (·.select == select) then updates else updates ++ [⟨select, deferred⟩]

/-- What is captured of a subtree before a mutation: each option with its nearest ancestor select, each
`selectedcontent` with the select it reflects. -/
structure SubtreeSelects where
  options : List (NodeHandle × Option NodeHandle)
  selectedContents : List (NodeHandle × Option NodeHandle)
deriving DecidableEq, Repr

/-- The kind of a mutation. -/
inductive TreeMutation where
  | insert
  | remove
  | move
deriving DecidableEq, Repr

/-- The result of the select steps of a mutation. -/
structure MutationOutcome where
  reset : List NodeHandle
  updates : List SelectedContentUpdate
deriving DecidableEq, Repr

/-- What the loop of `run_selectedness_setting` keeps. -/
structure Setting where
  dom : Documents
  changed : Bool
  firstEnabled : Option NodeHandle
  lastSelected : Option NodeHandle

/-- What the loop of `finish` keeps. -/
structure Finishing where
  dom : Documents
  reset : List NodeHandle
  updates : List SelectedContentUpdate

namespace Documents

variable (dom : Documents)

/-! ## Reading -/

/-- `role`. -/
def role (node : NodeHandle) : Role :=
  match dom.data node with
  | .element element => element.role
  | _ => .notElement

/-- Whether an element has an attribute in no namespace. -/
def hasAttribute (node : NodeHandle) (name : Text) : Bool :=
  ((dom.element? node).bind (·.attributeValueNs none name)).isSome

/-- `has_disabled_attribute`. -/
def hasDisabledAttribute (node : NodeHandle) : Bool := dom.hasAttribute node "disabled".toList

/-- `is_multiple`. -/
def isMultiple (select : NodeHandle) : Bool := dom.hasAttribute select "multiple".toList

/-- `display_size`. -/
def displaySize (select : NodeHandle) : Nat :=
  let parsed := ((dom.element? select).bind (·.attributeValueNs none "size".toList)).bind
    parseNonNegativeInteger
  match parsed with
  | some size => if 0 < size then size else if dom.isMultiple select then 4 else 1
  | none => if dom.isMultiple select then 4 else 1

/-- `selected`. -/
def selected (node : NodeHandle) : Bool :=
  match dom.data node with
  | .element element => element.tagName == "option".toList && element.selected
  | _ => false

/-- A node and the siblings after it, as `next_sibling` gives them. -/
def siblingsFrom : Nat → Option NodeHandle → Option (List NodeHandle)
  | 0, _ => none
  | _ + 1, none => some []
  | limit + 1, some node => (siblingsFrom limit (dom.links.nextSibling node)).map (node :: ·)

/-- The children of a node, from `first_child` on. -/
def childrenFrom (limit : Nat) (node : NodeHandle) : Option (List NodeHandle) :=
  dom.siblingsFrom limit (dom.links.firstChild node)

/-- What `nearest_ancestor_select` does at an ancestor. -/
def meetSelect (seenOptgroup : Bool) (ancestor : NodeHandle) : Option NodeHandle ⊕ Bool :=
  match dom.role ancestor with
  | .barrier | .option => .inl none
  | .optgroup => if seenOptgroup then .inl none else .inr true
  | .select => .inl (some ancestor)
  | .selectedContent | .other | .notElement => .inr seenOptgroup

/-- `nearest_ancestor_select`. -/
def nearestAncestorSelect (limit : Nat) (element : NodeHandle) : Option (Option NodeHandle) :=
  ascend dom.parentNode dom.meetSelect (fun _ => none) limit false (dom.parentNode element)

/-- What `collect_options` does at a child, with the flag for the children of that. -/
def meetOption (insideOptgroup : Bool) (node : NodeHandle) : List NodeHandle × Option Bool :=
  match dom.role node with
  | .option => ([node], none)
  | .select | .barrier | .notElement => ([], none)
  | .optgroup => ([], if insideOptgroup then none else some true)
  | .selectedContent | .other => ([], some insideOptgroup)

/-- `collect_options`. -/
def collectOptions (limit : Nat) (parent : NodeHandle) (insideOptgroup : Bool) :
    Option (List NodeHandle) := do
  descend dom.childrenFrom (fun _ inside node => some (dom.meetOption inside node)) limit
    insideOptgroup (← dom.childrenFrom limit parent)

/-- `list_of_options`. -/
def listOfOptions (limit : Nat) (select : NodeHandle) : Option (List NodeHandle) :=
  dom.collectOptions limit select false

/-- What the loop of `option_or_optgroup_is_disabled` does at an ancestor. -/
def meetDisabled (_ : Unit) (ancestor : NodeHandle) : Bool ⊕ Unit :=
  match dom.role ancestor with
  | .select | .barrier | .option => .inl false
  | .optgroup => .inl (dom.hasDisabledAttribute ancestor)
  | .selectedContent | .other | .notElement => .inr ()

/-- `option_or_optgroup_is_disabled`. -/
def optionOrOptgroupIsDisabled (limit : Nat) (option : NodeHandle) : Option Bool :=
  if dom.hasDisabledAttribute option then some true
  else ascend dom.parentNode dom.meetDisabled (fun _ => false) limit () (dom.parentNode option)

/-- What `selected_content_select` does at an ancestor. -/
def meetReflected (nearest : Option NodeHandle) (ancestor : NodeHandle) :
    Option NodeHandle ⊕ Option NodeHandle :=
  match dom.role ancestor with
  | .select => if nearest.isSome then .inl none else .inr (some ancestor)
  | .option | .selectedContent => .inl none
  | .optgroup | .barrier | .other | .notElement => .inr nearest

/-- `selected_content_select`. -/
def selectedContentSelect (limit : Nat) (selectedContent : NodeHandle) :
    Option (Option NodeHandle) :=
  ascend dom.parentNode dom.meetReflected (·.filter fun select => !dom.isMultiple select) limit none
    (dom.parentNode selectedContent)

/-- What `visit` does at a node: an option or a `selectedcontent` is captured with its select. -/
def meetCaptured (limit : Nat) (_ : Unit) (node : NodeHandle) :
    Option (List ((NodeHandle × Option NodeHandle) ⊕ (NodeHandle × Option NodeHandle)) × Option Unit) :=
  match dom.role node with
  | .notElement => some ([], none)
  | .option => (dom.nearestAncestorSelect limit node).map fun select => ([.inl (node, select)], some ())
  | .selectedContent =>
    (dom.selectedContentSelect limit node).map fun select => ([.inr (node, select)], some ())
  | .select | .optgroup | .barrier | .other => some ([], some ())

/-- `capture`. -/
def capture (limit : Nat) (root : NodeHandle) : Option SubtreeSelects := do
  let captured ← descend dom.childrenFrom dom.meetCaptured limit () [root]
  return { options := captured.filterMap Sum.getLeft?
           selectedContents := captured.filterMap Sum.getRight? }

/-! ## Writing -/

/-- The payload of an element is written; other nodes have none. -/
def modifyElement (node : NodeHandle) (f : Element → Element) : Documents :=
  match dom.data node with
  | .element element => dom.setData node (.element (f element))
  | _ => dom

/-- `store_selectedness`. -/
def storeSelectedness (option : NodeHandle) (selected : Bool) : Documents :=
  dom.modifyElement option fun element => { element with selected }

end Documents

/-- What the loop of `run_selectedness_setting` does at an option that is selected: the one before is
not any more. -/
def Setting.select (state : Setting) (option : NodeHandle) : Setting :=
  if state.dom.selected option then
    match state.lastSelected with
    | some previous =>
      { state with
        dom := state.dom.storeSelectedness previous false
        changed := true
        lastSelected := some option }
    | none => { state with lastSelected := some option }
  else state

/-- The step of the loop of `run_selectedness_setting`. -/
def Setting.visit (limit : Nat) (state : Setting) (option : NodeHandle) : Option Setting := do
  let state := state.select option
  if state.firstEnabled.isNone then
    if ← state.dom.optionOrOptgroupIsDisabled limit option then
      return state
    else return { state with firstEnabled := some option }
  else return state

namespace Documents

variable (dom : Documents)

/-- `run_selectedness_setting`. -/
def runSelectednessSetting (limit : Nat) (select : NodeHandle) : Option (Documents × Bool) := do
  if dom.isMultiple select then
    return (dom, false)
  let options ← dom.listOfOptions limit select
  let state ← options.foldlM (Setting.visit limit) ⟨dom, false, none, none⟩
  match state.lastSelected, state.firstEnabled with
  | none, some option =>
    if state.dom.displaySize select = 1 then
      return (state.dom.storeSelectedness option true, true)
    else return (state.dom, state.changed)
  | _, _ => return (state.dom, state.changed)

/-- `set_option_selectedness`. -/
def setOptionSelectedness (limit : Nat) (option : NodeHandle) (selected markDirty : Bool) :
    Option Documents := do
  let dom := dom.modifyElement option (.mark selected markDirty)
  if !selected then
    return dom
  match (← dom.nearestAncestorSelect limit option).filter fun select => !dom.isMultiple select with
  | none => return dom
  | some select =>
    let options ← dom.listOfOptions limit select
    return options.foldl (fun dom other =>
      if other ≠ option then dom.storeSelectedness other false else dom) dom

/-- The step of the loop of `select_only`. -/
def chooseOnly (chosen : Option NodeHandle) (state : Documents × Bool) (option : NodeHandle) :
    Documents × Bool :=
  let selected := chosen == some option
  (state.1.modifyElement option (.mark selected selected),
    state.2 || state.1.selected option != selected)

/-- `select_only`. -/
def selectOnly (limit : Nat) (select : NodeHandle) (chosen : Option NodeHandle) :
    Option (Documents × Bool) :=
  (dom.listOfOptions limit select).map fun options => options.foldl (chooseOnly chosen) (dom, false)

/-- `apply_selected_attribute`. -/
def applySelectedAttribute (limit : Nat) (option : NodeHandle) :
    Option (Documents × Option NodeHandle) :=
  match dom.data option with
  | .element element =>
    if element.dirtySelectedness then some (dom, none)
    else do
      let selected := dom.hasAttribute option "selected".toList
      let dom ← dom.setOptionSelectedness limit option selected false
      match ← dom.nearestAncestorSelect limit option with
      | none => return (dom, none)
      | some select =>
        let (dom, changed) ← dom.runSelectednessSetting limit select
        return (dom, if changed || element.selected != dom.selected option || selected then
          some select else none)
  | _ => some (dom, none)

end Documents

/-! ## Finishing -/

namespace Finishing

/-- What `finish` does for an option and a select that it left or joined. -/
def resetSelect (limit : Nat) (option : NodeHandle) (deferred : Bool) (state : Finishing) :
    Option NodeHandle → Option Finishing
  | none => some state
  | some select =>
    (state.dom.runSelectednessSetting limit select).map fun (dom, changed) =>
      { dom
        reset := state.reset ++ [select]
        updates := if changed || dom.selected option then
          pushUpdate state.updates select deferred else state.updates }

/-- The step of the loop of `finish` over the options. -/
def visitOption (limit : Nat) (deferred : Bool) (state : Finishing)
    (captured : NodeHandle × Option NodeHandle) : Option Finishing := do
  let newSelect ← state.dom.nearestAncestorSelect limit captured.1
  if captured.2 = newSelect then
    return state
  -- leaving a select always defers
  let state ← state.resetSelect limit captured.1 true captured.2
  state.resetSelect limit captured.1 deferred newSelect

/-- The step of the loop of `finish` over the `selectedcontent` elements. -/
def visitSelectedContent (limit : Nat) (mutation : TreeMutation) (state : Finishing)
    (captured : NodeHandle × Option NodeHandle) : Option Finishing := do
  match ← state.dom.selectedContentSelect limit captured.1 with
  | none => return state
  | some select =>
    if mutation = .move ∧ some select = captured.2 then return state
    else return { state with
      updates := pushUpdate state.updates select (mutation ≠ .insert) }

end Finishing

/-- `finish`. -/
def SubtreeSelects.finish (captured : SubtreeSelects) (limit : Nat) (dom : Documents)
    (mutation : TreeMutation) : Option (Documents × MutationOutcome) := do
  let deferred : Bool := mutation ≠ .insert
  let state ← captured.options.foldlM (Finishing.visitOption limit deferred) ⟨dom, [], []⟩
  let state ← (if mutation ≠ .remove then
      captured.selectedContents.foldlM (Finishing.visitSelectedContent limit mutation) state
    else some state : Option Finishing)
  return (state.dom, { reset := state.reset.destutter (· ≠ ·), updates := state.updates })

/-! ## Calls -/

/-- The subtree that a call on the tree puts somewhere or takes away. -/
def movedSubtree : TreeCall → NodeHandle
  | .appendChild _ child | .insertBefore _ child _ | .removeChild _ child => child

/-- A call that writes the selectedness of options.  One on the tree is made between `capture` and
`finish`; when it fails, nothing is finished. -/
inductive SelectCall where
  | setOptionSelectedness (option : NodeHandle) (selected markDirty : Bool)
  | selectOnly (select : NodeHandle) (chosen : Option NodeHandle)
  | applySelectedAttribute (option : NodeHandle)
  | runSelectednessSetting (select : NodeHandle)
  | mutate (mutation : TreeMutation) (call : TreeCall)

/-- What a call leaves behind. -/
def SelectCall.perform (limit : Nat) (dom : Documents) : SelectCall → Option Documents
  | .setOptionSelectedness option selected markDirty =>
    dom.setOptionSelectedness limit option selected markDirty
  | .selectOnly select chosen => (dom.selectOnly limit select chosen).map Prod.fst
  | .applySelectedAttribute option => (dom.applySelectedAttribute limit option).map Prod.fst
  | .runSelectednessSetting select => (dom.runSelectednessSetting limit select).map Prod.fst
  | .mutate mutation call => do
    let captured ← dom.capture limit (movedSubtree call)
    match ← dom.performTree limit call with
    | (dom, .error _) => return dom
    | (dom, .ok ()) => return (← captured.finish limit dom mutation).1

end Omoikane.Dom.Live
