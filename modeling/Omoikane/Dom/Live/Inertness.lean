import Omoikane.Base.Settles
import Omoikane.Dom.Live.InclusiveTree
import Omoikane.Dom.Live.TopLayer

/-!
# Inertness

A node is inert below an `inert` attribute, up to the next modal dialog, and outside the topmost
modal dialog of its tree.  `is_inert` looks for that dialog only if some modal dialog is counted;
`isInertByScan` always does.

Both read the assigned slots on the way up, and reading may make a snapshot.  A parent that was read
is `Known`: it is read again without any change.  So the walk to the root that the shortcut leaves out
repeats the walk before it, and changes nothing (`Rises`).
-/

namespace Omoikane.Dom.Live

open Base Relation

namespace Documents

/-! ## Definitions -/

section

variable (dom : Documents)

/-- The node type is that of a document fragment. -/
def isDocumentFragment (node : NodeHandle) : Bool :=
  match dom.data node with
  | .documentFragment | .shadowRoot _ => true
  | _ => false

/-- `is_html_element`. -/
def isHtmlElement (node : NodeHandle) : Bool := (dom.element? node).any (·.html)

/-- The parent of a node that is in no slot, in the flat tree. -/
def unslottedParent (node : NodeHandle) : Option NodeHandle :=
  (dom.parentNode node).bind fun parent =>
    if dom.isDocumentFragment parent then dom.shadowHost parent else some parent

/-- `flat_tree_parent`. -/
def flatTreeParent (limit : Nat) (node : NodeHandle) : Option (Documents × Option NodeHandle) :=
  (dom.assignedSlot limit node).map fun (dom, slot) => (dom, slot.or (dom.unslottedParent node))

/-- The loop of `is_inert` that looks for an `inert` attribute. -/
def findInert : Nat → Documents → Option NodeHandle → Option (Documents × Bool)
  | 0, _, _ => none
  | _ + 1, dom, none => some (dom, false)
  | limit + 1, dom, some node =>
    if dom.isHtmlElement node && (dom.getAttribute node "inert".toList).isSome then some (dom, true)
    else if dom.isModalDialog node then some (dom, false)
    else do
      let (dom, parent) ← dom.flatTreeParent limit node
      findInert limit dom parent

/-- The loop of `is_inert` that goes to the root of the flat tree. -/
def flatTreeRoot : Nat → Documents → NodeHandle → Option (Documents × NodeHandle)
  | 0, _, _ => none
  | limit + 1, dom, node => do
    let (dom, parent) ← dom.flatTreeParent limit node
    match parent with
    | none => return (dom, node)
    | some parent => flatTreeRoot limit dom parent

/-- A node is above another one in the order of the top layer, where no order is below all others. -/
def isAbove (node other : NodeHandle) : Bool :=
  match dom.topLayerOrder node, dom.topLayerOrder other with
  | none, _ => false
  | some _, none => true
  | some order, some order' => order' < order

/-- The loop of `find_topmost_modal_dialog`, with its stack. -/
def findTopmostModalDialog : Nat → List NodeHandle → Option NodeHandle → Option (Option NodeHandle)
  | 0, _, _ => none
  | _ + 1, [], topmost => some topmost
  | limit + 1, node :: stack, topmost => do
    let topmost := if dom.isModalDialog node && topmost.all (dom.isAbove node ·) then some node
      else topmost
    let children ← dom.childNodes node
    findTopmostModalDialog limit (children.reverse ++ ((dom.shadowRoot node).toList ++ stack)) topmost

/-- The last loop of `is_inert`: a node is inert if it is not in the topmost modal dialog. -/
def isOutside (modal : NodeHandle) : Nat → Documents → Option NodeHandle → Option (Documents × Bool)
  | 0, _, _ => none
  | _ + 1, dom, none => some (dom, true)
  | limit + 1, dom, some node =>
    if node = modal then some (dom, false)
    else do
      let (dom, parent) ← dom.flatTreeParent limit node
      isOutside modal limit dom parent

/-- What `is_inert` does after the shortcut: the scan of the whole tree. -/
def isBlockedByModal (limit : Nat) (node : NodeHandle) : Option (Documents × Bool) := do
  let (dom, root) ← dom.flatTreeRoot limit node
  match ← dom.findTopmostModalDialog limit [root] none with
  | none => return (dom, false)
  | some modal => isOutside modal limit dom (some node)

/-- `is_inert`. -/
def isInert (limit : Nat) (node : NodeHandle) : Option (Documents × Bool) := do
  let (dom, found) ← dom.findInert limit (some node)
  if found then return (dom, true)
  else if dom.presentation.modalDialogElements = 0 then return (dom, false)
  else dom.isBlockedByModal limit node

/-- `is_inert` without its shortcut. -/
def isInertByScan (limit : Nat) (node : NodeHandle) : Option (Documents × Bool) := do
  let (dom, found) ← dom.findInert limit (some node)
  if found then return (dom, true) else dom.isBlockedByModal limit node

end

/-! ## Reading a parent again -/

variable {dom dom' : Documents} {node other : NodeHandle} {limit limit' : Nat}

/-- The assignments of a root are at hand: there are none, or the snapshot is of this epoch. -/
inductive AtHand (dom : Documents) (node : NodeHandle) : Option SlotAssignments → Prop
  | other : dom.shadowRoot? node = none → AtHand dom node none
  | cached {root : ShadowRoot} {assignments : SlotAssignments} : dom.data node = .shadowRoot root →
      root.assignments = some (dom.epochs.slotAssignment, assignments) →
      AtHand dom node (some assignments)

theorem AtHand.slotAssignments {assignments : Option SlotAssignments}
    (h : dom.AtHand node assignments) (limit : Nat) :
    dom.slotAssignments limit node = some (dom, assignments) := by
  cases h with
  | other hnone => rw [Documents.slotAssignments, hnone]
  | cached hroot hcached =>
    rw [Documents.slotAssignments, shadowRoot?_eq_some_iff.mpr hroot]
    dsimp only
    rw [hcached, Option.filter_some_pos (by simp)]

/-- What reading slots leaves as it is. -/
structure Unread (dom dom' : Documents) : Prop where
  links : dom'.links = dom.links
  element? : dom'.element? = dom.element?
  isSlottable : dom'.isSlottable = dom.isSlottable
  shadowHost : dom'.shadowHost = dom.shadowHost
  isDocumentFragment : dom'.isDocumentFragment = dom.isDocumentFragment
  presentation : dom'.presentation = dom.presentation

theorem Unread.refl : Unread dom dom := ⟨rfl, rfl, rfl, rfl, rfl, rfl⟩

theorem Unread.trans {dom'' : Documents} (h : Unread dom dom') (h' : Unread dom' dom'') :
    Unread dom dom'' :=
  ⟨h'.links.trans h.links, h'.element?.trans h.element?, h'.isSlottable.trans h.isSlottable,
    h'.shadowHost.trans h.shadowHost, h'.isDocumentFragment.trans h.isDocumentFragment,
    h'.presentation.trans h.presentation⟩

theorem unread_setSnapshot {root : ShadowRoot} (hroot : dom.data node = .shadowRoot root)
    (cached : Option (Nat × SlotAssignments)) :
    Unread dom (dom.setData node (.shadowRoot { root with assignments := cached })) := by
  have hself : (dom.setData node (.shadowRoot { root with assignments := cached })).data node =
      .shadowRoot { root with assignments := cached } := setData_self _
  refine ⟨rfl, funext fun other => ?_, funext fun other => ?_, funext fun other => ?_,
    funext fun other => ?_, rfl⟩
  all_goals
    by_cases hother : other = node
    · rw [hother]
      simp only [element?, isSlottable, shadowHost, shadowRoot?, isDocumentFragment, hself, hroot]
      try rfl
    · simp only [element?, isSlottable, shadowHost, shadowRoot?, isDocumentFragment,
        setData_of_ne _ hother]

theorem unread_slotAssignments {assignments : Option SlotAssignments}
    (h : dom.slotAssignments limit node = some (dom', assignments)) : Unread dom dom' := by
  cases slotAssigned h with
  | other | cached => exact .refl
  | made hroot => exact unread_setSnapshot hroot _

/-- Assignments that were read are at hand. -/
theorem atHand_of_slotAssignments {assignments : Option SlotAssignments}
    (h : dom.slotAssignments limit node = some (dom', assignments)) : dom'.AtHand node assignments := by
  cases slotAssigned h with
  | other hnone => exact .other hnone
  | cached hroot hcached => exact .cached hroot hcached
  | made hroot => exact .cached (setData_self _) rfl

/-- Assignments at hand stay there when others are read. -/
theorem AtHand.slotAssignments_other {assignments assignments' : Option SlotAssignments}
    (h : dom.AtHand node assignments)
    (hother : dom.slotAssignments limit other = some (dom', assignments')) :
    dom'.AtHand node assignments := by
  cases slotAssigned hother with
  | other | cached => exact h
  | @made root _ _ hroot hstale =>
    cases h with
    | other hnone =>
      refine .other ?_
      by_cases hnode : node = other
      · rw [hnode, shadowRoot?_eq_some_iff.mpr hroot] at hnone
        cases hnone
      · rw [shadowRoot?, setData_of_ne _ hnode]
        exact hnone
    | @cached root' assignments hroot' hcached =>
      have hnode : node ≠ other := by
        rintro rfl
        cases hroot.symm.trans hroot'
        rw [hcached, Option.filter_some_pos (by simp)] at hstale
        cases hstale
      exact .cached ((setData_of_ne _ hnode).trans hroot') hcached

/-- The slot of a node is at hand. -/
inductive SlotAtHand (dom : Documents) (node : NodeHandle) : Option NodeHandle → Prop
  | unslottable : dom.isSlottable node = false → SlotAtHand dom node none
  | rootless : (dom.parentNode node).bind dom.shadowRoot = none → SlotAtHand dom node none
  | rooted {root : NodeHandle} {assignments : Option SlotAssignments} :
      dom.isSlottable node = true → (dom.parentNode node).bind dom.shadowRoot = some root →
      dom.AtHand root assignments → SlotAtHand dom node (assignments.bind (·.byNode node))

theorem SlotAtHand.assignedSlot {slot : Option NodeHandle} (h : dom.SlotAtHand node slot)
    (limit : Nat) : dom.assignedSlot limit node = some (dom, slot) := by
  cases h with
  | unslottable hnot => rw [Documents.assignedSlot, if_neg (by rw [hnot]; exact Bool.false_ne_true)]
  | rootless hnone =>
    rw [Documents.assignedSlot, hnone]
    split <;> rfl
  | rooted hslottable hroot hassignments =>
    rw [Documents.assignedSlot, if_pos hslottable, hroot]
    dsimp only
    rw [hassignments.slotAssignments]
    rfl

theorem Unread.shadowRoot (h : Unread dom dom') : dom'.shadowRoot = dom.shadowRoot := by
  funext node
  rw [Documents.shadowRoot, h.element?]
  rfl

theorem Unread.parentNode (h : Unread dom dom') : dom'.parentNode = dom.parentNode := by
  funext node
  rw [Documents.parentNode, h.links]
  rfl

theorem Unread.isModalDialog (h : Unread dom dom') : dom'.isModalDialog = dom.isModalDialog := by
  funext node
  rw [Documents.isModalDialog, Documents.isModalDialog, h.element?, h.presentation]

/-- Reading a slot makes no other change than reading the assignments of a root, if any. -/
theorem assignedSlot_cases {slot : Option NodeHandle}
    (h : dom.assignedSlot limit node = some (dom', slot)) :
    (dom' = dom ∧ dom.SlotAtHand node slot) ∨ ∃ root assignments,
      dom.isSlottable node = true ∧ (dom.parentNode node).bind dom.shadowRoot = some root ∧
      dom.slotAssignments limit root = some (dom', assignments) ∧
      slot = assignments.bind (·.byNode node) := by
  rw [assignedSlot] at h
  split at h
  next hslottable =>
    split at h
    next hnone =>
      cases h
      exact .inl ⟨rfl, .rootless hnone⟩
    next root hroot =>
      obtain ⟨⟨between, assignments⟩, hassignments, heq⟩ := Option.bind_eq_some_iff.mp h
      cases heq
      exact .inr ⟨root, assignments, hslottable, hroot, hassignments, rfl⟩
  next hnot =>
    cases h
    exact .inl ⟨rfl, .unslottable (Bool.eq_false_of_not_eq_true hnot)⟩

theorem unread_assignedSlot {slot : Option NodeHandle}
    (h : dom.assignedSlot limit node = some (dom', slot)) : Unread dom dom' := by
  rcases assignedSlot_cases h with ⟨rfl, -⟩ | ⟨root, assignments, -, -, hassignments, -⟩
  · exact .refl
  · exact unread_slotAssignments hassignments

theorem slotAtHand_of_assignedSlot {slot : Option NodeHandle}
    (h : dom.assignedSlot limit node = some (dom', slot)) : dom'.SlotAtHand node slot := by
  have hunread := unread_assignedSlot h
  rcases assignedSlot_cases h with ⟨rfl, hslot⟩ | ⟨root, assignments, hslottable, hroot, hassignments, rfl⟩
  · exact hslot
  · refine .rooted ?_ ?_ (atHand_of_slotAssignments hassignments)
    · rw [hunread.isSlottable, hslottable]
    · rw [hunread.parentNode, hunread.shadowRoot, hroot]

theorem SlotAtHand.assignedSlot_other {slot slot' : Option NodeHandle} (h : dom.SlotAtHand node slot)
    (hother : dom.assignedSlot limit other = some (dom', slot')) : dom'.SlotAtHand node slot := by
  have hunread := unread_assignedSlot hother
  rcases assignedSlot_cases hother with ⟨rfl, -⟩ | ⟨root, assignments, -, -, hassignments, -⟩
  · exact h
  · cases h with
    | unslottable hnot => exact .unslottable (by rw [hunread.isSlottable, hnot])
    | rootless hnone => exact .rootless (by rw [hunread.parentNode, hunread.shadowRoot, hnone])
    | rooted hslottable hroot hathand =>
      refine .rooted ?_ ?_ (hathand.slotAssignments_other hassignments)
      · rw [hunread.isSlottable, hslottable]
      · rw [hunread.parentNode, hunread.shadowRoot, hroot]

theorem Unread.unslottedParent (h : Unread dom dom') : dom'.unslottedParent = dom.unslottedParent := by
  funext node
  rw [Documents.unslottedParent, Documents.unslottedParent, h.parentNode, h.isDocumentFragment,
    h.shadowHost]

/-- The parent of a node in the flat tree is known: it is read without any change. -/
def Parent (dom : Documents) (node : NodeHandle) (parent : Option NodeHandle) : Prop :=
  ∃ slot, dom.SlotAtHand node slot ∧ parent = slot.or (dom.unslottedParent node)

theorem Parent.flatTreeParent {parent : Option NodeHandle} (h : dom.Parent node parent) (limit : Nat) :
    dom.flatTreeParent limit node = some (dom, parent) := by
  obtain ⟨slot, hslot, rfl⟩ := h
  rw [Documents.flatTreeParent, hslot.assignedSlot]
  rfl

theorem unread_flatTreeParent {parent : Option NodeHandle}
    (h : dom.flatTreeParent limit node = some (dom', parent)) : Unread dom dom' := by
  obtain ⟨⟨between, slot⟩, hslot, heq⟩ := Option.map_eq_some_iff.mp h
  cases heq
  exact unread_assignedSlot hslot

/-- A parent that was read is known. -/
theorem parent_of_flatTreeParent {parent : Option NodeHandle}
    (h : dom.flatTreeParent limit node = some (dom', parent)) : dom'.Parent node parent := by
  obtain ⟨⟨between, slot⟩, hslot, heq⟩ := Option.map_eq_some_iff.mp h
  cases heq
  exact ⟨slot, slotAtHand_of_assignedSlot hslot, rfl⟩

/-- It stays known when others are read. -/
theorem Parent.flatTreeParent_other {parent parent' : Option NodeHandle} (h : dom.Parent node parent)
    (hother : dom.flatTreeParent limit other = some (dom', parent')) : dom'.Parent node parent := by
  obtain ⟨slot, hslot, rfl⟩ := h
  have hunread := unread_flatTreeParent hother
  obtain ⟨⟨between, slot'⟩, hslot', heq⟩ := Option.map_eq_some_iff.mp hother
  cases heq
  exact ⟨slot, hslot.assignedSlot_other hslot', by rw [hunread.unslottedParent]⟩

/-! ## The way to the root -/

/-- All parents from a node to the root of its flat tree are known. -/
inductive Rises (dom : Documents) : NodeHandle → NodeHandle → Prop
  | top {node : NodeHandle} : dom.Parent node none → Rises dom node node
  | up {node parent root : NodeHandle} : dom.Parent node (some parent) → Rises dom parent root →
      Rises dom node root

theorem Parent.findInert {parent : Option NodeHandle} :
    ∀ {limit : Nat} {dom : Documents} {start : Option NodeHandle} {found : Bool},
      dom.Parent node parent → dom.findInert limit start = some (dom', found) → dom'.Parent node parent
  | limit + 1, dom, none, found, h, hfind => by
    cases hfind
    exact h
  | limit + 1, dom, some start, found, h, hfind => by
    rw [Documents.findInert] at hfind
    split at hfind
    next =>
      cases hfind
      exact h
    next =>
      split at hfind
      next =>
        cases hfind
        exact h
      next =>
        obtain ⟨⟨between, next⟩, hnext, hfind⟩ := Option.bind_eq_some_iff.mp hfind
        exact (h.flatTreeParent_other hnext).findInert hfind

theorem unread_findInert : ∀ {limit : Nat} {dom dom' : Documents} {start : Option NodeHandle}
    {found : Bool}, dom.findInert limit start = some (dom', found) → Unread dom dom'
  | limit + 1, dom, dom', none, found, h => by
    cases h
    exact .refl
  | limit + 1, dom, dom', some start, found, h => by
    rw [findInert] at h
    split at h
    next =>
      cases h
      exact .refl
    next =>
      split at h
      next =>
        cases h
        exact .refl
      next =>
        obtain ⟨⟨between, next⟩, hnext, h⟩ := Option.bind_eq_some_iff.mp h
        exact (unread_flatTreeParent hnext).trans (unread_findInert h)

/-- Where there is no modal dialog, the first loop goes up to the root if it finds nothing. -/
theorem rises_of_findInert : ∀ {limit : Nat} {dom dom' : Documents} {node : NodeHandle},
    (∀ node, dom.isModalDialog node = false) → dom.findInert limit (some node) = some (dom', false) →
      ∃ root, dom'.Rises node root
  | limit + 1, dom, dom', node, hmodal, h => by
    rw [findInert] at h
    split at h
    next => cases h
    next =>
      rw [hmodal, if_neg Bool.false_ne_true] at h
      obtain ⟨⟨between, parent⟩, hparent, h⟩ := Option.bind_eq_some_iff.mp h
      have hknown : dom'.Parent node parent := (parent_of_flatTreeParent hparent).findInert h
      cases parent with
      | none => exact ⟨node, .top hknown⟩
      | some parent =>
        have hmodal' : ∀ node, between.isModalDialog node = false := by
          rw [(unread_flatTreeParent hparent).isModalDialog]
          exact hmodal
        obtain ⟨root, hroot⟩ := rises_of_findInert hmodal' h
        exact ⟨root, .up hknown hroot⟩

/-- A way that is known leads to the root without any change. -/
theorem Rises.flatTreeRoot_eq {root : NodeHandle} (h : dom.Rises node root) :
    ∀ {limit : Nat} {result : Documents × NodeHandle}, dom.flatTreeRoot limit node = some result →
      result = (dom, root) := by
  induction h with
  | top hparent =>
    intro limit result hresult
    cases limit with
    | zero => cases hresult
    | succ limit =>
      rw [flatTreeRoot, hparent.flatTreeParent] at hresult
      exact (Option.some.inj hresult).symm
  | up hparent _ ih =>
    intro limit result hresult
    cases limit with
    | zero => cases hresult
    | succ limit =>
      rw [flatTreeRoot, hparent.flatTreeParent] at hresult
      exact ih hresult

theorem Rises.flatTreeRoot_ends {root : NodeHandle} (h : dom.Rises node root) :
    ∃ limit, ∀ limit', limit ≤ limit' → dom.flatTreeRoot limit' node = some (dom, root) := by
  induction h with
  | top hparent =>
    refine ⟨1, fun limit' hle => ?_⟩
    obtain ⟨limit', rfl⟩ := Nat.exists_eq_succ_of_ne_zero (by omega : limit' ≠ 0)
    rw [flatTreeRoot, hparent.flatTreeParent]
    rfl
  | up hparent _ ih =>
    obtain ⟨limit, hlimit⟩ := ih
    refine ⟨limit + 1, fun limit' hle => ?_⟩
    obtain ⟨limit', rfl⟩ := Nat.exists_eq_succ_of_ne_zero (by omega : limit' ≠ 0)
    rw [flatTreeRoot, hparent.flatTreeParent]
    exact hlimit limit' (by omega)

/-! ## A limit that is not reached may be raised -/

theorem collectSlots_mono : ∀ {limit limit' : Nat} {node : NodeHandle} {slots : List NodeHandle},
    dom.collectSlots limit node = some slots → limit ≤ limit' →
      dom.collectSlots limit' node = some slots
  | limit + 1, limit' + 1, node, slots, h, hle => by
    obtain ⟨children, hchildren, h⟩ := Option.bind_eq_some_iff.mp h
    obtain ⟨found, hfound, h⟩ := Option.bind_eq_some_iff.mp h
    refine Option.bind_eq_some_iff.mpr ⟨children, hchildren,
      Option.bind_eq_some_iff.mpr ⟨found, mapM_mono (fun child below hbelow => ?_) hfound, h⟩⟩
    obtain ⟨slots, hslots, hbelow⟩ := Option.bind_eq_some_iff.mp hbelow
    exact Option.bind_eq_some_iff.mpr
      ⟨slots, collectSlots_mono hslots (Nat.le_of_succ_le_succ hle), hbelow⟩

theorem slotAssignments_mono {result : Documents × Option SlotAssignments}
    (h : dom.slotAssignments limit node = some result) (hle : limit ≤ limit') :
    dom.slotAssignments limit' node = some result := by
  unfold slotAssignments at h ⊢
  split at h
  next => exact h
  next root hroot =>
    dsimp only at h ⊢
    split at h
    next => exact h
    next =>
      obtain ⟨slots, hslots, h⟩ := Option.bind_eq_some_iff.mp h
      exact Option.bind_eq_some_iff.mpr ⟨slots, collectSlots_mono hslots hle, h⟩

theorem assignedSlot_mono {slot : Option NodeHandle}
    (h : dom.assignedSlot limit node = some (dom', slot)) (hle : limit ≤ limit') :
    dom.assignedSlot limit' node = some (dom', slot) := by
  rcases assignedSlot_cases h with ⟨rfl, hslot⟩ | ⟨root, assignments, hslottable, hroot, hread, rfl⟩
  · exact hslot.assignedSlot limit'
  · rw [assignedSlot, if_pos hslottable, hroot]
    exact Option.bind_eq_some_iff.mpr ⟨(dom', assignments), slotAssignments_mono hread hle, rfl⟩

theorem flatTreeParent_mono {result : Documents × Option NodeHandle}
    (h : dom.flatTreeParent limit node = some result) (hle : limit ≤ limit') :
    dom.flatTreeParent limit' node = some result := by
  obtain ⟨⟨between, slot⟩, hslot, rfl⟩ := Option.map_eq_some_iff.mp h
  exact Option.map_eq_some_iff.mpr ⟨(between, slot), assignedSlot_mono hslot hle, rfl⟩

theorem findInert_mono : ∀ {limit limit' : Nat} {dom : Documents} {start : Option NodeHandle}
    {result : Documents × Bool}, dom.findInert limit start = some result → limit ≤ limit' →
      dom.findInert limit' start = some result
  | limit + 1, limit' + 1, dom, none, result, h, _ => h
  | limit + 1, limit' + 1, dom, some node, result, h, hle => by
    rw [findInert] at h ⊢
    split at h
    next hinert => rw [if_pos hinert, h]
    next hinert =>
      rw [if_neg hinert]
      split at h
      next hmodal => rw [if_pos hmodal, h]
      next hmodal =>
        rw [if_neg hmodal]
        obtain ⟨read, hread, h⟩ := Option.bind_eq_some_iff.mp h
        have hle' := Nat.le_of_succ_le_succ hle
        exact Option.bind_eq_some_iff.mpr
          ⟨read, flatTreeParent_mono hread hle', findInert_mono h hle'⟩

/-! ## The scan -/

/-- Without modal dialogs, the scan finds none. -/
theorem findTopmostModalDialog_eq_none (hmodal : ∀ node, dom.isModalDialog node = false) :
    ∀ {limit : Nat} {stack : List NodeHandle} {found : Option NodeHandle},
      dom.findTopmostModalDialog limit stack none = some found → found = none
  | limit + 1, [], found, h => (Option.some.inj h).symm
  | limit + 1, node :: stack, found, h => by
    rw [findTopmostModalDialog] at h
    obtain ⟨children, -, h⟩ := Option.bind_eq_some_iff.mp h
    rw [hmodal, Bool.false_and, if_neg Bool.false_ne_true] at h
    exact findTopmostModalDialog_eq_none hmodal h

/-- The scan gets past some nodes on its stack, in a number of steps that does not depend on what is
below them. -/
def Passes (dom : Documents) (nodes : List NodeHandle) : Prop :=
  ∃ steps, ∀ limit stack topmost, ∃ topmost',
    dom.findTopmostModalDialog (limit + steps) (nodes ++ stack) topmost =
      dom.findTopmostModalDialog limit stack topmost'

theorem Passes.append {nodes nodes' : List NodeHandle} (h : dom.Passes nodes)
    (h' : dom.Passes nodes') : dom.Passes (nodes ++ nodes') := by
  obtain ⟨steps, hsteps⟩ := h
  obtain ⟨steps', hsteps'⟩ := h'
  refine ⟨steps' + steps, fun limit stack topmost => ?_⟩
  obtain ⟨between, hbetween⟩ := hsteps (limit + steps') (nodes' ++ stack) topmost
  obtain ⟨topmost', htopmost⟩ := hsteps' limit stack between
  exact ⟨topmost', by rw [List.append_assoc, ← Nat.add_assoc, hbetween, htopmost]⟩

theorem passes_nil : dom.Passes [] := ⟨0, fun _ _ topmost => ⟨topmost, rfl⟩⟩

theorem passes_all : ∀ {nodes : List NodeHandle}, (∀ node ∈ nodes, dom.Passes [node]) → dom.Passes nodes
  | [], _ => passes_nil
  | node :: _, h => (h node List.mem_cons_self).append
      (passes_all fun other hother => h other (List.mem_cons_of_mem node hother))

/-- Where the edges have no cycle, the scan gets past every node. -/
theorem passes_node {lists : ChildLists} (h : Consistent dom lists)
    (hwell : WellFounded fun target node => dom.Edge node target) (node : NodeHandle) :
    dom.Passes [node] := by
  induction hwell.apply node with
  | intro node _ ih =>
    have hbelow : dom.Passes ((lists node).reverse ++ (dom.shadowRoot node).toList) := by
      refine (passes_all fun child hchild => ih child (.inl ?_)).append
        (passes_all fun root hroot => ih root (.inr (.inl ?_)))
      · exact h.parent_iff.mpr (List.mem_reverse.mp hchild)
      · exact Option.mem_toList.mp hroot
    obtain ⟨steps, hsteps⟩ := hbelow
    refine ⟨steps + 1, fun limit stack topmost => ?_⟩
    rw [List.singleton_append, ← Nat.add_assoc, findTopmostModalDialog, h.childNodes,
      Option.bind_eq_bind, Option.bind_some, ← List.append_assoc]
    exact hsteps limit stack _

theorem findTopmostModalDialog_ends {lists : ChildLists} (h : Consistent dom lists)
    (hacyclic : Acyclic dom.Edge) (root : NodeHandle) : ∃ limit, ∀ limit', limit ≤ limit' →
      ∃ found, dom.findTopmostModalDialog limit' [root] none = some found := by
  obtain ⟨steps, hsteps⟩ := passes_node h (Acyclic.wellFounded_edge h hacyclic) root
  refine ⟨steps + 1, fun limit' hle => ?_⟩
  obtain ⟨rest, rfl⟩ := Nat.exists_eq_add_of_le' hle
  obtain ⟨found, hfound⟩ := hsteps (rest + 1) [] none
  refine ⟨found, ?_⟩
  rw [show rest + (steps + 1) = rest + 1 + steps by omega]
  exact hfound

theorem Unread.childNodes (h : Unread dom dom') : dom'.childNodes = dom.childNodes := by
  funext node
  rw [Documents.childNodes, h.links]
  rfl

theorem Unread.topLayerOrder (h : Unread dom dom') : dom'.topLayerOrder = dom.topLayerOrder := by
  funext node
  rw [Documents.topLayerOrder, Documents.topLayerOrder, h.element?, h.presentation]

/-- Reading slots makes no difference to the scan. -/
theorem Unread.findTopmostModalDialog (h : Unread dom dom') : ∀ (limit : Nat)
    (stack : List NodeHandle) (topmost : Option NodeHandle),
    dom'.findTopmostModalDialog limit stack topmost = dom.findTopmostModalDialog limit stack topmost
  | 0, _, _ => rfl
  | _ + 1, [], _ => rfl
  | limit + 1, node :: stack, topmost => by
    have habove : dom'.isAbove = dom.isAbove := by
      funext node other
      rw [isAbove, isAbove, h.topLayerOrder]
    rw [Documents.findTopmostModalDialog, Documents.findTopmostModalDialog, h.isModalDialog,
      h.childNodes, h.shadowRoot, habove]
    simp only [h.findTopmostModalDialog limit]

end Documents

/-! ## The shortcut -/

variable {dom dom' : Documents} {lists : ChildLists} {node : NodeHandle} {limit : Nat}

open Documents

/-- What is counted as no modal dialog is none. -/
theorem Layered.not_isModalDialog (h : Layered dom) (hcount : dom.nextId < 2 ^ 64)
    (hzero : dom.presentation.modalDialogElements = 0) (node : NodeHandle) :
    dom.isModalDialog node = false := by
  have hempty : dom.presentation.modalDialogs dom.nextId = ∅ :=
    Finset.card_eq_zero.mp ((h.counted hcount).symm.trans hzero)
  cases helement : dom.element? node with
  | none => rw [Documents.isModalDialog, helement]; rfl
  | some element =>
    have hborn : node < dom.nextId := h.born node (by rw [helement]; rfl)
    rw [h.isModalDialog, ← Bool.not_eq_true]
    intro hmodal
    have hmem := Presentation.mem_modalDialogs.mpr ⟨hborn, hmodal⟩
    rw [hempty] at hmem
    exact Finset.notMem_empty _ hmem

/-- Without modal dialogs the scan changes nothing and blocks nothing, if it ends. -/
theorem isBlockedByModal_eq {root : NodeHandle} (hmodal : ∀ node, dom.isModalDialog node = false)
    (hrises : dom.Rises node root) {result : Documents × Bool}
    (h : dom.isBlockedByModal limit node = some result) : result = (dom, false) := by
  obtain ⟨⟨between, root'⟩, hroot, h⟩ := Option.bind_eq_some_iff.mp h
  cases hrises.flatTreeRoot_eq hroot
  obtain ⟨found, hfound, h⟩ := Option.bind_eq_some_iff.mp h
  cases findTopmostModalDialog_eq_none hmodal hfound
  exact (Option.some.inj h).symm

/-- What the scan answers, `is_inert` answers too. -/
theorem isInert_of_scan (h : Layered dom) (hcount : dom.nextId < 2 ^ 64)
    {result : Documents × Bool} (hscan : dom.isInertByScan limit node = some result) :
    dom.isInert limit node = some result := by
  obtain ⟨⟨between, found⟩, hfind, hscan⟩ := Option.bind_eq_some_iff.mp hscan
  refine Option.bind_eq_some_iff.mpr ⟨(between, found), hfind, ?_⟩
  dsimp only at hscan ⊢
  cases found with
  | true => exact hscan
  | false =>
    rw [if_neg Bool.false_ne_true] at hscan ⊢
    split
    next hzero =>
      have hunread := unread_findInert hfind
      rw [hunread.presentation] at hzero
      have hmodal := h.not_isModalDialog hcount hzero
      obtain ⟨root, hrises⟩ := rises_of_findInert hmodal hfind
      rw [← hunread.isModalDialog] at hmodal
      rw [isBlockedByModal_eq hmodal hrises hscan]
      rfl
    next => exact hscan

/-- What `is_inert` answers, the scan answers too, if it ends. -/
theorem scan_of_isInert (h : Layered dom) (hconsistent : Consistent dom lists)
    (hcount : dom.nextId < 2 ^ 64) (hacyclic : Acyclic dom.Edge) {result : Documents × Bool}
    (hinert : dom.isInert limit node = some result) :
    ∃ limit', dom.isInertByScan limit' node = some result := by
  obtain ⟨⟨between, found⟩, hfind, hinert⟩ := Option.bind_eq_some_iff.mp hinert
  dsimp only at hinert
  have hsame : (if found then some (between, true) else between.isBlockedByModal limit node) =
      some result → ∃ limit', dom.isInertByScan limit' node = some result :=
    fun hsame => ⟨limit, Option.bind_eq_some_iff.mpr ⟨(between, found), hfind, hsame⟩⟩
  cases found with
  | true => exact hsame hinert
  | false =>
    rw [if_neg Bool.false_ne_true] at hinert
    split at hinert
    next hzero =>
      cases hinert
      have hunread := unread_findInert hfind
      rw [hunread.presentation] at hzero
      have hmodal := h.not_isModalDialog hcount hzero
      obtain ⟨root, hrises⟩ := rises_of_findInert hmodal hfind
      obtain ⟨limitRoot, hroot⟩ := hrises.flatTreeRoot_ends
      obtain ⟨limitScan, hscan⟩ := findTopmostModalDialog_ends hconsistent hacyclic root
      -- The limit is large enough for each of the three loops.
      let larger := limit + limitRoot + limitScan
      obtain ⟨topmost, htopmost⟩ := hscan larger (Nat.le_add_left ..)
      cases findTopmostModalDialog_eq_none hmodal htopmost
      rw [← hunread.findTopmostModalDialog] at htopmost
      refine ⟨larger, Option.bind_eq_some_iff.mpr
        ⟨(between, false), findInert_mono hfind (by omega), ?_⟩⟩
      exact Option.bind_eq_some_iff.mpr ⟨(between, root), hroot larger (by omega),
        Option.bind_eq_some_iff.mpr ⟨none, htopmost, rfl⟩⟩
    next => exact hsame hinert

/-! ## Every run -/

/-- The top layer is in step with the flags, and the shortcut of `is_inert` makes no difference. -/
structure Documents.TopLayerSound (dom : Documents) : Prop where
  order_iff : ∀ node, (dom.topLayerOrder node).isSome ↔
    dom.isPopoverOpen node ∨ dom.isModalDialog node ∨ dom.isFullscreen node
  count_eq : dom.presentation.modalDialogElements = dom.modalDialogs.card
  mem_modalDialogs : ∀ node, node ∈ dom.modalDialogs ↔ dom.isModalDialog node
  isInert_of_scan : ∀ limit node result, dom.isInertByScan limit node = some result →
    dom.isInert limit node = some result
  scan_of_isInert : Acyclic dom.Edge → ∀ limit node result, dom.isInert limit node = some result →
    ∃ limit', dom.isInertByScan limit' node = some result

theorem Layered.order_iff (h : Layered dom) (node : NodeHandle) :
    (dom.topLayerOrder node).isSome ↔
      dom.isPopoverOpen node ∨ dom.isModalDialog node ∨ dom.isFullscreen node := by
  rw [Documents.topLayerOrder, Documents.isPopoverOpen, Documents.isModalDialog,
    Documents.isFullscreen]
  cases dom.element? node with
  | none => simp
  | some element => simp [h.ordered node, TopLayer.shown, or_assoc]

theorem Layered.mem_modalDialogs (h : Layered dom) (node : NodeHandle) :
    node ∈ dom.modalDialogs ↔ dom.isModalDialog node := by
  rw [Documents.modalDialogs, Finset.mem_filter, Finset.mem_range, and_iff_right_iff_imp]
  intro hmodal
  rw [Documents.isModalDialog, Bool.and_eq_true] at hmodal
  exact h.born node hmodal.1

/-- After any calls the top layer is sound, if each node has an address. -/
theorem topLayer_sound (h : dom.Reachable) (hcount : dom.nextId < 2 ^ 64) : dom.TopLayerSound := by
  have hlayered := Layered.reachable h
  obtain ⟨lists, hconsistent⟩ := Consistent.reachable h
  exact {
    order_iff := hlayered.order_iff
    count_eq := by
      rw [hlayered.modalDialogs]
      exact hlayered.counted hcount
    mem_modalDialogs := hlayered.mem_modalDialogs
    isInert_of_scan := fun _ _ _ hscan => isInert_of_scan hlayered hcount hscan
    scan_of_isInert := fun hacyclic _ _ _ hinert =>
      scan_of_isInert hlayered hconsistent hcount hacyclic hinert }

/-- A dialog next to a paragraph, which is shown as a modal dialog and, for a time, as a popover. -/
theorem topLayer_sound_dialog : ∃ dom : Documents, dom.Reachable ∧ dom.nextId < 2 ^ 64 ∧
    dom.TopLayerSound ∧ dom.topLayerOrder 1 = some 0 ∧ dom.isPopoverOpen 1 = false ∧
    dom.presentation.modalDialogElements = 1 ∧ (dom.isInert 9 1).map Prod.snd = some false ∧
    (dom.isInert 9 2).map Prod.snd = some true := by
  let calls : List Mutation := [.create .document, .create (.element (.new "dialog".toList)),
    .create (.element (.new "p".toList)), .tree (.appendChild 0 1), .tree (.appendChild 0 2),
    .present 1 (.setPopoverOpen true), .present 1 (.setModalDialog true),
    .present 1 (.setPopoverOpen false)]
  obtain ⟨steps, hsteps, -⟩ := @Steps.of_performAll 9 calls .initial (.after 9 calls) rfl
  have hcount : (Documents.after 9 calls).nextId < 2 ^ 64 := by decide
  exact ⟨.after 9 calls, ⟨steps, hsteps⟩, hcount, topLayer_sound ⟨steps, hsteps⟩ hcount,
    by decide, by decide, by decide, by decide, by decide⟩

end Omoikane.Dom.Live
