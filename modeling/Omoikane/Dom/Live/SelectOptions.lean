import Omoikane.Dom.Live.FindSlot
import Omoikane.Dom.Live.Select

/-!
# The options of a select

What the loops over options read: the options of a select (`options`), the nearest select of a node
(`owner`), and whether an option is disabled.  Between an option of a select and that select there are
only elements that both loops go through, and at most one of them is an `optgroup`; so the options of a
select are those that it owns (`mem_options_iff`), in a tree where only elements are below elements.
-/

namespace Omoikane.Dom.Live

open Base Relation

/-- Both loops go through elements in these roles. -/
def Role.Inner : Role → Prop
  | .optgroup | .selectedContent | .other => True
  | .select | .option | .barrier | .notElement => False

/-- Nodes that have children in a tree: documents, fragments and elements. -/
def NodeData.Parental : NodeData → Prop
  | .document | .documentFragment | .shadowRoot _ | .element _ => True
  | .text | .comment | .processingInstruction | .documentType => False

/-- Nodes that have a parent in a tree: all but documents and fragments. -/
def NodeData.Filial : NodeData → Prop
  | .document | .documentFragment | .shadowRoot _ => False
  | .element _ | .text | .comment | .processingInstruction | .documentType => True

namespace Documents

variable (dom : Documents)

/-- The nearest ancestor select of a node. -/
noncomputable def owner (node : NodeHandle) : Option NodeHandle :=
  meetAll dom.meetSelect (fun _ => none) false (above dom.parentNode node)

open Classical in
/-- The options of a select, in tree order. -/
noncomputable def options (select : NodeHandle) : List NodeHandle :=
  if h : ∃ options, Descended dom.children dom.meetOption false (dom.children select) options then
    h.choose
  else []

/-- Whether an option is disabled, by itself or its `optgroup`. -/
noncomputable def disabled (option : NodeHandle) : Bool :=
  dom.hasDisabledAttribute option ||
    meetAll dom.meetDisabled (fun _ => false) () (above dom.parentNode option)

/-- How many of some nodes are an `optgroup`. -/
def optgroups (nodes : List NodeHandle) : Nat := nodes.countP (dom.role · = .optgroup)

end Documents

/-- Documents whose nodes are linked as a tree has them. -/
structure TreeShaped (dom : Documents) : Prop where
  consistent : ∃ lists, Consistent dom lists
  shaped : ∀ child parent, dom.parentNode child = some parent →
    (dom.data child).Filial ∧ (dom.data parent).Parental

section

variable {dom : Documents} {lists : ChildLists} {limit : Nat} {node select option : NodeHandle}

/-! ## What the loops give -/

namespace Consistent

/-- Going over the siblings after a child. -/
theorem siblingsFrom (h : Consistent dom lists) : ∀ {rest pre : List NodeHandle},
    lists node = pre ++ rest → Settles (dom.siblingsFrom · rest.head?) rest
  | [], _, _ => .of_succ rfl (.pure [])
  | child :: rest, pre, hlist => by
    refine .of_succ rfl ?_
    have hnext := (h.linked.integrity.siblings node pre child rest hlist).2
    have hrest := h.siblingsFrom (hlist.trans (List.append_cons pre child rest))
    simp only [List.head?_cons, Documents.siblingsFrom, hnext]
    exact hrest.map _

theorem childrenFrom (h : Consistent dom lists) (node : NodeHandle) :
    Settles (dom.childrenFrom · node) (lists node) := by
  have hfirst : dom.links.firstChild node = (lists node).head? := h.linked.integrity.firstChild node
  simp only [Documents.childrenFrom, hfirst]
  exact h.siblingsFrom (List.nil_append _).symm

theorem nearestAncestorSelect (h : Consistent dom lists) (node : NodeHandle) :
    Settles (dom.nearestAncestorSelect · node) (dom.owner node) := h.rooted.ascend false node

theorem selectedContentSelect (h : Consistent dom lists) (node : NodeHandle) :
    ∃ select, Settles (dom.selectedContentSelect · node) select := ⟨_, h.rooted.ascend none node⟩

theorem optionOrOptgroupIsDisabled (h : Consistent dom lists) (option : NodeHandle) :
    Settles (dom.optionOrOptgroupIsDisabled · option) (dom.disabled option) := by
  unfold Documents.optionOrOptgroupIsDisabled Documents.disabled
  cases dom.hasDisabledAttribute option with
  | true => exact .pure true
  | false => exact h.rooted.ascend () option

theorem descended (h : Consistent dom lists) (select : NodeHandle) :
    Descended lists dom.meetOption false (lists select) (dom.options select) := by
  have hexists : ∃ options, Descended dom.children dom.meetOption false (dom.children select) options := by
    rw [h.children_eq]
    exact Descended.exists_of_wellFounded h.wellFounded_children false (lists select)
  rw [Documents.options, dif_pos hexists, ← h.children_eq]
  exact hexists.choose_spec

theorem listOfOptions (h : Consistent dom lists) (select : NodeHandle) :
    Settles (dom.listOfOptions · select) (dom.options select) :=
  (h.childrenFrom select).bind ((h.descended select).settles h.childrenFrom fun _ _ => .pure _)

theorem nodup_options (h : Consistent dom lists) (select : NodeHandle) :
    (dom.options select).Nodup := by
  have hself : ∀ inside node, ((dom.meetOption inside node).1).Sublist [node] := by
    intro inside node
    unfold Documents.meetOption
    split <;> simp
  exact ((h.descended select).sublist hself (h.treeOrder select)).nodup (h.nodup_descendants select)

end Consistent

/-! ## Ways between an option and its select -/

theorem meetOption_below {inside inside' : Bool} : (dom.meetOption inside node).2 = some inside' ↔
    (dom.role node).Inner ∧
      (if dom.role node = .optgroup then 1 else 0) + inside.toNat = inside'.toNat := by
  unfold Documents.meetOption
  cases dom.role node <;> cases inside <;> cases inside' <;> simp [Role.Inner]

theorem meetSelect_inr {seen seen' : Bool} : dom.meetSelect seen node = .inr seen' ↔
    ((dom.role node).Inner ∨ dom.role node = .notElement) ∧
      (if dom.role node = .optgroup then 1 else 0) + seen.toNat = seen'.toNat := by
  unfold Documents.meetSelect
  cases dom.role node <;> cases seen <;> cases seen' <;> simp [Role.Inner]

theorem meetSelect_inl {seen : Bool} : dom.meetSelect seen node = .inl (some select) ↔
    dom.role node = .select ∧ node = select := by
  unfold Documents.meetSelect
  cases dom.role node <;> cases seen <;> simp

/-- At most one is a flag. -/
theorem toNat_decide_pos {n : Nat} (h : n ≤ 1) : (decide (0 < n)).toNat = n := by
  cases n with
  | zero => rfl
  | succ n => rw [Nat.le_zero.mp (Nat.le_of_succ_le_succ h)]; rfl

theorem stateBelow_meetOption {inside inside' : Bool} {between : List NodeHandle} :
    stateBelow dom.meetOption inside between = some inside' ↔
      (∀ node ∈ between, (dom.role node).Inner) ∧
        dom.optgroups between + inside.toNat = inside'.toNat := by
  induction between generalizing inside' with
  | nil => cases inside <;> cases inside' <;> simp [Documents.optgroups]
  | cons node between ih =>
    have hcons : stateBelow dom.meetOption inside (node :: between) =
        (stateBelow dom.meetOption inside between).bind fun inside =>
          (dom.meetOption inside node).2 := rfl
    rw [hcons, Option.bind_eq_some_iff, List.forall_mem_cons, Documents.optgroups, List.countP_cons]
    simp only [ih, meetOption_below, Documents.optgroups, decide_eq_true_eq]
    constructor
    · rintro ⟨between', ⟨hinner, hcount⟩, hnode, hstep⟩
      exact ⟨⟨hnode, hinner⟩, by omega⟩
    · rintro ⟨⟨hnode, hinner⟩, hcount⟩
      have hle := inside'.toNat_le
      have hbefore : List.countP (dom.role · = .optgroup) between + inside.toNat ≤ 1 := by omega
      refine ⟨_, ⟨hinner, (toNat_decide_pos hbefore).symm⟩, hnode, ?_⟩
      rw [toNat_decide_pos hbefore]
      omega

/-- A node is an option of a select if it is one below it, past elements that the loop goes through. -/
theorem Consistent.mem_options (h : Consistent dom lists) : option ∈ dom.options select ↔
    dom.role option = .option ∧ ∃ child between, Way dom.parentNode option between child ∧
      dom.parentNode child = some select ∧ (∀ node ∈ between, (dom.role node).Inner) ∧
        dom.optgroups between ≤ 1 := by
  have hmet : ∀ {inside : Bool} {node : NodeHandle}, option ∈ (dom.meetOption inside node).1 ↔
      dom.role option = .option ∧ node = option := by
    intro inside node
    unfold Documents.meetOption
    split
    next hrole =>
      rw [List.mem_singleton]
      exact ⟨fun heq => ⟨heq ▸ hrole, heq.symm⟩, fun heq => heq.2.symm⟩
    all_goals
      next hrole =>
        refine iff_of_false List.not_mem_nil fun heq => ?_
        rw [heq.2, heq.1] at hrole
        simp at hrole
  rw [(h.descended select).mem_iff fun child parent => h.parent_iff.symm]
  simp only [hmet, stateBelow_meetOption]
  constructor
  · rintro ⟨child, hchild, node, between, inside, hway, ⟨hinner, hcount⟩, hrole, rfl⟩
    have hle := inside.toNat_le
    refine ⟨hrole, child, between, hway, h.parent_iff.mpr hchild, hinner, ?_⟩
    simp only [Bool.toNat_false] at hcount
    omega
  · rintro ⟨hrole, child, between, hway, hchild, hinner, hcount⟩
    exact ⟨child, h.parent_iff.mp hchild, option, between, _, hway,
      ⟨hinner, (toNat_decide_pos hcount).symm⟩, hrole, rfl⟩

/-- The loop finds a select above a node, past elements that it goes through. -/
theorem Consistent.meetSelect_eq_some (h : Consistent dom lists) {seen : Bool} :
    meetAll dom.meetSelect (fun _ => none) seen (above dom.parentNode option) = some select ↔
      dom.role select = .select ∧ ∃ child between, Way dom.parentNode option between child ∧
        dom.parentNode child = some select ∧
        (∀ node ∈ between, (dom.role node).Inner ∨ dom.role node = .notElement) ∧
          dom.optgroups between + seen.toNat ≤ 1 := by
  obtain ⟨chain, hchain⟩ := h.rooted option
  induction hchain generalizing seen with
  | @top option hnone =>
    rw [Rooted.above_top hnone]
    refine iff_of_false (fun heq => by cases heq) ?_
    rintro ⟨-, child, between, hway, hchild, -⟩
    cases hway with
    | refl => rw [hnone] at hchild; cases hchild
    | step hsome => rw [hnone] at hsome; cases hsome
  | @step option parent _ hsome _ ih =>
    rw [h.rooted.above_step hsome, meetAll]
    constructor
    · intro hmeet
      split at hmeet
      next result hresult =>
        subst hmeet
        obtain ⟨hrole, rfl⟩ := meetSelect_inl.mp hresult
        refine ⟨hrole, option, [], .refl, hsome, List.forall_mem_nil _, ?_⟩
        exact (Nat.zero_add _).le.trans seen.toNat_le
      next seen' hseen =>
        obtain ⟨hinner, hcount⟩ := meetSelect_inr.mp hseen
        obtain ⟨hrole, child, between, hway, hchild, hbetween, hcount'⟩ := ih.mp hmeet
        refine ⟨hrole, child, parent :: between, .step hsome hway, hchild,
          List.forall_mem_cons.mpr ⟨hinner, hbetween⟩, ?_⟩
        rw [Documents.optgroups, List.countP_cons] at *
        simp only [decide_eq_true_eq]
        omega
    · rintro ⟨hrole, child, between, hway, hchild, hbetween, hcount⟩
      cases hway with
      | refl =>
        rw [hsome] at hchild
        cases hchild
        rw [meetSelect_inl.mpr ⟨hrole, rfl⟩]
      | @step _ parent' _ between hparent hway =>
        rw [hsome] at hparent
        cases hparent
        obtain ⟨hinner, hbetween⟩ := List.forall_mem_cons.mp hbetween
        rw [Documents.optgroups, List.countP_cons] at hcount
        simp only [decide_eq_true_eq] at hcount
        have hseen := toNat_decide_pos (n := (if dom.role parent = .optgroup then 1 else 0) +
          seen.toNat) (by omega)
        rw [meetSelect_inr.mpr ⟨hinner, hseen.symm⟩]
        refine ih.mpr ⟨hrole, child, between, hway, hchild, hbetween, ?_⟩
        rw [Documents.optgroups, hseen]
        omega

theorem Consistent.owner_eq_some (h : Consistent dom lists) : dom.owner option = some select ↔
    dom.role select = .select ∧ ∃ child between, Way dom.parentNode option between child ∧
      dom.parentNode child = some select ∧
      (∀ node ∈ between, (dom.role node).Inner ∨ dom.role node = .notElement) ∧
        dom.optgroups between ≤ 1 := h.meetSelect_eq_some

/-- The options of a select have no other. -/
theorem Consistent.owner_of_mem (h : Consistent dom lists) (hselect : dom.role select = .select)
    (hoption : option ∈ dom.options select) : dom.owner option = some select := by
  obtain ⟨-, child, between, hway, hchild, hinner, hcount⟩ := h.mem_options.mp hoption
  exact h.owner_eq_some.mpr ⟨hselect, child, between, hway, hchild, fun node hnode =>
    .inl (hinner node hnode), hcount⟩

theorem Consistent.role_of_mem (h : Consistent dom lists) (hoption : option ∈ dom.options select) :
    dom.role option = .option := (h.mem_options.mp hoption).1

theorem Consistent.role_of_owner (h : Consistent dom lists) (howner : dom.owner node = some select) :
    dom.role select = .select := (h.owner_eq_some.mp howner).1

/-! ## Trees -/

/-- A node that may have both a parent and children is an element. -/
theorem role_ne_notElement (hfilial : (dom.data node).Filial) (hparental : (dom.data node).Parental) :
    dom.role node ≠ .notElement := by
  unfold Documents.role
  cases hdata : dom.data node with
  | element element =>
    dsimp only
    unfold Element.role
    repeat' split
    all_goals nofun
  | _ => rw [hdata] at hparental hfilial; first | exact hfilial.elim | exact hparental.elim

namespace TreeShaped

/-- Between two nodes there are only elements. -/
theorem element_between (h : TreeShaped dom) {child parent : NodeHandle}
    (hchild : dom.parentNode child = some node) (hparent : dom.parentNode node = some parent) :
    dom.role node ≠ .notElement :=
  role_ne_notElement (h.shaped node parent hparent).1 (h.shaped child node hchild).2

/-- The options of a select are those that it owns. -/
theorem mem_options_iff (h : TreeShaped dom) (hselect : dom.role select = .select) :
    option ∈ dom.options select ↔ dom.role option = .option ∧ dom.owner option = some select := by
  obtain ⟨lists, hcons⟩ := h.consistent
  refine ⟨fun hoption => ⟨hcons.role_of_mem hoption, hcons.owner_of_mem hselect hoption⟩, ?_⟩
  rintro ⟨hrole, howner⟩
  obtain ⟨-, child, between, hway, hchild, hinner, hcount⟩ := hcons.owner_eq_some.mp howner
  refine hcons.mem_options.mpr ⟨hrole, child, between, hway, hchild, fun node hnode => ?_, hcount⟩
  refine (hinner node hnode).resolve_right ?_
  obtain ⟨⟨below, hbelow⟩, hleads⟩ := hway.of_mem hnode
  rcases ReflTransGen.cases_head hleads with rfl | ⟨parent, hparent, -⟩
  · exact h.element_between hbelow hchild
  · exact h.element_between hbelow hparent

end TreeShaped

end

end Omoikane.Dom.Live
