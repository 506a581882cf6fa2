import Omoikane.Dom.LinkedNodes

/-!
# What the operations do to the links

`Linked nodes lists` says that the nodes hold the child lists `lists`: the slots of each node are
those of its list, each child holds its slot and its parent, and the walk up from every node ends.
Each operation on the nodes is one on the lists.  An operation that returns nothing has met a
revision that cannot be raised (`Fresh`).
-/

namespace Omoikane.Dom

open Base

/-- The children of every node, in order. -/
abbrev ChildLists := NodeHandle → List NodeHandle

/-- A list of children with one more in front of a reference child, or at the end. -/
def placeAt (new : NodeHandle) : Option NodeHandle → List NodeHandle → List NodeHandle
  | some reference, children => placeBefore new reference children
  | none, children => children ++ [new]

/-- The nodes hold some child lists. -/
structure Linked (nodes : LinkedNodes) (lists : ChildLists) : Prop where
  entries : ∀ node, ∃ entries, Holds (nodes node).children entries ∧
    entries.map Prod.snd = lists node ∧ ∀ entry ∈ entries, (nodes entry.2).parentSlot = entry.1
  nodup : ∀ node, (lists node).Nodup
  parent_iff : ∀ child node, nodes.parentNode child = some node ↔ child ∈ lists node
  rooted : Rooted nodes.parentNode

/-- Every revision can be raised so many times. -/
def Fresh (nodes : LinkedNodes) (times : Nat) : Prop :=
  ∀ node, (nodes node).mutationRevision + times < 2 ^ 64 ∧
    (nodes node).parentRevision + times < 2 ^ 64

/-- The mutation revisions of the nodes that meet `Touched` are raised once, the others stay, and no
parent revision is raised more than once. -/
structure Advances (nodes nodes' : LinkedNodes) (Touched : NodeHandle → Prop) : Prop where
  touched : ∀ node, Touched node →
    (nodes' node).mutationRevision = (nodes node).mutationRevision + 1
  others : ∀ node, ¬ Touched node →
    (nodes' node).mutationRevision = (nodes node).mutationRevision
  parent : ∀ node, (nodes' node).parentRevision ≤ (nodes node).parentRevision + 1

theorem Advances.le {nodes nodes' : LinkedNodes} {Touched : NodeHandle → Prop}
    (h : Advances nodes nodes' Touched) (node : NodeHandle) :
    (nodes node).mutationRevision ≤ (nodes' node).mutationRevision ∧
      (nodes' node).mutationRevision ≤ (nodes node).mutationRevision + 1 := by
  by_cases hnode : Touched node
  · rw [h.touched node hnode]
    exact ⟨Nat.le_succ _, Nat.le_refl _⟩
  · rw [h.others node hnode]
    exact ⟨Nat.le_refl _, Nat.le_succ _⟩

theorem Fresh.advance {nodes nodes' : LinkedNodes} {Touched : NodeHandle → Prop} {times : Nat}
    (h : Fresh nodes (times + 1)) (hadvances : Advances nodes nodes' Touched) :
    Fresh nodes' times := by
  intro node
  have hmutation := (hadvances.le node).2
  have hparent := hadvances.parent node
  have hfresh := h node
  omega

theorem nextRevision_eq_none {revision : Nat} (h : nextRevision revision = none) :
    ¬ revision + 1 < 2 ^ 64 := by
  intro hlt
  rw [nextRevision, if_pos hlt] at h
  cases h

theorem nextRevision_eq_some {revision next : Nat} (h : nextRevision revision = some next) :
    next = revision + 1 := by
  unfold nextRevision at h
  split at h
  · exact (Option.some.inj h).symm
  · cases h

namespace Linked

variable {nodes nodes' : LinkedNodes} {lists : ChildLists} {node child : NodeHandle}

/-- No node is its own child. -/
theorem ne (h : Linked nodes lists) (hchild : child ∈ lists node) : child ≠ node := by
  intro heq
  rw [heq] at hchild
  exact h.rooted.irreflexive (.single ((h.parent_iff node node).mpr hchild))

/-- A node is the child of one node. -/
theorem not_mem (h : Linked nodes lists) (hchild : child ∈ lists node) {other : NodeHandle}
    (hne : other ≠ node) : child ∉ lists other := by
  intro hother
  have hnode := (h.parent_iff child node).mpr hchild
  rw [(h.parent_iff child other).mpr hother] at hnode
  exact hne (Option.some.inj hnode)

/-- The slot of a child, among those of its siblings. -/
theorem childSlot_of_mem (h : Linked nodes lists) (hchild : child ∈ lists node) :
    ∃ pre slot post, Holds (nodes node).children (pre ++ (slot, child) :: post) ∧
      (pre ++ (slot, child) :: post).map Prod.snd = lists node ∧
      (∀ entry ∈ pre ++ (slot, child) :: post, (nodes entry.2).parentSlot = entry.1) ∧
      nodes.childSlot node child = some slot := by
  obtain ⟨entries, hholds, hmap, hslots⟩ := h.entries node
  rw [← hmap] at hchild
  obtain ⟨⟨slot, other⟩, hentry, hother⟩ := List.mem_map.mp hchild
  have hother : other = child := hother
  rw [hother] at hentry
  obtain ⟨pre, post, rfl⟩ := List.append_of_mem hentry
  refine ⟨pre, slot, post, hholds, hmap, hslots, ?_⟩
  have hslot : (nodes child).parentSlot = slot := hslots _ hentry
  rw [LinkedNodes.childSlot, hslot, hholds.getSlot_iff.mpr hentry]
  exact if_pos rfl

theorem childSlot_of_not_mem (h : Linked nodes lists) (hchild : child ∉ lists node) :
    nodes.childSlot node child = none := by
  obtain ⟨entries, hholds, hmap, -⟩ := h.entries node
  refine if_neg fun hslot => hchild ?_
  rw [← hmap]
  exact List.mem_map.mpr ⟨_, hholds.getSlot_iff.mp hslot, rfl⟩

/-- The links of one child are cut. -/
theorem unlink (h : Linked nodes lists) {pre post : List (Nat × NodeHandle)} {slot : Nat}
    (hmap : (pre ++ (slot, child) :: post).map Prod.snd = lists node)
    (hslots : ∀ entry ∈ pre ++ (slot, child) :: post, (nodes entry.2).parentSlot = entry.1)
    (hholds : Holds (nodes' node).children (pre ++ post))
    (hchildren : ∀ other, other ≠ node → (nodes' other).children = (nodes other).children)
    (hparent : (nodes' child).parent = none)
    (hothers : ∀ other, other ≠ child → (nodes' other).parent = (nodes other).parent ∧
      (nodes' other).parentSlot = (nodes other).parentSlot) :
    Linked nodes' (Function.update lists node ((lists node).erase child)) := by
  have hmem : child ∈ lists node := by
    rw [← hmap]
    exact List.mem_map.mpr ⟨_, List.mem_append_right _ List.mem_cons_self, rfl⟩
  have hsplit : pre.map Prod.snd ++ child :: post.map Prod.snd = lists node := by
    rw [← hmap, List.map_append, List.map_cons]
  have hnodup := h.nodup node
  rw [← hsplit] at hnodup
  have hpre : child ∉ pre.map Prod.snd := fun hm =>
    (List.nodup_append.mp hnodup).2.2 _ hm _ List.mem_cons_self rfl
  have herase : (lists node).erase child = (pre ++ post).map Prod.snd := by
    rw [← hsplit, List.erase_append_right _ hpre, List.erase_cons_head, List.map_append]
  have hkept : ∀ entry ∈ pre ++ post, entry.2 ≠ child := by
    intro entry hentry heq
    have hgone : child ∉ (lists node).erase child := (h.nodup node).not_mem_erase
    rw [herase] at hgone
    exact hgone (heq ▸ List.mem_map_of_mem hentry)
  refine ⟨fun other => ?_, fun other => ?_, fun c other => ?_, ?_⟩
  · by_cases hother : other = node
    · rw [hother, Function.update_self]
      refine ⟨pre ++ post, hholds, herase.symm, fun entry hentry => ?_⟩
      rw [(hothers _ (hkept entry hentry)).2]
      exact hslots entry (((List.sublist_cons_self ..).append_left pre).subset hentry)
    · obtain ⟨entries, hentries, hlists, hslots'⟩ := h.entries other
      rw [Function.update_of_ne hother, hchildren other hother]
      refine ⟨entries, hentries, hlists, fun entry hentry => ?_⟩
      have hne : entry.2 ≠ child := by
        rintro rfl
        exact h.not_mem hmem hother (hlists ▸ List.mem_map_of_mem hentry)
      rw [(hothers _ hne).2]
      exact hslots' entry hentry
  · by_cases hother : other = node
    · rw [hother, Function.update_self]
      exact (h.nodup node).erase _
    · rw [Function.update_of_ne hother]
      exact h.nodup other
  · by_cases hc : c = child
    · rw [hc, LinkedNodes.parentNode, hparent]
      refine ⟨nofun, fun hm => ?_⟩
      by_cases hother : other = node
      · rw [hother, Function.update_self] at hm
        exact ((h.nodup node).not_mem_erase hm).elim
      · rw [Function.update_of_ne hother] at hm
        exact (h.not_mem hmem hother hm).elim
    · rw [LinkedNodes.parentNode, (hothers c hc).1]
      refine (h.parent_iff c other).trans ?_
      by_cases hother : other = node
      · rw [hother, Function.update_self, List.mem_erase_of_ne hc]
      · rw [Function.update_of_ne hother]
  · have hup : nodes'.parentNode = Function.update nodes.parentNode child none := by
      funext c
      by_cases hc : c = child
      · rw [hc, Function.update_self, LinkedNodes.parentNode, hparent]
      · rw [Function.update_of_ne hc]
        exact (hothers c hc).1
    rw [hup]
    exact h.rooted.cut child

/-- A node without a parent is linked among the children of a node that is not below it. -/
theorem link (h : Linked nodes lists) {pre post : List (Nat × NodeHandle)} {index : Nat}
    {chain : List NodeHandle} (hchain : Ascends nodes.parentNode node chain)
    (hbelow : child ∉ chain) (hfree : nodes.parentNode child = none)
    (hmap : (pre ++ post).map Prod.snd = lists node)
    (hslots : ∀ entry ∈ pre ++ post, (nodes entry.2).parentSlot = entry.1)
    (hholds : Holds (nodes' node).children (pre ++ (index, child) :: post))
    (hchildren : ∀ other, other ≠ node → (nodes' other).children = (nodes other).children)
    (hparent : (nodes' child).parent = some node) (hslot : (nodes' child).parentSlot = index)
    (hothers : ∀ other, other ≠ child → (nodes' other).parent = (nodes other).parent ∧
      (nodes' other).parentSlot = (nodes other).parentSlot) :
    Linked nodes' (Function.update lists node
      (pre.map Prod.snd ++ child :: post.map Prod.snd)) := by
  have hnone : ∀ other, child ∉ lists other := by
    intro other hm
    rw [(h.parent_iff child other).mpr hm] at hfree
    cases hfree
  have hsplit : pre.map Prod.snd ++ post.map Prod.snd = lists node := by
    rw [← hmap, List.map_append]
  have hperm : (pre.map Prod.snd ++ child :: post.map Prod.snd).Perm (child :: lists node) := by
    rw [← hsplit]
    exact List.perm_middle
  refine ⟨fun other => ?_, fun other => ?_, fun c other => ?_, ?_⟩
  · by_cases hother : other = node
    · rw [hother, Function.update_self]
      refine ⟨_, hholds, by rw [List.map_append, List.map_cons], fun entry hentry => ?_⟩
      rcases List.mem_cons.mp (List.perm_middle.mem_iff.mp hentry) with rfl | hold
      · exact hslot
      · have hne : entry.2 ≠ child := by
          rintro rfl
          exact hnone node (hmap ▸ List.mem_map_of_mem hold)
        rw [(hothers _ hne).2]
        exact hslots entry hold
    · obtain ⟨entries, hentries, hlists, hslots'⟩ := h.entries other
      rw [Function.update_of_ne hother, hchildren other hother]
      refine ⟨entries, hentries, hlists, fun entry hentry => ?_⟩
      have hne : entry.2 ≠ child := by
        rintro rfl
        exact hnone other (hlists ▸ List.mem_map_of_mem hentry)
      rw [(hothers _ hne).2]
      exact hslots' entry hentry
  · by_cases hother : other = node
    · rw [hother, Function.update_self, hperm.nodup_iff]
      exact List.nodup_cons.mpr ⟨hnone node, h.nodup node⟩
    · rw [Function.update_of_ne hother]
      exact h.nodup other
  · by_cases hc : c = child
    · rw [hc, LinkedNodes.parentNode, hparent]
      constructor
      · rintro ⟨⟩
        rw [Function.update_self]
        exact List.mem_append_right _ List.mem_cons_self
      · intro hm
        by_cases hother : other = node
        · rw [hother]
        · rw [Function.update_of_ne hother] at hm
          exact (hnone other hm).elim
    · rw [LinkedNodes.parentNode, (hothers c hc).1]
      refine (h.parent_iff c other).trans ?_
      by_cases hother : other = node
      · rw [hother, Function.update_self, hperm.mem_iff, List.mem_cons]
        exact (or_iff_right hc).symm
      · rw [Function.update_of_ne hother]
  · have hup : nodes'.parentNode = Function.update nodes.parentNode child (some node) := by
      funext c
      by_cases hc : c = child
      · rw [hc, Function.update_self, LinkedNodes.parentNode, hparent]
      · rw [Function.update_of_ne hc]
        exact (hothers c hc).1
    rw [hup]
    exact h.rooted.link hchain hbelow

/-! ## Removal -/

theorem removeChild_of_not_mem (h : Linked nodes lists) (hchild : child ∉ lists node) :
    nodes.removeChild node child = some (nodes, .error .childNotFound) := by
  rw [LinkedNodes.removeChild, h.childSlot_of_not_mem hchild]

/-- A child is removed, unless a revision cannot be raised. -/
theorem removeChild_of_mem (h : Linked nodes lists) (hchild : child ∈ lists node) :
    (nodes.removeChild node child = none ∧ ¬ Fresh nodes 1) ∨
      ∃ nodes', nodes.removeChild node child = some (nodes', .ok child) ∧
        Linked nodes' (Function.update lists node ((lists node).erase child)) ∧
        nodes'.parentNode child = none ∧ Advances nodes nodes' (· = node) := by
  obtain ⟨pre, slot, post, hholds, hmap, hslots, hslot⟩ := h.childSlot_of_mem hchild
  obtain ⟨children', hremove, hholds'⟩ := hholds.remove
  have hne : child ≠ node := h.ne hchild
  rw [LinkedNodes.removeChild, hslot]
  simp only [Option.bind_eq_bind, hremove, Option.bind_some, LinkedNodes.bumpMutationRevision,
    LinkedNodes.setChildren, Function.update_self, Function.update_idem]
  cases hmutation : nextRevision (nodes node).mutationRevision with
  | none =>
    exact .inl ⟨rfl, fun hfresh => nextRevision_eq_none hmutation (hfresh node).1⟩
  | some mutationRevision =>
    simp only [Option.map_some, Option.bind_some, LinkedNodes.setParentLink,
      Function.update_of_ne hne]
    cases hrevision : nextRevision (nodes child).parentRevision with
    | none =>
      exact .inl ⟨rfl, fun hfresh => nextRevision_eq_none hrevision (hfresh child).2⟩
    | some parentRevision =>
      simp only [Option.map_some, Option.bind_some]
      refine .inr ⟨_, rfl, ?_, ?_, ?_⟩
      · refine h.unlink hmap hslots ?_ (fun other hother => ?_) ?_ fun other hother => ?_
        · rw [Function.update_of_ne (Ne.symm hne), Function.update_self]
          exact hholds'
        · by_cases hc : other = child
          · rw [hc, Function.update_self]
          · rw [Function.update_of_ne hc, Function.update_of_ne hother]
        · rw [Function.update_self]
        · rw [Function.update_of_ne hother]
          by_cases hn : other = node
          · rw [hn, Function.update_self]
            exact ⟨rfl, rfl⟩
          · rw [Function.update_of_ne hn]
            exact ⟨rfl, rfl⟩
      · rw [LinkedNodes.parentNode, Function.update_self]
      · refine ⟨fun other hother => ?_, fun other hother => ?_, fun other => ?_⟩
        · rw [hother, Function.update_of_ne (Ne.symm hne), Function.update_self]
          exact nextRevision_eq_some hmutation
        · by_cases hc : other = child
          · rw [hc, Function.update_self]
          · rw [Function.update_of_ne hc, Function.update_of_ne hother]
        · by_cases hc : other = child
          · rw [hc, Function.update_self]
            exact Nat.le_of_eq (nextRevision_eq_some hrevision)
          · rw [Function.update_of_ne hc]
            by_cases hn : other = node
            · rw [hn, Function.update_self]
              exact Nat.le_succ _
            · rw [Function.update_of_ne hn]
              exact Nat.le_succ _

/-- A node is taken out of the list it is in, if it is in one. -/
theorem detachFromParent (h : Linked nodes lists) (child : NodeHandle) :
    (nodes.detachFromParent child = none ∧ ¬ Fresh nodes 1) ∨
      ∃ nodes', nodes.detachFromParent child = some nodes' ∧
        Linked nodes' (fun node => (lists node).erase child) ∧
        nodes'.parentNode child = none ∧ Advances nodes nodes' (child ∈ lists ·) := by
  rw [LinkedNodes.detachFromParent]
  cases hparent : nodes.parentNode child with
  | none =>
    have hnone : ∀ node, child ∉ lists node := by
      intro node hm
      rw [(h.parent_iff child node).mpr hm] at hparent
      cases hparent
    have hlists : (fun node => (lists node).erase child) = lists :=
      funext fun node => List.erase_of_not_mem (hnone node)
    rw [hlists]
    exact .inr ⟨nodes, rfl, h, hparent, fun node hm => (hnone node hm).elim,
      fun _ _ => rfl, fun _ => Nat.le_succ _⟩
  | some parent =>
    have hmem := (h.parent_iff child parent).mp hparent
    have hlists : (fun node => (lists node).erase child) =
        Function.update lists parent ((lists parent).erase child) := by
      funext node
      by_cases hnode : node = parent
      · rw [hnode, Function.update_self]
      · rw [Function.update_of_ne hnode, List.erase_of_not_mem (h.not_mem hmem hnode)]
    rw [hlists]
    rcases h.removeChild_of_mem hmem with ⟨hnone, hfresh⟩ | ⟨nodes', hsome, hlinked, hfree, hadv⟩
    · exact .inl ⟨by simp only [hnone, Option.map_none], hfresh⟩
    · refine .inr ⟨nodes', by simp only [hsome, Option.map_some], hlinked, hfree, ?_⟩
      refine ⟨fun node hm => hadv.touched node ?_, fun node hm => hadv.others node ?_,
        hadv.parent⟩
      · by_contra hne
        exact h.not_mem hmem hne hm
      · rintro rfl
        exact hm hmem

/-! ## Insertion -/

/-- A node without a parent is put in front of a child, or after the last one. -/
theorem linkBefore (h : Linked nodes lists) {chain : List NodeHandle}
    (hchain : Ascends nodes.parentNode node chain) (hbelow : child ∉ chain)
    (hfree : nodes.parentNode child = none) {reference : Option NodeHandle} {slot : Option Nat}
    (hslot : slot = reference.bind (nodes.childSlot node))
    (hreference : ∀ other, reference = some other → other ∈ lists node) :
    (nodes.linkBefore node child slot = none ∧ ¬ Fresh nodes 1) ∨
      ∃ nodes', nodes.linkBefore node child slot = some nodes' ∧
        Linked nodes' (Function.update lists node (placeAt child reference (lists node))) ∧
        Advances nodes nodes' (· = node) := by
  have hne : child ≠ node := by
    rintro rfl
    exact hbelow hchain.mem_self
  -- where the child goes, among the entries of the node
  obtain ⟨pre, post, index, children', hmap, hslots, hplaced, hholds, hlist⟩ :
      ∃ pre post index children', (pre ++ post).map Prod.snd = lists node ∧
        (∀ entry ∈ pre ++ post, (nodes entry.2).parentSlot = entry.1) ∧
        (nodes node).children.insert child slot = some (index, children') ∧
        Holds children' (pre ++ (index, child) :: post) ∧
        placeAt child reference (lists node) = pre.map Prod.snd ++ child :: post.map Prod.snd := by
    cases reference with
    | none =>
      obtain ⟨entries, hholds, hmap, hslots⟩ := h.entries node
      obtain ⟨index, children', hpush, -, hholds'⟩ := hholds.push child
      subst hslot
      refine ⟨entries, [], index, children', ?_, ?_, hpush, hholds', ?_⟩
      · rw [List.append_nil, hmap]
      · rw [List.append_nil]
        exact hslots
      · rw [hmap]
        rfl
    | some other =>
      obtain ⟨pre, slot', post, hholds, hmap, hslots, hslot'⟩ :=
        h.childSlot_of_mem (hreference other rfl)
      obtain ⟨index, children', hinsert, -, hholds'⟩ := hholds.insertBefore child
      rw [Option.bind_some, hslot'] at hslot
      subst hslot
      refine ⟨pre, (slot', other) :: post, index, children', hmap, hslots, hinsert, hholds', ?_⟩
      have hnodup := h.nodup node
      rw [← hmap, List.map_append, List.map_cons] at hnodup ⊢
      exact Nodes.placeBefore_append fun hm =>
        (List.nodup_append.mp hnodup).2.2 _ hm _ List.mem_cons_self rfl
  rw [hlist, LinkedNodes.linkBefore]
  simp only [Option.bind_eq_bind, LinkedNodes.setParentLink]
  cases hrevision : nextRevision (nodes child).parentRevision with
  | none => exact .inl ⟨rfl, fun hfresh => nextRevision_eq_none hrevision (hfresh child).2⟩
  | some parentRevision =>
    simp only [Option.map_some, Option.bind_some, Function.update_of_ne (Ne.symm hne)]
    rw [hplaced, Option.bind_some]
    simp only [LinkedNodes.bumpMutationRevision, LinkedNodes.inserted, LinkedNodes.setChildren,
      Function.update_self, Function.update_of_ne (Ne.symm hne), Function.update_idem]
    cases hmutation : nextRevision (nodes node).mutationRevision with
    | none => exact .inl ⟨rfl, fun hfresh => nextRevision_eq_none hmutation (hfresh node).1⟩
    | some mutationRevision =>
      simp only [Option.map_some]
      refine .inr ⟨_, rfl, ?_, ?_⟩
      · refine @link _ _ _ _ _ h pre post index _ hchain hbelow hfree hmap hslots ?_
          (fun other hother => ?_) ?_ ?_ fun other hother => ?_
        · rw [Function.update_self]
          exact hholds
        · rw [Function.update_of_ne hother]
          by_cases hc : other = child
          · rw [hc, Function.update_self]
          · rw [Function.update_of_ne hc]
        · rw [Function.update_of_ne hne, Function.update_self]
        · rw [Function.update_of_ne hne, Function.update_self]
        · by_cases hn : other = node
          · rw [hn, Function.update_self]
            exact ⟨rfl, rfl⟩
          · rw [Function.update_of_ne hn, Function.update_of_ne hother]
            exact ⟨rfl, rfl⟩
      · refine ⟨fun other hother => ?_, fun other hother => ?_, fun other => ?_⟩
        · rw [hother, Function.update_self]
          exact nextRevision_eq_some hmutation
        · rw [Function.update_of_ne hother]
          by_cases hc : other = child
          · rw [hc, Function.update_self]
          · rw [Function.update_of_ne hc]
        · by_cases hn : other = node
          · rw [hn, Function.update_self]
            exact Nat.le_succ _
          · rw [Function.update_of_ne hn]
            by_cases hc : other = child
            · rw [hc, Function.update_self]
              exact Nat.le_of_eq (nextRevision_eq_some hrevision)
            · rw [Function.update_of_ne hc]
              exact Nat.le_succ _

end Linked

end Omoikane.Dom
