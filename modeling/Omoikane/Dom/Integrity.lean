import Omoikane.Dom.ChildRefinement
import Omoikane.Dom.LinkSteps

/-!
# Integrity of the tree

Whatever is called on whatever nodes, the children of every node are the list that the same calls
give on ordinary lists, the parents are those of the lists, siblings are neighbors, and no node is
above itself (`tree_integrity`).
-/

namespace Omoikane.Dom

open Base

/-! ## The same calls on lists -/

namespace ChildLists

variable (lists : ChildLists)

/-- A node is another one, or a child of one that is. -/
def Under (node ancestor : NodeHandle) : Prop :=
  Relation.ReflTransGen (fun child parent => child ∈ lists parent) node ancestor

/-- A node goes from where it is to a place among the children of another one. -/
def move (node child : NodeHandle) (reference : Option NodeHandle) : ChildLists :=
  let detached : ChildLists := fun other => (lists other).erase child
  Function.update detached node (placeAt child reference (detached node))

end ChildLists

/-- A call that does nothing: of an inclusive ancestor, before a node that is no child, or for one. -/
def TreeCall.Refused (lists : ChildLists) : TreeCall → Prop
  | .appendChild node child => lists.Under node child
  | .insertBefore node newChild referenceChild =>
    lists.Under node newChild ∨ referenceChild ∉ lists node
  | .removeChild node child => child ∉ lists node

open Classical in
/-- A call on lists, with what it returns. -/
noncomputable def TreeCall.onLists (lists : ChildLists) :
    TreeCall → ChildLists × Except DomError Unit
  | .appendChild node child =>
    if lists.Under node child then (lists, .ok ()) else (lists.move node child none, .ok ())
  | .insertBefore node newChild referenceChild =>
    if lists.Under node newChild then (lists, .error .hierarchyRequest)
    else if referenceChild ∉ lists node then (lists, .error .referenceChildNotFound)
    else if newChild = referenceChild then (lists, .ok ())
    else (lists.move node newChild (some referenceChild), .ok ())
  | .removeChild node child =>
    if child ∈ lists node then
      (Function.update lists node ((lists node).erase child), .ok ())
    else (lists, .error .childNotFound)

/-- A call that returns an error is refused. -/
theorem TreeCall.refused_of_error {lists : ChildLists} {call : TreeCall} {error : DomError}
    (h : (call.onLists lists).2 = .error error) : call.Refused lists := by
  cases call with
  | appendChild node child =>
    rw [onLists] at h
    split at h <;> cases h
  | insertBefore node newChild referenceChild =>
    rw [onLists] at h
    split at h
    next hunder => exact .inl hunder
    next =>
      split at h
      next hreference => exact .inr hreference
      next => split at h <;> cases h
  | removeChild node child =>
    rw [onLists] at h
    split at h
    next => cases h
    next hchild => exact hchild

/-! ## Steps -/

/-- What a call did to nodes that held some lists. -/
structure TreeCall.Does (call : TreeCall) (nodes : LinkedNodes) (lists : ChildLists)
    (nodes' : LinkedNodes) : Prop where
  linked : Linked nodes' (call.onLists lists).1
  unchanged : call.Refused lists → nodes' = nodes
  revised : ∀ node, (call.onLists lists).1 node ≠ lists node →
    (nodes node).mutationRevision < (nodes' node).mutationRevision

namespace Linked

variable {nodes : LinkedNodes} {lists : ChildLists} {node child : NodeHandle} {limit : Nat}

theorem below_eq (h : Linked nodes lists) :
    Below nodes.parentNode = fun child parent => child ∈ lists parent := by
  funext child parent
  exact propext (h.parent_iff child parent)

theorem mem_chain (h : Linked nodes lists) {chain : List NodeHandle}
    (hchain : Ascends nodes.parentNode node chain) : child ∈ chain ↔ lists.Under node child := by
  rw [hchain.mem_iff, h.below_eq]
  rfl

/-- The walk to the ancestors, if it ends, finds those of the lists. -/
theorem isInclusiveAncestorOf_iff (h : Linked nodes lists) {found : Bool}
    (heq : nodes.isInclusiveAncestorOf limit child node = some found) :
    found = true ↔ lists.Under node child := by
  obtain ⟨chain, hchain⟩ := h.rooted node
  have hlong := climb_mono heq (Nat.le_max_left limit (chain.length + 1))
  rw [hchain.climb_eq child (Nat.lt_of_succ_le (Nat.le_max_right ..))] at hlong
  rw [← Option.some.inj hlong, decide_eq_true_iff, h.mem_chain hchain]

/-- The walk to the ancestors ends. -/
theorem isInclusiveAncestorOf_ends (h : Linked nodes lists) (child node : NodeHandle) :
    ∃ limit found, nodes.isInclusiveAncestorOf limit child node = some found := by
  obtain ⟨chain, hchain⟩ := h.rooted node
  exact ⟨_, _, hchain.climb_eq child (Nat.lt_succ_self _)⟩

/-- A node that is not above another is moved among its children. -/
theorem move (h : Linked nodes lists) (hunder : ¬ lists.Under node child)
    {reference : Option NodeHandle}
    (hreference : ∀ other, reference = some other → other ∈ (lists node).erase child) :
    (nodes.detachFromParent child = none ∧ ¬ Fresh nodes 2) ∨
      ∃ detached, nodes.detachFromParent child = some detached ∧
        Linked detached (fun other => (lists other).erase child) ∧
        ((detached.linkBefore node child (reference.bind (detached.childSlot node)) = none ∧
            ¬ Fresh nodes 2) ∨
          ∃ nodes', detached.linkBefore node child (reference.bind (detached.childSlot node)) =
              some nodes' ∧
            Linked nodes' (lists.move node child reference) ∧
            ∀ other, other = node ∨ child ∈ lists other →
              (nodes other).mutationRevision < (nodes' other).mutationRevision) := by
  rcases h.detachFromParent child with ⟨hnone, hfresh⟩ | ⟨detached, hsome, hlinked, hfree, hadv⟩
  · refine .inl ⟨hnone, fun hfresh' => hfresh fun other => ?_⟩
    have := hfresh' other
    omega
  · refine .inr ⟨detached, hsome, hlinked, ?_⟩
    obtain ⟨chain, hchain⟩ := hlinked.rooted node
    have hbelow : child ∉ chain := by
      rw [hlinked.mem_chain hchain]
      intro hmoved
      have hkept : ∀ a b, a ∈ (lists b).erase child → a ∈ lists b := fun a b =>
        List.mem_of_mem_erase
      exact hunder (Relation.ReflTransGen.mono hkept _ _ hmoved)
    rcases hlinked.linkBefore hchain hbelow hfree rfl hreference with
      ⟨hnone, hfresh⟩ | ⟨nodes', hsome', hlinked', hadv'⟩
    · exact .inl ⟨hnone, fun hfresh' => hfresh (hfresh'.advance hadv)⟩
    · refine .inr ⟨nodes', hsome', hlinked', fun other hother => ?_⟩
      have hfirst := (hadv.le other).1
      have hsecond := (hadv'.le other).1
      rcases hother with hother | hother
      · have := hadv'.touched other hother
        omega
      · have := hadv.touched other hother
        omega

/-- A child that is put before the one after it stays where it is. -/
theorem move_self (h : Linked nodes lists) {pre post : List NodeHandle}
    (hlist : lists node = pre ++ child :: post) :
    lists.move node child post.head? = lists := by
  have hnodup := h.nodup node
  rw [hlist] at hnodup
  have hpre : child ∉ pre := fun hm =>
    (List.nodup_append.mp hnodup).2.2 _ hm _ List.mem_cons_self rfl
  funext other
  by_cases hother : other = node
  · rw [hother, ChildLists.move, Function.update_self]
    dsimp only
    rw [hlist, Nodes.erase_append_cons hpre]
    cases post with
    | nil => rw [List.append_nil]; rfl
    | cons next post =>
      refine Nodes.placeBefore_append fun hm => ?_
      exact (List.nodup_append.mp hnodup).2.2 _ hm _
        (List.mem_cons_of_mem _ List.mem_cons_self) rfl
  · rw [ChildLists.move, Function.update_of_ne hother]
    refine List.erase_of_not_mem (h.not_mem ?_ hother)
    rw [hlist]
    exact List.mem_append_right _ List.mem_cons_self

/-- Only the lists that a node comes from and goes to change. -/
theorem touched_of_move {reference : Option NodeHandle}
    {other : NodeHandle} (hother : lists.move node child reference other ≠ lists other) :
    other = node ∨ child ∈ lists other := by
  by_contra hneither
  obtain ⟨hne, hmem⟩ := not_or.mp hneither
  refine hother ?_
  rw [ChildLists.move, Function.update_of_ne hne]
  exact List.erase_of_not_mem hmem

/-- `append_child`, unless its walk or a revision stops it. -/
theorem appendChild (h : Linked nodes lists) {found : Bool}
    (hfound : nodes.isInclusiveAncestorOf limit child node = some found) :
    (nodes.appendChild limit node child = none ∧ ¬ Fresh nodes 2) ∨
      ∃ nodes', nodes.appendChild limit node child = some nodes' ∧
        (TreeCall.appendChild node child).Does nodes lists nodes' := by
  have hunder := h.isInclusiveAncestorOf_iff hfound
  have hcall : nodes.appendChild limit node child =
      if found then some nodes
      else (nodes.detachFromParent child).bind fun nodes => nodes.linkBefore node child none := by
    rw [LinkedNodes.appendChild, hfound]
    cases found <;> rfl
  rw [hcall]
  by_cases hcyclic : lists.Under node child
  · refine .inr ⟨nodes, if_pos (hunder.mpr hcyclic), ?_, fun _ => rfl, fun other hother => ?_⟩
    · rw [TreeCall.onLists, if_pos hcyclic]
      exact h
    · rw [TreeCall.onLists, if_pos hcyclic] at hother
      exact (hother rfl).elim
  · rw [if_neg fun hfound => hcyclic (hunder.mp hfound)]
    have hlists : ((TreeCall.appendChild node child).onLists lists).1 =
        lists.move node child none := by
      rw [TreeCall.onLists, if_neg hcyclic]
    rcases @Linked.move _ _ _ _ h hcyclic none nofun with
      ⟨hnone, hfresh⟩ | ⟨detached, hsome, -, ⟨hnone, hfresh⟩ | ⟨nodes', hsome', hlinked, hrev⟩⟩
    · exact .inl ⟨by rw [hnone, Option.bind_none], hfresh⟩
    · exact .inl ⟨by rw [hsome, Option.bind_some]; exact hnone, hfresh⟩
    · refine .inr ⟨nodes', by rw [hsome, Option.bind_some]; exact hsome', ?_,
        fun hrefused => (hcyclic hrefused).elim, fun other hother => ?_⟩
      · rw [hlists]
        exact hlinked
      · rw [hlists] at hother
        exact hrev other (touched_of_move hother)

/-- `insert_before`, unless its walk or a revision stops it. -/
theorem insertBefore (h : Linked nodes lists) (reference : NodeHandle) {found : Bool}
    (hfound : nodes.isInclusiveAncestorOf limit child node = some found) :
    (nodes.insertBefore limit node child reference = none ∧ ¬ Fresh nodes 2) ∨
      ∃ nodes', nodes.insertBefore limit node child reference =
          some (nodes', ((TreeCall.insertBefore node child reference).onLists lists).2) ∧
        (TreeCall.insertBefore node child reference).Does nodes lists nodes' := by
  have hunder := h.isInclusiveAncestorOf_iff hfound
  by_cases hcyclic : lists.Under node child
  · have hlists : (TreeCall.insertBefore node child reference).onLists lists =
        (lists, .error .hierarchyRequest) := if_pos hcyclic
    rw [hunder.mpr hcyclic] at hfound
    refine .inr ⟨nodes, ?_, ?_, fun _ => rfl, fun other hother => ?_⟩
    · rw [LinkedNodes.insertBefore, hfound, hlists]
      rfl
    · rw [hlists]
      exact h
    · rw [hlists] at hother
      exact (hother rfl).elim
  have hnotFound : found = false := by
    cases found with
    | false => rfl
    | true => exact (hcyclic (hunder.mp rfl)).elim
  rw [hnotFound] at hfound
  by_cases hmem : reference ∈ lists node
  · obtain ⟨pre, slot, post, hholds, hmap, -, hslot⟩ := h.childSlot_of_mem hmem
    rw [List.map_append, List.map_cons] at hmap
    -- the child that the new one ends up in front of
    obtain ⟨after, hafter, hstays, hlists⟩ : ∃ after,
        nodes.referenceAfterMove node child reference slot = after ∧
        (∀ other, after = some other → other ∈ (lists node).erase child) ∧
        (TreeCall.insertBefore node child reference).onLists lists =
          (lists.move node child after, .ok ()) := by
      rw [TreeCall.onLists, if_neg hcyclic, if_neg (not_not.mpr hmem)]
      by_cases hself : child = reference
      · subst hself
        refine ⟨_, if_pos rfl, fun other hother => ?_, ?_⟩
        · rw [hholds.adjacent_eq.2] at hother
          rw [← hmap, Nodes.erase_append_cons]
          · exact List.mem_append_right _ (List.mem_of_head? hother)
          · intro hm
            have hnodup := h.nodup node
            rw [← hmap] at hnodup
            exact (List.nodup_append.mp hnodup).2.2 _ hm _ List.mem_cons_self rfl
        · rw [if_pos rfl, hholds.adjacent_eq.2, h.move_self hmap.symm]
      · refine ⟨_, if_neg hself, fun other hother => ?_, if_neg hself⟩
        cases hother
        exact (List.mem_erase_of_ne (Ne.symm hself)).mpr hmem
    have hcall : nodes.insertBefore limit node child reference =
        (nodes.detachFromParent child).bind fun nodes =>
          after.elim ((nodes.linkBefore node child none).map (·, .ok ())) fun reference =>
            (nodes.childSlot node reference).elim (some (nodes, .error .referenceChildNotFound))
              fun slot => (nodes.linkBefore node child (some slot)).map (·, .ok ()) := by
      rw [LinkedNodes.insertBefore, hfound]
      simp only [Option.bind_eq_bind, Option.bind_some, hslot, hafter, Bool.false_eq_true, if_false]
      congr 1
      funext nodes
      cases after with
      | none => cases nodes.linkBefore node child none <;> rfl
      | some reference =>
        dsimp only [Option.elim_some]
        cases nodes.childSlot node reference with
        | none => rfl
        | some slot =>
          dsimp only [Option.elim_some]
          cases nodes.linkBefore node child (some slot) <;> rfl
    rw [hcall]
    rcases h.move hcyclic hstays with ⟨hnone, hfresh⟩ | ⟨detached, hsome, hdetached, hlink⟩
    · exact .inl ⟨by rw [hnone, Option.bind_none], hfresh⟩
    -- the reference is still a child, so that its slot is found again
    have hslots : after.elim ((detached.linkBefore node child none).map
          (·, (.ok () : Except DomError Unit))) (fun reference =>
            (detached.childSlot node reference).elim (some (detached, .error .referenceChildNotFound))
              fun slot => (detached.linkBefore node child (some slot)).map (·, .ok ())) =
        (detached.linkBefore node child (after.bind (detached.childSlot node))).map (·, .ok ()) := by
      cases after with
      | none => rfl
      | some reference =>
        obtain ⟨_, slot, _, -, -, -, hslot⟩ := hdetached.childSlot_of_mem (hstays reference rfl)
        simp only [Option.elim_some, Option.bind_some, hslot]
    rw [hsome, Option.bind_some, hslots, hlists]
    rcases hlink with ⟨hnone, hfresh⟩ | ⟨nodes', hsome', hlinked, hrev⟩
    · exact .inl ⟨by rw [hnone, Option.map_none], hfresh⟩
    · refine .inr ⟨nodes', by rw [hsome', Option.map_some], ?_, fun hrefused => ?_,
        fun other hother => ?_⟩
      · rw [hlists]
        exact hlinked
      · rcases hrefused with hrefused | hrefused
        · exact (hcyclic hrefused).elim
        · exact (hrefused hmem).elim
      · rw [hlists] at hother
        exact hrev other (touched_of_move hother)
  · have hlists : (TreeCall.insertBefore node child reference).onLists lists =
        (lists, .error .referenceChildNotFound) := by
      rw [TreeCall.onLists, if_neg hcyclic, if_pos hmem]
    refine .inr ⟨nodes, ?_, ?_, fun _ => rfl, fun other hother => ?_⟩
    · rw [LinkedNodes.insertBefore, hfound, hlists]
      simp only [Option.bind_eq_bind, Option.bind_some, h.childSlot_of_not_mem hmem,
        Bool.false_eq_true, if_false]
      rfl
    · rw [hlists]
      exact h
    · rw [hlists] at hother
      exact (hother rfl).elim

/-- `remove_child`, unless a revision stops it. -/
theorem removeChild (h : Linked nodes lists) (node child : NodeHandle) :
    ((TreeCall.removeChild node child).perform limit nodes = none ∧ ¬ Fresh nodes 2) ∨
      ∃ nodes', (TreeCall.removeChild node child).perform limit nodes =
          some (nodes', ((TreeCall.removeChild node child).onLists lists).2) ∧
        (TreeCall.removeChild node child).Does nodes lists nodes' := by
  by_cases hmem : child ∈ lists node
  · have hlists : (TreeCall.removeChild node child).onLists lists =
        (Function.update lists node ((lists node).erase child), .ok ()) := if_pos hmem
    rcases h.removeChild_of_mem hmem with ⟨hnone, hfresh⟩ | ⟨nodes', hsome, hlinked, -, hadv⟩
    · refine .inl ⟨by rw [TreeCall.perform, hnone]; rfl, fun hfresh' => hfresh fun other => ?_⟩
      have := hfresh' other
      omega
    · refine .inr ⟨nodes', by rw [TreeCall.perform, hsome, hlists]; rfl, ?_,
        fun hrefused => (hrefused hmem).elim, fun other hother => ?_⟩
      · rw [hlists]
        exact hlinked
      · rw [hlists] at hother
        have hnode : other = node := by
          by_contra hne
          exact hother (Function.update_of_ne hne ..)
        rw [hadv.touched other hnode]
        exact Nat.lt_succ_self _
  · have hlists : (TreeCall.removeChild node child).onLists lists =
        (lists, .error .childNotFound) := if_neg hmem
    refine .inr ⟨nodes, ?_, ?_, fun _ => rfl, fun other hother => ?_⟩
    · rw [TreeCall.perform, h.removeChild_of_not_mem hmem, hlists]
      rfl
    · rw [hlists]
      exact h
    · rw [hlists] at hother
      exact (hother rfl).elim

/-- A call that ends does on the nodes what it does on the lists. -/
theorem call (h : Linked nodes lists) {call : TreeCall} {nodes' : LinkedNodes}
    {result : Except DomError Unit} (hends : call.Ends nodes nodes' result) :
    result = (call.onLists lists).2 ∧ call.Does nodes lists nodes' := by
  obtain ⟨limit, hperform⟩ := hends
  cases call with
  | appendChild node child =>
    obtain ⟨nodes'', hsome, heq⟩ := Option.map_eq_some_iff.mp hperform
    cases heq
    have hresult : ((TreeCall.appendChild node child).onLists lists).2 = .ok () := by
      rw [TreeCall.onLists]
      split <;> rfl
    cases hfound : nodes.isInclusiveAncestorOf limit child node with
    | none =>
      rw [LinkedNodes.appendChild, hfound] at hsome
      cases hsome
    | some found =>
      rcases h.appendChild hfound with ⟨hnone, -⟩ | ⟨afterwards, hsome', hdoes⟩
      · rw [hnone] at hsome
        cases hsome
      · rw [hsome'] at hsome
        cases hsome
        exact ⟨hresult.symm, hdoes⟩
  | insertBefore node child reference =>
    have hsome : nodes.insertBefore limit node child reference = some (nodes', result) := hperform
    cases hfound : nodes.isInclusiveAncestorOf limit child node with
    | none =>
      rw [LinkedNodes.insertBefore, hfound] at hsome
      cases hsome
    | some found =>
      rcases h.insertBefore reference hfound with ⟨hnone, -⟩ | ⟨afterwards, hsome', hdoes⟩
      · rw [hnone] at hsome
        cases hsome
      · rw [hsome'] at hsome
        cases hsome
        exact ⟨rfl, hdoes⟩
  | removeChild node child =>
    rcases @Linked.removeChild _ _ limit h node child with ⟨hnone, -⟩ | ⟨afterwards, hsome', hdoes⟩
    · rw [hnone] at hperform
      cases hperform
    · rw [hsome'] at hperform
      cases hperform
      exact ⟨rfl, hdoes⟩

/-- A call ends, unless a revision cannot be raised. -/
theorem call_ends (h : Linked nodes lists) (hfresh : Fresh nodes 2) (call : TreeCall) :
    ∃ nodes' result, call.Ends nodes nodes' result := by
  cases call with
  | appendChild node child =>
    obtain ⟨limit, found, hfound⟩ := h.isInclusiveAncestorOf_ends child node
    rcases h.appendChild hfound with ⟨-, hstuck⟩ | ⟨nodes', hsome, -⟩
    · exact (hstuck hfresh).elim
    · exact ⟨nodes', .ok (), limit, by rw [TreeCall.perform, hsome]; rfl⟩
  | insertBefore node child reference =>
    obtain ⟨limit, found, hfound⟩ := h.isInclusiveAncestorOf_ends child node
    rcases h.insertBefore reference hfound with ⟨-, hstuck⟩ | ⟨nodes', hsome, -⟩
    · exact (hstuck hfresh).elim
    · exact ⟨nodes', _, limit, hsome⟩
  | removeChild node child =>
    rcases @Linked.removeChild _ _ 0 h node child with ⟨-, hstuck⟩ | ⟨nodes', hsome, -⟩
    · exact (hstuck hfresh).elim
    · exact ⟨nodes', _, 0, hsome⟩

end Linked

/-! ## Runs -/

/-- Calls one after another, none of which panics. -/
inductive Calls : LinkedNodes → List TreeCall → LinkedNodes → Prop
  | nil {nodes : LinkedNodes} : Calls nodes [] nodes
  | cons {nodes nodes' nodes'' : LinkedNodes} {call : TreeCall} {calls : List TreeCall}
      {result : Except DomError Unit} :
      call.Ends nodes nodes' result → Calls nodes' calls nodes'' → Calls nodes (call :: calls) nodes''

/-- Nodes that no call has linked yet. -/
def Unlinked (nodes : LinkedNodes) : Prop :=
  ∀ node, (nodes node).parent = none ∧ (nodes node).children = .default

theorem Linked.unlinked {nodes : LinkedNodes} (h : Unlinked nodes) :
    Linked nodes fun _ => [] where
  entries node := ⟨[], (h node).2 ▸ Holds.default, rfl, fun _ hm => by cases hm⟩
  nodup _ := List.nodup_nil
  parent_iff child node := by
    rw [LinkedNodes.parentNode, (h child).1]
    exact iff_of_false (fun heq => by cases heq) List.not_mem_nil
  rooted node := ⟨[node], .top (h node).1⟩

/-- The lists after some calls. -/
noncomputable def ChildLists.after (lists : ChildLists) (calls : List TreeCall) : ChildLists :=
  Run.run (fun lists call => (call.onLists lists).1) lists calls

theorem Linked.calls {nodes nodes' : LinkedNodes} {calls : List TreeCall}
    (hcalls : Calls nodes calls nodes') :
    ∀ {lists : ChildLists}, Linked nodes lists → Linked nodes' (lists.after calls) := by
  induction hcalls with
  | nil => exact id
  | cons hends _ ih => exact fun h => ih (h.call hends).2.linked

/-- Nodes are linked as child lists say. -/
structure Integrity (nodes : LinkedNodes) (lists : ChildLists) : Prop where
  childNodes : ∀ node, nodes.childNodes node = some (lists node)
  parent_iff : ∀ child node, nodes.parentNode child = some node ↔ (lists node).count child = 1
  count_le : ∀ child node, (lists node).count child ≤ 1
  firstChild : ∀ node, nodes.firstChild node = (lists node).head?
  lastChild : ∀ node, nodes.lastChild node = (lists node).getLast?
  siblings : ∀ node pre child post, lists node = pre ++ child :: post →
    nodes.previousSibling child = pre.getLast? ∧ nodes.nextSibling child = post.head?
  alone : ∀ node, nodes.parentNode node = none →
    nodes.previousSibling node = none ∧ nodes.nextSibling node = none
  irreflexive : ∀ node, ¬ Relation.TransGen (Below nodes.parentNode) node node

theorem Linked.integrity {nodes : LinkedNodes} {lists : ChildLists} (h : Linked nodes lists) :
    Integrity nodes lists where
  childNodes node := by
    obtain ⟨entries, hholds, hmap, -⟩ := h.entries node
    obtain ⟨iter, hpulls⟩ := hholds.lists.forward
    rw [LinkedNodes.childNodes, hholds.len_eq, hpulls, Option.map_some, hmap]
    show some ((lists node).map some).reduceOption = _
    rw [List.reduceOption, List.filterMap_map]
    exact congrArg some List.filterMap_some
  parent_iff child node := by
    rw [h.parent_iff, ← List.count_pos_iff]
    have := List.nodup_iff_count_le_one.mp (h.nodup node) child
    omega
  count_le child node := List.nodup_iff_count_le_one.mp (h.nodup node) child
  firstChild node := by
    obtain ⟨entries, hholds, hmap, -⟩ := h.entries node
    rw [LinkedNodes.firstChild, hholds.first_eq, hmap]
  lastChild node := by
    obtain ⟨entries, hholds, hmap, -⟩ := h.entries node
    rw [LinkedNodes.lastChild, hholds.last_eq, hmap]
  siblings node pre child post hlist := by
    have hmem : child ∈ lists node := by
      rw [hlist]
      exact List.mem_append_right _ List.mem_cons_self
    obtain ⟨pre', slot, post', hholds, hmap, -, hslot⟩ := h.childSlot_of_mem hmem
    have hnodup := h.nodup node
    rw [← hmap, List.map_append, List.map_cons] at hnodup
    obtain ⟨-, hpost, hdisjoint⟩ := List.nodup_append.mp hnodup
    rw [hlist, List.map_append, List.map_cons] at hmap
    obtain ⟨rfl, -, rfl⟩ := (List.append_cons_inj_of_notMem
      (fun hm => hdisjoint _ hm _ List.mem_cons_self rfl) (List.nodup_cons.mp hpost).1).mp hmap
    have hsibling : ∀ previous, nodes.adjacentSibling child previous =
        (nodes node).children.adjacent slot previous := by
      intro previous
      rw [LinkedNodes.adjacentSibling, (h.parent_iff child node).mpr hmem]
      simp only [Option.bind_eq_bind, Option.bind_some, hslot]
    rw [LinkedNodes.previousSibling, LinkedNodes.nextSibling, hsibling, hsibling]
    exact hholds.adjacent_eq
  alone node hnone := by
    rw [LinkedNodes.previousSibling, LinkedNodes.nextSibling, LinkedNodes.adjacentSibling,
      LinkedNodes.adjacentSibling, hnone]
    exact ⟨rfl, rfl⟩
  irreflexive _ := h.rooted.irreflexive

/-- After any calls on nodes that were not linked, the nodes are linked as the lists are after the
same calls.  Every further call ends unless a revision is exhausted, returns what it returns on the
lists, changes nothing when it is refused, above all when it returns an error, and otherwise raises
the mutation revision of every node whose list changed. -/
theorem tree_integrity {start nodes : LinkedNodes} {calls : List TreeCall} (hstart : Unlinked start)
    (hcalls : Calls start calls nodes) :
    let lists := ChildLists.after (fun _ => []) calls
    Integrity nodes lists ∧
      (Fresh nodes 2 → ∀ call : TreeCall, ∃ nodes' result, call.Ends nodes nodes' result) ∧
      ∀ (call : TreeCall) (nodes' : LinkedNodes) (result : Except DomError Unit),
        call.Ends nodes nodes' result →
          result = (call.onLists lists).2 ∧
          (call.Refused lists → nodes' = nodes) ∧
          (∀ error, result = .error error → nodes' = nodes) ∧
          ∀ node, (call.onLists lists).1 node ≠ lists node →
            (nodes node).mutationRevision < (nodes' node).mutationRevision := by
  intro lists
  have hlinked : Linked nodes lists := Linked.calls hcalls (.unlinked hstart)
  refine ⟨hlinked.integrity, fun hfresh => hlinked.call_ends hfresh,
    fun call nodes' result hends => ?_⟩
  obtain ⟨hresult, hdoes⟩ := hlinked.call hends
  refine ⟨hresult, hdoes.unchanged, fun error herror => hdoes.unchanged ?_, hdoes.revised⟩
  rw [hresult] at herror
  exact TreeCall.refused_of_error herror

/-- A node is put in front of its sibling, itself, and below itself, and its sibling removed. -/
def moves : List TreeCall :=
  [.appendChild 0 1, .appendChild 0 2, .insertBefore 0 2 1, .insertBefore 0 2 2, .appendChild 2 0,
    .removeChild 0 1]

theorem tree_integrity_moves : ∃ nodes,
    Calls (fun _ => ⟨none, 0, 0, 0, .default⟩) moves nodes ∧
      nodes.childNodes 0 = some (ChildLists.after (fun _ => []) moves 0) ∧
      nodes.firstChild 0 = some 2 := by
  have hcalls : Calls (fun _ => ⟨none, 0, 0, 0, .default⟩) moves _ :=
    .cons ⟨2, rfl⟩ (.cons ⟨2, rfl⟩ (.cons ⟨2, rfl⟩ (.cons ⟨2, rfl⟩
      (.cons ⟨3, rfl⟩ (.cons ⟨2, rfl⟩ .nil)))))
  exact ⟨_, hcalls, (tree_integrity (fun _ => ⟨rfl, rfl⟩) hcalls).1.childNodes 0, rfl⟩

end Omoikane.Dom
