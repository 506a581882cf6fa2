import Omoikane.Base.Ascent
import Omoikane.Dom.Live.Consistency

/-!
# Trees with shadow roots and template contents

`append_child` and `insert_before` refuse an ancestor of the new parent.  They look for it over
parent links only, while the walks of the documents also go from a host to its shadow root and from a
template to its contents (`Documents.Edge`).  So a host may be put into its own shadow tree, and then
a walk never ends.

`sound_iff_guarded` has both sides: where no call puts a node below itself in that wider sense, the
edges have no cycle and every walk ends, and no other runs have that.
-/

namespace Omoikane.Dom.Live

open Base Relation

/-- A walk of the documents goes from one node to the other. -/
def Documents.Edge (dom : Documents) (node target : NodeHandle) : Prop :=
  dom.parentNode target = some node ∨ dom.shadowRoot node = some target ∨
    dom.templateContent node = some target

instance (dom : Documents) (node target : NodeHandle) : Decidable (dom.Edge node target) :=
  inferInstanceAs (Decidable (_ ∨ _ ∨ _))

namespace Mutation

/-- A call that creates a node, changes the tree or attaches a shadow root. -/
def Structural : Mutation → Prop
  | .create _ | .tree _ | .attachShadow _ _ => True
  | _ => False

instance : DecidablePred Structural
  | .create _ | .tree _ | .attachShadow _ _ => isTrue trivial
  | .setTemplateContent _ _ | .attributes _ _ | .setShadowRootSettings _ _ | .assignSlottables _ _
  | .slotAssignments _ | .present _ _ => isFalse id

/-- A node is put only where it does not lead to: whatever leads to its new parent is above it by
parent links, and is refused. -/
def Guarded (dom : Documents) : Mutation → Prop
  | .tree (.appendChild node child) =>
    ReflTransGen dom.Edge child node → ReflTransGen (Below dom.parentNode) node child
  | .tree (.insertBefore node newChild referenceChild) => dom.parentNode referenceChild = some node →
      ReflTransGen dom.Edge newChild node → ReflTransGen (Below dom.parentNode) node newChild
  | _ => True

end Mutation

/-! ## Walks end -/

namespace Documents

variable {dom dom' : Documents} {visit : Documents → NodeHandle → Documents} {lists : ChildLists}

theorem foldlM_mono {step step' : Documents → NodeHandle → Option Documents}
    (hstep : ∀ dom node dom', step dom node = some dom' → step' dom node = some dom') :
    ∀ {nodes : List NodeHandle} {dom dom' : Documents}, nodes.foldlM step dom = some dom' →
      nodes.foldlM step' dom = some dom'
  | [], _, _, h => h
  | node :: nodes, dom, dom', h => by
    rw [List.foldlM_cons] at h ⊢
    obtain ⟨between, hbetween, h⟩ := Option.bind_eq_some_iff.mp h
    exact Option.bind_eq_some_iff.mpr ⟨between, hstep _ _ _ hbetween, foldlM_mono hstep h⟩

/-- A bound that a walk does not reach may be raised. -/
theorem walk_mono : ∀ {limit limit' : Nat} {dom dom' : Documents} {node : NodeHandle},
    walk visit limit dom node = some dom' → limit ≤ limit' → walk visit limit' dom node = some dom'
  | limit + 1, limit' + 1, dom, dom', node, h, hlimit => by
    have hbelow : ∀ {target : Option NodeHandle} {dom dom' : Documents},
        target.elim (some dom) (walk visit limit dom) = some dom' →
          target.elim (some dom) (walk visit limit' dom) = some dom' := by
      intro target dom dom' h
      cases target with
      | none => exact h
      | some target => exact walk_mono h (Nat.le_of_succ_le_succ hlimit)
    rw [walk] at h ⊢
    obtain ⟨afterContent, hcontent, h⟩ := Option.bind_eq_some_iff.mp h
    obtain ⟨afterRoot, hroot, h⟩ := Option.bind_eq_some_iff.mp h
    obtain ⟨children, hchildren, h⟩ := Option.bind_eq_some_iff.mp h
    refine Option.bind_eq_some_iff.mpr ⟨_, hbelow hcontent,
      Option.bind_eq_some_iff.mpr ⟨_, hbelow hroot,
        Option.bind_eq_some_iff.mpr ⟨_, hchildren, foldlM_mono (fun _ _ _ h => ?_) h⟩⟩⟩
    exact walk_mono h (Nat.le_of_succ_le_succ hlimit)

/-- A walk ends from a node however the nodes are presented. -/
def WalkEnds (visit : Documents → NodeHandle → Documents) (dom : Documents) (node : NodeHandle) :
    Prop :=
  ∃ limit, ∀ between, dom.Presents between → ∃ dom', walk visit limit between node = some dom'

/-- One bound is enough for a list of nodes. -/
theorem walkEnds_all (hvisit : ∀ dom node, Presents dom (visit dom node)) :
    ∀ {nodes : List NodeHandle}, (∀ node ∈ nodes, WalkEnds visit dom node) →
      ∃ limit, ∀ limit', limit ≤ limit' → ∀ between, dom.Presents between →
        ∃ dom', nodes.foldlM (walk visit limit') between = some dom'
  | [], _ => ⟨0, fun _ _ between _ => ⟨between, rfl⟩⟩
  | node :: nodes, h => by
    obtain ⟨first, hfirst⟩ := h node List.mem_cons_self
    obtain ⟨rest, hrest⟩ := walkEnds_all hvisit fun node hmem => h node (List.mem_cons_of_mem _ hmem)
    refine ⟨max first rest, fun limit' hlimit between hpresents => ?_⟩
    obtain ⟨next, hnext⟩ := hfirst between hpresents
    obtain ⟨dom', hdom'⟩ := hrest limit' ((Nat.le_max_right ..).trans hlimit) next
      (hpresents.trans (presents_walk hvisit hnext))
    exact ⟨dom', Option.bind_eq_some_iff.mpr
      ⟨next, walk_mono hnext ((Nat.le_max_left ..).trans hlimit), hdom'⟩⟩

/-- What is presented is no part of what the walks go over. -/
theorem Presents.same (h : Presents dom dom') : dom'.templateContent = dom.templateContent ∧
    dom'.shadowRoot = dom.shadowRoot ∧ dom'.childNodes = dom.childNodes := by
  obtain ⟨_, rfl⟩ := h
  exact ⟨rfl, rfl, rfl⟩

theorem presents_below {limit : Nat} {target : Option NodeHandle}
    (hvisit : ∀ dom node, Presents dom (visit dom node))
    (h : target.elim (some dom) (walk visit limit dom) = some dom') : Presents dom dom' := by
  cases target with
  | none =>
    cases h
    exact .refl
  | some target => exact presents_walk hvisit h

/-- A walk over a list of nodes that ends walks from each of them. -/
theorem walked_of_foldlM (hvisit : ∀ dom node, Presents dom (visit dom node)) {limit : Nat}
    {target : NodeHandle} : ∀ {nodes : List NodeHandle} {between dom' : Documents}, target ∈ nodes →
      dom.Presents between → nodes.foldlM (walk visit limit) between = some dom' →
      ∃ between' dom'', dom.Presents between' ∧ walk visit limit between' target = some dom''
  | node :: nodes, between, dom', hmem, hpresents, h => by
    obtain ⟨next, hnext, h⟩ := Option.bind_eq_some_iff.mp h
    rcases List.mem_cons.mp hmem with rfl | hmem
    · exact ⟨between, next, hpresents, hnext⟩
    · exact walked_of_foldlM hvisit hmem (hpresents.trans (presents_walk hvisit hnext)) h

/-- Where the edges cannot be followed forever, every walk ends. -/
theorem walkEnds (hconsistent : Consistent dom lists)
    (hwell : WellFounded fun target node => dom.Edge node target)
    (hvisit : ∀ dom node, Presents dom (visit dom node)) (node : NodeHandle) :
    WalkEnds visit dom node := by
  induction hwell.apply node with
  | intro node _ ih =>
    have htarget : ∀ {target : Option NodeHandle}, (∀ node', target = some node' → dom.Edge node node') →
        ∃ limit, ∀ limit', limit ≤ limit' → ∀ between, dom.Presents between →
          ∃ dom', target.elim (some between) (walk visit limit' between) = some dom' := by
      intro target hedge
      cases target with
      | none => exact ⟨0, fun _ _ between _ => ⟨between, rfl⟩⟩
      | some target =>
        obtain ⟨limit, hlimit⟩ := ih target (hedge target rfl)
        refine ⟨limit, fun limit' hle between hpresents => ?_⟩
        obtain ⟨dom', hdom'⟩ := hlimit between hpresents
        exact ⟨dom', walk_mono hdom' hle⟩
    obtain ⟨contents, hcontents⟩ := htarget fun target h => .inr (.inr h)
    obtain ⟨root, hroot⟩ := htarget fun target h => .inr (.inl h)
    have hchildren : ∀ child ∈ lists node, WalkEnds visit dom child := fun child hchild =>
      ih child (.inl (hconsistent.parent_iff.mpr hchild))
    obtain ⟨below, hbelow⟩ := walkEnds_all hvisit hchildren
    refine ⟨max contents (max root below) + 1, fun between hpresents => ?_⟩
    have hvisited := hpresents.trans (hvisit between node)
    obtain ⟨afterContent, hafterContent⟩ :=
      hcontents _ (Nat.le_max_left contents (max root below)) _ hvisited
    have hpresented := hvisited.trans (presents_below hvisit hafterContent)
    obtain ⟨afterRoot, hafterRoot⟩ := hroot (max contents (max root below))
      ((Nat.le_max_left ..).trans (Nat.le_max_right ..)) _ hpresented
    have hpresented' := hpresented.trans (presents_below hvisit hafterRoot)
    obtain ⟨dom', hdom'⟩ := hbelow (max contents (max root below))
      ((Nat.le_max_right ..).trans (Nat.le_max_right ..)) _ hpresented'
    refine ⟨dom', ?_⟩
    rw [walk]
    refine Option.bind_eq_some_iff.mpr ⟨afterContent, ?_, Option.bind_eq_some_iff.mpr
      ⟨afterRoot, ?_, Option.bind_eq_some_iff.mpr ⟨lists node, ?_, hdom'⟩⟩⟩
    · rw [hvisited.same.1]
      exact hafterContent
    · rw [hpresented.same.2.1]
      exact hafterRoot
    · rw [hpresented'.same.2.2]
      exact hconsistent.childNodes node

/-- A walk that ends goes over every edge, in fewer steps. -/
theorem walk_edge (hconsistent : Consistent dom lists)
    (hvisit : ∀ dom node, Presents dom (visit dom node)) {limit : Nat} {node target : NodeHandle}
    {between dom' : Documents} (hpresents : dom.Presents between)
    (hwalk : walk visit (limit + 1) between node = some dom') (hedge : dom.Edge node target) :
    ∃ between' dom'', dom.Presents between' ∧ walk visit limit between' target = some dom'' := by
  rw [walk] at hwalk
  obtain ⟨afterContent, hcontent, hwalk⟩ := Option.bind_eq_some_iff.mp hwalk
  obtain ⟨afterRoot, hroot, hwalk⟩ := Option.bind_eq_some_iff.mp hwalk
  obtain ⟨children, hchildren, hwalk⟩ := Option.bind_eq_some_iff.mp hwalk
  have hvisited := hpresents.trans (hvisit between node)
  have hpresented := hvisited.trans (presents_below hvisit hcontent)
  have hpresented' := hpresented.trans (presents_below hvisit hroot)
  rcases hedge with hparent | hleads | hleads
  · rw [hpresented'.same.2.2, hconsistent.childNodes] at hchildren
    cases hchildren
    exact walked_of_foldlM hvisit (hconsistent.parent_iff.mp hparent) hpresented' hwalk
  · rw [hpresented.same.2.1, hleads] at hroot
    exact ⟨_, _, hpresented, hroot⟩
  · rw [hvisited.same.1, hleads] at hcontent
    exact ⟨_, _, hvisited, hcontent⟩

/-- A walk from a node that leads back to itself does not end. -/
theorem not_walk_of_cycle (hconsistent : Consistent dom lists)
    (hvisit : ∀ dom node, Presents dom (visit dom node)) {node : NodeHandle}
    (hcycle : TransGen dom.Edge node node) {limit : Nat} : walk visit limit dom node = none := by
  have hway : ∀ {target : NodeHandle}, TransGen dom.Edge node target → ∀ {limit : Nat}
      {between dom' : Documents}, dom.Presents between → walk visit limit between node = some dom' →
      ∃ limit' < limit, ∃ between' dom'', dom.Presents between' ∧
        walk visit limit' between' target = some dom'' := by
    intro target htarget
    induction htarget with
    | single hedge =>
      intro limit between dom' hpresents hwalk
      cases limit with
      | zero => cases hwalk
      | succ limit =>
        exact ⟨limit, Nat.lt_succ_self _, walk_edge hconsistent hvisit hpresents hwalk hedge⟩
    | tail _ hedge ih =>
      intro limit between dom' hpresents hwalk
      obtain ⟨limit', hlimit, between', dom'', hpresents', hwalk'⟩ := ih hpresents hwalk
      cases limit' with
      | zero => cases hwalk'
      | succ limit' =>
        exact ⟨limit', (Nat.lt_succ_self _).trans hlimit,
          walk_edge hconsistent hvisit hpresents' hwalk' hedge⟩
  have hnone : ∀ {limit : Nat} {between dom' : Documents}, dom.Presents between →
      walk visit limit between node ≠ some dom' := by
    intro limit
    induction limit using Nat.strong_induction_on with
    | h limit ih =>
      intro between dom' hpresents hwalk
      obtain ⟨limit', hlimit, between', dom'', hpresents', hwalk'⟩ := hway hcycle hpresents hwalk
      exact ih limit' hlimit hpresents' hwalk'
  exact Option.eq_none_iff_forall_ne_some.mpr fun _ => hnone .refl

end Documents

/-! ## Edges -/

section

variable {dom dom' : Documents} {lists : ChildLists} {mutation : Mutation} {node target : NodeHandle}

theorem edge_iff (h : Consistent dom lists) : dom.Edge node target ↔
    target ∈ lists node ∨ dom.shadowRoot node = some target ∨ dom.templateContent node = some target :=
  or_congr_left h.parent_iff

/-- An edge is between nodes that were created. -/
theorem edge_known (h : Consistent dom lists) (hedge : dom.Edge node target) :
    node < dom.nextId ∧ target < dom.nextId := by
  rcases (edge_iff h).mp hedge with hchild | hroot | hcontent
  · exact h.known _ _ hchild
  · exact h.root_known hroot
  · obtain ⟨element, helement, -⟩ := Documents.templateContent_eq_some_iff.mp hcontent
    exact ⟨h.element_known helement, h.content_known _ _ hcontent⟩

/-- Nothing leads anywhere from a node that was not created yet. -/
theorem not_leads_of_unborn (h : Consistent dom lists) (hnode : dom.nextId ≤ node)
    (hne : node ≠ target) : ¬ ReflTransGen dom.Edge node target := by
  intro hway
  rcases ReflTransGen.cases_head hway with heq | ⟨next, hedge, -⟩
  · exact hne heq
  · exact Nat.not_lt_of_le hnode (edge_known h hedge).1

theorem Acyclic.wellFounded_edge (h : Consistent dom lists) (hacyclic : Acyclic dom.Edge) :
    WellFounded fun target node => dom.Edge node target :=
  hacyclic.wellFounded_swap (Set.finite_lt_nat dom.nextId) fun _ _ hedge => edge_known h hedge

/-! ## Edges after a call -/

/-- The edges of documents with the same payloads. -/
theorem edge_of_data {lists' : ChildLists} (h' : Consistent dom' lists') (hdata : dom'.data = dom.data) :
    dom'.Edge node target ↔ target ∈ lists' node ∨ dom.shadowRoot node = some target ∨
      dom.templateContent node = some target := by
  rw [edge_iff h', Documents.shadowRoot, Documents.templateContent, Documents.element?, hdata]
  rfl

/-- A node that is created leads where its payload does. -/
theorem edge_mint (h : Consistent dom lists) {data : NodeData}
    (hedge : (dom.mint data).Edge node target) : dom.Edge node target ∨ (node = dom.nextId ∧
      ∃ element, data = .element element ∧
        (element.shadowRoot = some target ∨ element.templateContent = some target)) := by
  have hchild : (dom.mint data).parentNode target = some node ↔ target ∈ lists node :=
    (h.linked_mint data).parent_iff target node
  by_cases hnode : node = dom.nextId
  · rcases hedge with hparent | hroot | hcontent
    · exact .inl (.inl (h.parent_iff.mpr (hchild.mp hparent)))
    · obtain ⟨element, heq, hroot⟩ := Documents.shadowRoot_eq_some_iff.mp hroot
      rw [hnode, Documents.mint_data_self] at heq
      exact .inr ⟨hnode, element, heq, .inl hroot⟩
    · obtain ⟨element, heq, hcontent⟩ := Documents.templateContent_eq_some_iff.mp hcontent
      rw [hnode, Documents.mint_data_self] at heq
      exact .inr ⟨hnode, element, heq, .inr hcontent⟩
  · refine .inl ((edge_iff h).mpr ?_)
    rw [Documents.Edge, hchild, Documents.shadowRoot, Documents.templateContent, Documents.element?,
      Documents.mint_data_of_ne _ hnode] at hedge
    exact hedge

/-- A template that is created leads to its contents. -/
theorem edge_create (h : Consistent dom lists) {source : NodeSource}
    (hedge : (dom.create source).Edge node target) :
    dom.Edge node target ∨ (node = dom.nextId + 1 ∧ target = dom.nextId) := by
  have hplain : ∀ {data : NodeData}, (∀ element, data ≠ .element element) →
      (dom.mint data).Edge node target → dom.Edge node target := fun hdata hedge =>
    (edge_mint h hedge).resolve_right fun ⟨_, element, heq, _⟩ => hdata element heq
  cases source with
  | element name =>
    rw [Documents.create] at hedge
    split at hedge
    next hnone =>
      refine .inl ((edge_mint h hedge).resolve_right ?_)
      rintro ⟨-, element, heq, hroot | hcontent⟩
      · cases heq
        rw [Consistent.build_shadowRoot] at hroot
        cases hroot
      · cases heq
        rw [hnone] at hcontent
        cases hcontent
    next =>
      have hfragment : Consistent (dom.mint .documentFragment) lists := h.create .documentFragment
      rcases edge_mint hfragment hedge with hedge | ⟨hnode, element, heq, hroot | hcontent⟩
      · exact .inl (hplain (fun _ heq => by cases heq) hedge)
      · cases heq
        rw [Consistent.build_shadowRoot] at hroot
        cases hroot
      · cases heq
        exact .inr ⟨hnode, Consistent.build_templateContent hcontent⟩
  | _ => exact .inl (hplain (fun _ heq => by cases heq) hedge)

/-- A host leads to its new shadow root. -/
theorem edge_attachShadow (h : Consistent dom lists) {host : NodeHandle} {mode : ShadowRootMode}
    (hedge : (dom.attachShadow host mode).1.Edge node target) :
    dom.Edge node target ∨ (node = host ∧ target = dom.nextId) := by
  unfold Documents.attachShadow at hedge
  split at hedge
  next element helement =>
    split at hedge
    next => exact .inl hedge
    next =>
      obtain ⟨hhost, hroot, hother⟩ := Consistent.attached_data (h.element_known helement)
        { element with shadowRoot := some dom.nextId } (.blank host mode)
      rcases hedge with hparent | hleads | hleads
      · have hlinked := h.linked_mint (.shadowRoot (.blank host mode))
        exact .inl (.inl (h.parent_iff.mpr ((hlinked.parent_iff target node).mp hparent)))
      · obtain ⟨element', heq, hleads⟩ := Documents.shadowRoot_eq_some_iff.mp hleads
        by_cases hnode : node = host
        · rw [hnode, hhost] at heq
          cases heq
          exact .inr ⟨hnode, (Option.some.inj hleads).symm⟩
        · have hnew : node ≠ dom.nextId := by
            rintro rfl
            rw [hroot] at heq
            cases heq
          rw [hother node hnode hnew] at heq
          exact .inl (.inr (.inl (Documents.shadowRoot_eq_some_iff.mpr ⟨element', heq, hleads⟩)))
      · obtain ⟨element', heq, hleads⟩ := Documents.templateContent_eq_some_iff.mp hleads
        refine .inl (.inr (.inr (Documents.templateContent_eq_some_iff.mpr ?_)))
        by_cases hnode : node = host
        · rw [hnode, hhost] at heq
          cases heq
          exact ⟨element, hnode ▸ helement, hleads⟩
        · have hnew : node ≠ dom.nextId := by
            rintro rfl
            rw [hroot] at heq
            cases heq
          rw [hother node hnode hnew] at heq
          exact ⟨element', heq, hleads⟩
  next => exact .inl hedge

end

/-! ## Calls -/

section

variable {dom dom' : Documents} {lists : ChildLists} {mutation : Mutation}

theorem mem_placeBefore_self {new reference : NodeHandle} {children : List NodeHandle}
    (h : reference ∈ children) : new ∈ placeBefore new reference children := by
  induction children with
  | nil => cases h
  | cons child children ih =>
    rw [placeBefore]
    split
    next => exact List.mem_cons_self
    next hne =>
      rcases List.mem_cons.mp h with rfl | h
      · exact (hne rfl).elim
      · exact List.mem_cons_of_mem _ (ih h)

/-- The one that is moved is where it goes. -/
theorem mem_move_self {node child : NodeHandle} {reference : Option NodeHandle}
    (hreference : ∀ other, reference = some other → other ∈ lists node ∧ other ≠ child) :
    child ∈ lists.move node child reference node := by
  rw [ChildLists.move, Function.update_self]
  cases reference with
  | none => exact List.mem_append_right _ (List.mem_singleton_self _)
  | some other =>
    obtain ⟨hmem, hne⟩ := hreference other rfl
    exact mem_placeBefore_self ((List.mem_erase_of_ne hne).mpr hmem)

/-- A node is moved: the edges stay acyclic exactly when the node did not lead to its new parent.  A
way from it to there stays when it is moved. -/
theorem acyclic_move_iff {node child : NodeHandle} {reference : Option NodeHandle}
    (h : Consistent dom lists) (h' : Consistent dom' (lists.move node child reference))
    (hdata : dom'.data = dom.data) (hacyclic : Acyclic dom.Edge)
    (hreference : ∀ other, reference = some other → other ∈ lists node ∧ other ≠ child) :
    Acyclic dom'.Edge ↔ ¬ ReflTransGen dom.Edge child node := by
  constructor
  · intro hacyclic' hway
    have hway' : ReflTransGen dom'.Edge child node := by
      refine hacyclic.keeps_way (fun parent other hedge hother => ?_) hway
      exact (edge_of_data h' hdata).mpr
        (((edge_iff h).mp hedge).imp_left fun hmem => mem_move_of_ne hmem hother)
    have hedge : dom'.Edge node child := (edge_of_data h' hdata).mpr (.inl (mem_move_self hreference))
    exact hacyclic'.not_leads_back hedge hway'
  · refine hacyclic.add fun parent other hedge => ?_
    rcases (edge_of_data h' hdata).mp hedge with hother | hleads
    · exact (mem_move hother).imp_left fun hother => (edge_iff h).mpr (.inl hother)
    · exact .inl ((edge_iff h).mpr (.inr hleads))

/-- Children are taken away at most. -/
theorem acyclic_of_lists {lists' : ChildLists} (h : Consistent dom lists)
    (h' : Consistent dom' lists') (hdata : dom'.data = dom.data) (hacyclic : Acyclic dom.Edge)
    (hsub : ∀ parent other, other ∈ lists' parent → other ∈ lists parent) : Acyclic dom'.Edge :=
  hacyclic.mono fun parent other hedge =>
    (edge_iff h).mpr (((edge_of_data h' hdata).mp hedge).imp_left (hsub parent other))

/-- A call on the tree keeps the edges acyclic exactly when it is guarded. -/
theorem acyclic_iff_guarded_tree {call : TreeCall} (h : Consistent dom lists)
    (h' : Consistent dom' (call.onLists lists).1) (hdata : dom'.data = dom.data)
    (hacyclic : Acyclic dom.Edge) :
    Acyclic dom'.Edge ↔ (Mutation.tree call).Guarded dom := by
  have hbelow : Below dom.parentNode = fun child parent => child ∈ lists parent := h.linked.below_eq
  cases call with
  | appendChild node child =>
    rw [Mutation.Guarded, hbelow]
    by_cases hunder : lists.Under node child
    · rw [TreeCall.onLists, if_pos hunder] at h'
      exact iff_of_true (acyclic_of_lists h h' hdata hacyclic fun _ _ => id) fun _ => hunder
    · rw [TreeCall.onLists, if_neg hunder] at h'
      rw [acyclic_move_iff h h' hdata hacyclic fun _ heq => by cases heq]
      exact (imp_iff_not hunder).symm
  | insertBefore node newChild referenceChild =>
    rw [Mutation.Guarded, hbelow, h.parent_iff]
    by_cases hunder : lists.Under node newChild
    · rw [TreeCall.onLists, if_pos hunder] at h'
      exact iff_of_true (acyclic_of_lists h h' hdata hacyclic fun _ _ => id) fun _ _ => hunder
    · rw [TreeCall.onLists, if_neg hunder] at h'
      by_cases hmem : referenceChild ∈ lists node
      · rw [if_neg (not_not.mpr hmem)] at h'
        by_cases hsame : newChild = referenceChild
        · -- the node is a child already, and does not lead to its parent
          rw [if_pos hsame] at h'
          have hedge : dom.Edge node newChild := (edge_iff h).mpr (.inl (hsame ▸ hmem))
          exact iff_of_true (acyclic_of_lists h h' hdata hacyclic fun _ _ => id)
            fun _ hway => (hacyclic.not_leads_back hedge hway).elim
        · rw [if_neg hsame] at h'
          rw [acyclic_move_iff h h' hdata hacyclic
            fun other heq => Option.some.inj heq ▸ ⟨hmem, Ne.symm hsame⟩]
          exact ⟨fun hnot _ hway => (hnot hway).elim, fun hguarded hway => hunder (hguarded hmem hway)⟩
      · rw [if_pos hmem] at h'
        exact iff_of_true (acyclic_of_lists h h' hdata hacyclic fun _ _ => id)
          fun hmem' => (hmem hmem').elim
  | removeChild node child =>
    refine iff_of_true (acyclic_of_lists h h' hdata hacyclic fun parent other hmem => ?_) trivial
    exact (mem_onLists hmem).resolve_right fun hnot => hnot.2

/-- A call that ends keeps the edges acyclic exactly when it is guarded. -/
theorem acyclic_iff_guarded (h : Consistent dom lists) (hacyclic : Acyclic dom.Edge)
    (hstructural : mutation.Structural) (hends : mutation.Ends dom dom') :
    Acyclic dom'.Edge ↔ mutation.Guarded dom := by
  have h' := h.step hends
  obtain ⟨hknown, limit, hperform⟩ := hends
  cases mutation with
  | create source =>
    cases hperform
    refine iff_of_true ?_ trivial
    exact hacyclic.add (fun _ _ => edge_create h) (not_leads_of_unborn h le_rfl (Nat.lt_succ_self _).ne)
  | attachShadow host mode =>
    cases hperform
    refine iff_of_true ?_ trivial
    have hhost : host < dom.nextId := hknown host (List.mem_singleton_self _)
    exact hacyclic.add (fun _ _ => edge_attachShadow h) (not_leads_of_unborn h le_rfl hhost.ne')
  | tree call =>
    obtain ⟨⟨between, result⟩, hbetween, rfl⟩ := Option.map_eq_some_iff.mp hperform
    obtain ⟨-, hmoves⟩ := Documents.performTree_spec hbetween
    refine acyclic_iff_guarded_tree h h' ?_ hacyclic
    rcases hmoves with rfl | hmoves
    · rfl
    · obtain ⟨_, _, _, rfl⟩ := hmoves.eq
      rfl
  | _ => exact hstructural.elim

end

/-! ## Runs -/

/-- The edges are acyclic, and the walks over them end from every node. -/
structure Documents.Sound (dom : Documents) : Prop where
  acyclic : Acyclic dom.Edge
  clearTopLayerState_ends : ∀ node, ∃ limit dom', dom.clearTopLayerState limit node = some dom'
  clearScrollOffsets_ends : ∀ node, ∃ limit dom', dom.clearScrollOffsets limit node = some dom'
  walks_end : ∀ visit, (∀ dom node, Documents.Presents dom (visit dom node)) →
    ∀ node, ∃ limit dom', Documents.walk visit limit dom node = some dom'

section

variable {dom dom' : Documents} {lists : ChildLists} {steps : List Step}

theorem Consistent.sound (h : Consistent dom lists) (hacyclic : Acyclic dom.Edge) : dom.Sound := by
  have hends : ∀ visit, (∀ dom node, Documents.Presents dom (visit dom node)) →
      ∀ node, ∃ limit dom', Documents.walk visit limit dom node = some dom' := by
    intro visit hvisit node
    obtain ⟨limit, hlimit⟩ := Documents.walkEnds h (Acyclic.wellFounded_edge h hacyclic) hvisit node
    exact ⟨limit, hlimit dom .refl⟩
  exact ⟨hacyclic, hends _ fun _ _ => Documents.presents_presentAt _,
    hends _ fun _ _ => Documents.presents_presentAt _, hends⟩

theorem acyclic_initial : Acyclic Documents.initial.Edge := by
  intro node hloop
  obtain ⟨target, hedge, -⟩ := TransGen.head'_iff.mp hloop
  exact Nat.not_lt_zero _ (edge_known .initial hedge).1

/-- In a run of calls on nodes, the tree and shadow roots, the documents are sound after every call
exactly when every call is guarded. -/
theorem sound_iff_guarded (hrun : Steps .initial steps dom)
    (hstructural : ∀ step ∈ steps, step.mutation.Structural) :
    (∀ step ∈ steps, step.after.Sound) ↔ ∀ step ∈ steps, step.mutation.Guarded step.before := by
  let Fine : Documents → Prop := fun dom => (∃ lists, Consistent dom lists) ∧ Acyclic dom.Edge
  have hstart : Fine .initial := ⟨⟨_, .initial⟩, acyclic_initial⟩
  have hstep : ∀ step ∈ steps, Fine step.before →
      (Acyclic step.after.Edge ↔ step.mutation.Guarded step.before) :=
    fun step hmem ⟨⟨_, h⟩, hacyclic⟩ =>
      acyclic_iff_guarded h hacyclic (hstructural step hmem) step.ends
  have hafter : ∀ step ∈ steps, Fine step.before → Acyclic step.after.Edge → Fine step.after :=
    fun step _ ⟨⟨_, h⟩, _⟩ hacyclic => ⟨⟨_, h.step step.ends⟩, hacyclic⟩
  constructor
  · intro hsound step hmem
    have hbefore := hrun.forall_before
      (fun step hmem hfine => hafter step hmem hfine (hsound step hmem).acyclic) hstart
    exact (hstep step hmem (hbefore step hmem)).mp (hsound step hmem).acyclic
  · intro hguarded step hmem
    have hkeep : ∀ step ∈ steps, Fine step.before → Fine step.after := fun step hmem hfine =>
      hafter step hmem hfine ((hstep step hmem hfine).mpr (hguarded step hmem))
    obtain ⟨⟨_, h⟩, hacyclic⟩ := hkeep step hmem (hrun.forall_before hkeep hstart step hmem)
    exact h.sound hacyclic

end

/-- An element with a shadow root, and another element. -/
def shadowTree : List Mutation :=
  [.create (.element (.new "div".toList)), .attachShadow 0 .opened,
    .create (.element (.new "span".toList))]

/-- The calls of a run are those that are listed. -/
theorem structural_of_listed {steps : List Step} {mutations : List Mutation}
    (hmutations : steps.map Step.mutation = mutations)
    (hstructural : ∀ mutation ∈ mutations, mutation.Structural) :
    ∀ step ∈ steps, step.mutation.Structural := by
  subst hmutations
  exact fun step hmem => hstructural _ (List.mem_map_of_mem hmem)

/-- The other element is put into the shadow tree. -/
theorem sound_of_child_of_root : ∃ steps dom, Steps .initial steps dom ∧
    steps.map Step.mutation = shadowTree ++ [.tree (.appendChild 1 2)] ∧ dom.Edge 1 2 ∧ dom.Sound := by
  let place : Mutation := .tree (.appendChild 1 2)
  let first : Step := ⟨.initial, .create (.element (.new "div".toList)), .after 4 (shadowTree.take 1),
    by decide, 0, rfl⟩
  let second : Step := ⟨.after 4 (shadowTree.take 1), .attachShadow 0 .opened,
    .after 4 (shadowTree.take 2), by decide, 0, rfl⟩
  let third : Step := ⟨.after 4 (shadowTree.take 2), .create (.element (.new "span".toList)),
    .after 4 shadowTree, by decide, 0, rfl⟩
  let last : Step := ⟨.after 4 shadowTree, place, .after 4 (shadowTree ++ [place]), by decide, 4, rfl⟩
  have hbefore : Steps .initial [first, second, third] (.after 4 shadowTree) :=
    @Steps.cons first _ _ (@Steps.cons second _ _ (@Steps.cons third _ _ .nil))
  have hsteps : Steps .initial [first, second, third, last] last.after :=
    @Steps.cons first _ _ (@Steps.cons second _ _ (@Steps.cons third _ _ (@Steps.cons last _ _ .nil)))
  have hguarded : place.Guarded (.after 4 shadowTree) := by
    -- the other element leads nowhere
    intro hway
    obtain ⟨lists, h⟩ := Consistent.reachable ⟨_, hbefore⟩
    rcases ReflTransGen.cases_head hway with heq | ⟨target, hedge, -⟩
    · cases heq
    · have hleaf : ∀ target < 3, ¬ (Documents.after 4 shadowTree).Edge 2 target := by decide
      exact (hleaf target (edge_known h hedge).2 hedge).elim
  refine ⟨_, _, hsteps, rfl, by decide, ?_⟩
  have hstructural : ∀ step ∈ [first, second, third, last], step.mutation.Structural :=
    structural_of_listed rfl (by decide)
  refine (sound_iff_guarded hsteps hstructural).mpr (fun step hmem => ?_) last (by simp)
  simp only [List.mem_cons, List.not_mem_nil, or_false] at hmem
  rcases hmem with rfl | rfl | rfl | rfl
  · trivial
  · trivial
  · trivial
  · exact hguarded

/-- The host is put into its own shadow tree, and no walk from it ends. -/
theorem host_in_own_shadow_tree : ∃ steps dom, Steps .initial steps dom ∧
    steps.map Step.mutation = shadowTree ++ [.tree (.appendChild 1 0)] ∧
      (∀ step ∈ steps, step.mutation.Structural) ∧ TransGen dom.Edge 0 0 ∧
      ∀ limit, dom.clearTopLayerState limit 0 = none ∧ dom.clearScrollOffsets limit 0 = none := by
  obtain ⟨steps, hsteps, hmutations⟩ := @Steps.of_performAll 4
    (shadowTree ++ [.tree (.appendChild 1 0)]) .initial
    (.after 4 (shadowTree ++ [.tree (.appendChild 1 0)])) rfl
  obtain ⟨lists, h⟩ := Consistent.reachable ⟨steps, hsteps⟩
  have hroot : (Documents.after 4 (shadowTree ++ [.tree (.appendChild 1 0)])).Edge 0 1 := by decide
  have hhost : (Documents.after 4 (shadowTree ++ [.tree (.appendChild 1 0)])).Edge 1 0 := by decide
  have hcycle := TransGen.tail (.single hroot) hhost
  refine ⟨steps, _, hsteps, hmutations, structural_of_listed hmutations (by decide), hcycle,
    fun limit => ⟨?_, ?_⟩⟩
  · exact Documents.not_walk_of_cycle h (fun _ _ => Documents.presents_presentAt _) hcycle
  · exact Documents.not_walk_of_cycle h (fun _ _ => Documents.presents_presentAt _) hcycle

end Omoikane.Dom.Live
