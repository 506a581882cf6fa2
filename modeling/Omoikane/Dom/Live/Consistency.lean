import Omoikane.Dom.Integrity
import Omoikane.Dom.Live.Mutations

/-!
# Consistency

What holds of the documents after any calls: the nodes hold some child lists, links and payloads lead
to nodes that were created, and a shadow root and its host know each other.
-/

namespace Omoikane.Dom.Live

open Base

/-- The documents hold some child lists, and their links and payloads fit together. -/
structure Consistent (dom : Documents) (lists : ChildLists) : Prop where
  linked : Linked dom.links lists
  known : ∀ node child, child ∈ lists node → node < dom.nextId ∧ child < dom.nextId
  unborn : ∀ node, dom.nextId ≤ node → dom.data node = .text
  content_known : ∀ node content, dom.templateContent node = some content → content < dom.nextId
  root_iff : ∀ host root, dom.shadowRoot host = some root ↔ dom.shadowHost root = some host

namespace Documents

variable {dom dom' : Documents} {node : NodeHandle}

theorem templateContent_eq_some_iff {content : NodeHandle} :
    dom.templateContent node = some content ↔
      ∃ element, dom.data node = .element element ∧ element.templateContent = some content := by
  simp only [templateContent, Option.bind_eq_some_iff, element?_eq_some_iff]

theorem shadowRoot_eq_some_iff {root : NodeHandle} :
    dom.shadowRoot node = some root ↔
      ∃ element, dom.data node = .element element ∧ element.shadowRoot = some root := by
  simp only [shadowRoot, Option.bind_eq_some_iff, element?_eq_some_iff]

theorem shadowHost_eq_some_iff {host : NodeHandle} :
    dom.shadowHost node = some host ↔
      ∃ root, dom.data node = .shadowRoot root ∧ root.host = host := by
  simp only [shadowHost, Option.map_eq_some_iff, shadowRoot?_eq_some_iff]

end Documents

namespace Consistent

variable {dom dom' : Documents} {lists : ChildLists} {node child : NodeHandle}

theorem parent_iff (h : Consistent dom lists) :
    dom.parentNode child = some node ↔ child ∈ lists node := h.linked.parent_iff child node

theorem childNodes (h : Consistent dom lists) (node : NodeHandle) :
    dom.childNodes node = some (lists node) := h.linked.integrity.childNodes node

/-- A shadow root and its host were created. -/
theorem root_known (h : Consistent dom lists) {host root : NodeHandle}
    (hroot : dom.shadowRoot host = some root) : host < dom.nextId ∧ root < dom.nextId := by
  constructor
  · by_contra hnot
    obtain ⟨element, helement, -⟩ := Documents.shadowRoot_eq_some_iff.mp hroot
    rw [h.unborn host (Nat.le_of_not_lt hnot)] at helement
    cases helement
  · by_contra hnot
    obtain ⟨payload, hpayload, -⟩ := Documents.shadowHost_eq_some_iff.mp ((h.root_iff _ _).mp hroot)
    rw [h.unborn root (Nat.le_of_not_lt hnot)] at hpayload
    cases hpayload

theorem element_known (h : Consistent dom lists) {element : Element}
    (helement : dom.data node = .element element) : node < dom.nextId := by
  by_contra hnot
  rw [h.unborn node (Nat.le_of_not_lt hnot)] at helement
  cases helement

theorem initial : Consistent .initial fun _ => [] where
  linked := .unlinked fun _ => ⟨rfl, rfl⟩
  known _ _ hmem := by cases hmem
  unborn _ _ := rfl
  content_known _ _ h := by cases h
  root_iff _ _ := ⟨nofun, nofun⟩

/-- Other links, of the same nodes. -/
theorem congr {lists' : ChildLists} (h : Consistent dom lists) (hlinked : Linked dom'.links lists')
    (hknown : ∀ node child, child ∈ lists' node → node < dom.nextId ∧ child < dom.nextId)
    (hnext : dom'.nextId = dom.nextId) (hdata : dom'.data = dom.data) : Consistent dom' lists' where
  linked := hlinked
  known := by rwa [hnext]
  unborn := by rw [hnext, hdata]; exact h.unborn
  content_known := by
    rw [hnext]
    intro node content hcontent
    refine h.content_known node content ?_
    rwa [Documents.templateContent, Documents.element?, hdata] at hcontent
  root_iff host root := by
    rw [Documents.shadowRoot, Documents.shadowHost, Documents.element?, Documents.shadowRoot?, hdata]
    exact h.root_iff host root

/-- A payload is written that leads where the one before led. -/
theorem setData (h : Consistent dom lists) {data : NodeData} (hknown : node < dom.nextId)
    (hcontent : ∀ content, (dom.setData node data).templateContent node = some content →
      content < dom.nextId)
    (hroot : (dom.setData node data).shadowRoot node = dom.shadowRoot node)
    (hhost : (dom.setData node data).shadowHost node = dom.shadowHost node) :
    Consistent (dom.setData node data) lists where
  linked := h.linked
  known := h.known
  unborn other hother := by
    rw [Documents.setData_of_ne _ (hknown.trans_le hother).ne']
    exact h.unborn other hother
  content_known other content := by
    by_cases hother : other = node
    · rw [hother]
      exact hcontent content
    · rw [Documents.templateContent, Documents.element?, Documents.setData_of_ne _ hother]
      exact h.content_known other content
  root_iff host root := by
    have hroot' : (dom.setData node data).shadowRoot host = dom.shadowRoot host := by
      by_cases hother : host = node
      · rw [hother, hroot]
      · rw [Documents.shadowRoot, Documents.element?, Documents.setData_of_ne _ hother]
        rfl
    have hhost' : (dom.setData node data).shadowHost root = dom.shadowHost root := by
      by_cases hother : root = node
      · rw [hother, hhost]
      · rw [Documents.shadowHost, Documents.shadowRoot?, Documents.setData_of_ne _ hother]
        rfl
    rw [hroot', hhost']
    exact h.root_iff host root

/-- An element is written with the shadow root it had. -/
theorem setElement (h : Consistent dom lists) {element element' : Element}
    (helement : dom.data node = .element element)
    (hcontent : ∀ content, element'.templateContent = some content → content < dom.nextId)
    (hroot : element'.shadowRoot = element.shadowRoot) :
    Consistent (dom.setData node (.element element')) lists := by
  refine h.setData (h.element_known helement) (fun content hcontent' => ?_) ?_ ?_
  · obtain ⟨_, heq, hcontent'⟩ := Documents.templateContent_eq_some_iff.mp hcontent'
    rw [Documents.setData_self] at heq
    cases heq
    exact hcontent content hcontent'
  · rw [Documents.shadowRoot, Documents.shadowRoot, Documents.element?_eq_some_iff.mpr helement,
      Documents.element?_eq_some_iff.mpr (Documents.setData_self _), Option.bind_some, hroot]
    rfl
  · rw [Documents.shadowHost, Documents.shadowHost, Documents.shadowRoot?, Documents.shadowRoot?,
      Documents.setData_self, helement]

/-- A shadow root is written with the host it had. -/
theorem setShadowRoot (h : Consistent dom lists) {root root' : ShadowRoot}
    (hroot : dom.data node = .shadowRoot root) (hhost : root'.host = root.host) :
    Consistent (dom.setData node (.shadowRoot root')) lists := by
  have hknown : node < dom.nextId := by
    by_contra hnot
    rw [h.unborn node (Nat.le_of_not_lt hnot)] at hroot
    cases hroot
  refine h.setData hknown (fun content hcontent => ?_) ?_ ?_
  · obtain ⟨_, heq, -⟩ := Documents.templateContent_eq_some_iff.mp hcontent
    rw [Documents.setData_self] at heq
    cases heq
  · rw [Documents.shadowRoot, Documents.shadowRoot, Documents.element?, Documents.element?,
      Documents.setData_self, hroot]
  · rw [Documents.shadowHost, Documents.shadowHost, Documents.shadowRoot?_eq_some_iff.mpr hroot,
      Documents.shadowRoot?_eq_some_iff.mpr (Documents.setData_self _), Option.map_some, hhost]
    rfl

theorem invalidate (h : Consistent dom lists) (h' : dom.invalidateSlotAssignments = some dom') :
    Consistent dom' lists := by
  obtain ⟨_, -, rfl⟩ := Option.map_eq_some_iff.mp h'
  exact h.congr h.linked h.known rfl rfl

/-- The links of a node that is created are those of a node without a parent and without children,
as before. -/
theorem linked_mint (h : Consistent dom lists) (data : NodeData) :
    Linked (dom.mint data).links lists := by
  have hempty : lists dom.nextId = [] := by
    refine List.eq_nil_iff_forall_not_mem.mpr fun child hmem => ?_
    exact Nat.lt_irrefl _ (h.known _ child hmem).1
  have horphan : dom.links.parentNode dom.nextId = none := by
    refine Option.eq_none_iff_forall_ne_some.mpr fun parent hparent => ?_
    exact Nat.lt_irrefl _ (h.known _ _ ((h.linked.parent_iff _ _).mp hparent)).2
  have hparent : (dom.mint data).links.parentNode = dom.links.parentNode := by
    funext other
    by_cases hother : other = dom.nextId
    · rw [hother, horphan, LinkedNodes.parentNode, Documents.mint]
      dsimp only
      rw [Function.update_self]
    · rw [LinkedNodes.parentNode, Documents.mint_links_of_ne _ hother]
      rfl
  refine ⟨fun other => ?_, h.linked.nodup, fun other parent => ?_, ?_⟩
  · by_cases hother : other = dom.nextId
    · refine ⟨[], ?_, by rw [hother, hempty]; rfl, fun _ hmem => by cases hmem⟩
      rw [hother, Documents.mint]
      dsimp only
      rw [Function.update_self]
      exact Holds.default
    · obtain ⟨entries, hholds, hmap, hslots⟩ := h.linked.entries other
      refine ⟨entries, ?_, hmap, fun entry hentry => ?_⟩
      · rwa [Documents.mint_links_of_ne _ hother]
      · have hchild : entry.2 ∈ lists other := by
          rw [← hmap]
          exact List.mem_map_of_mem hentry
        rw [Documents.mint_links_of_ne _ (h.known _ _ hchild).2.ne]
        exact hslots entry hentry
  · rw [hparent]
    exact h.linked.parent_iff other parent
  · rw [hparent]
    exact h.linked.rooted

/-- A node is created that leads to no shadow root. -/
theorem mint (h : Consistent dom lists) {data : NodeData}
    (hroot : ∀ root, data ≠ .shadowRoot root)
    (helement : ∀ element, data = .element element → element.shadowRoot = none ∧
      ∀ content, element.templateContent = some content → content < dom.nextId) :
    Consistent (dom.mint data) lists where
  linked := h.linked_mint data
  known other child hmem :=
    (h.known other child hmem).imp (Nat.lt_succ_of_lt ·) (Nat.lt_succ_of_lt ·)
  unborn other hother := by
    rw [Documents.mint_data_of_ne _ (Nat.ne_of_gt hother)]
    exact h.unborn other (Nat.le_of_succ_le hother)
  content_known other content hcontent := by
    obtain ⟨element, heq, hcontent⟩ := Documents.templateContent_eq_some_iff.mp hcontent
    refine Nat.lt_succ_of_lt ?_
    by_cases hother : other = dom.nextId
    · rw [hother, Documents.mint_data_self] at heq
      exact (helement element heq).2 content hcontent
    · rw [Documents.mint_data_of_ne _ hother] at heq
      exact h.content_known other content (Documents.templateContent_eq_some_iff.mpr ⟨_, heq, hcontent⟩)
  root_iff host root := by
    have hroot' : (dom.mint data).shadowRoot host = dom.shadowRoot host := by
      by_cases hother : host = dom.nextId
      · rw [hother, Documents.shadowRoot, Documents.shadowRoot, Documents.element?,
          Documents.element?, Documents.mint_data_self, h.unborn _ le_rfl]
        cases data with
        | element element => exact (helement element rfl).1
        | _ => rfl
      · rw [Documents.shadowRoot, Documents.element?, Documents.mint_data_of_ne _ hother]
        rfl
    have hhost' : (dom.mint data).shadowHost root = dom.shadowHost root := by
      by_cases hother : root = dom.nextId
      · rw [hother, Documents.shadowHost, Documents.shadowHost, Documents.shadowRoot?,
          Documents.shadowRoot?, Documents.mint_data_self, h.unborn _ le_rfl]
        cases data with
        | shadowRoot root => exact (hroot root rfl).elim
        | _ => rfl
      · rw [Documents.shadowHost, Documents.shadowRoot?, Documents.mint_data_of_ne _ hother]
        rfl
    rw [hroot', hhost']
    exact h.root_iff host root

theorem build_shadowRoot (name : ElementName) (fragment : NodeHandle) :
    (name.build fragment).shadowRoot = none := by
  cases name <;> rfl

theorem build_templateContent {name : ElementName} {fragment content : NodeHandle}
    (h : (name.build fragment).templateContent = some content) : content = fragment := by
  cases name with
  | newXml => cases h
  | new | newNamed | newHtmlNs =>
    rw [ElementName.build, Element.blank] at h
    dsimp only at h
    split at h
    next => exact (Option.some.inj h).symm
    next => cases h

theorem create (h : Consistent dom lists) (source : NodeSource) :
    Consistent (dom.create source) lists := by
  have hplain : ∀ {dom : Documents} {data : NodeData}, Consistent dom lists →
      (∀ root, data ≠ .shadowRoot root) → (∀ element, data ≠ .element element) →
      Consistent (dom.mint data) lists := fun h hroot helement =>
    h.mint hroot fun element heq => (helement element heq).elim
  cases source with
  | element name =>
    rw [Documents.create]
    split
    next hnone =>
      refine h.mint (fun _ heq => by cases heq) fun element heq => ?_
      cases heq
      refine ⟨build_shadowRoot _ _, fun content hcontent => ?_⟩
      rw [hnone] at hcontent
      cases hcontent
    next =>
      have hfragment : Consistent (dom.mint .documentFragment) lists :=
        hplain h (fun _ heq => by cases heq) fun _ heq => by cases heq
      refine hfragment.mint (fun _ heq => by cases heq) fun element heq => ?_
      cases heq
      refine ⟨build_shadowRoot _ _, fun content hcontent => ?_⟩
      rw [build_templateContent hcontent]
      exact Nat.lt_succ_self _
  | _ => refine hplain h ?_ ?_ <;> intro _ heq <;> cases heq

/-- What is at a host that got a shadow root, at the root, and elsewhere. -/
theorem attached_data {host : NodeHandle} (hknown : host < dom.nextId) (element : Element)
    (root : ShadowRoot) :
    let dom' := (dom.mint (.shadowRoot root)).setData host (.element element)
    dom'.data host = .element element ∧ dom'.data dom.nextId = .shadowRoot root ∧
      ∀ other, other ≠ host → other ≠ dom.nextId → dom'.data other = dom.data other := by
  refine ⟨Documents.setData_self _, ?_, fun other hother hnext => ?_⟩
  · rw [Documents.setData_of_ne _ hknown.ne', Documents.mint_data_self]
  · rw [Documents.setData_of_ne _ hother, Documents.mint_data_of_ne _ hnext]

/-- An element gets a shadow root. -/
theorem attachShadow (h : Consistent dom lists) (host : NodeHandle) (mode : ShadowRootMode) :
    Consistent (dom.attachShadow host mode).1 lists := by
  unfold Documents.attachShadow
  split
  next element helement =>
    split
    next => exact h
    next hnone =>
      have hknown := h.element_known helement
      obtain ⟨hhost, hroot, hother⟩ := attached_data hknown
        { element with shadowRoot := some dom.nextId } (.blank host mode)
      have hunknown : dom.data dom.nextId = .text := h.unborn _ le_rfl
      refine ⟨h.linked_mint (.shadowRoot (.blank host mode)), fun other child hmem =>
        (h.known other child hmem).imp (Nat.lt_succ_of_lt ·) (Nat.lt_succ_of_lt ·),
        fun other hmem => ?_, fun other content hcontent => ?_, fun other root => ?_⟩
      · rw [hother other (hknown.trans hmem).ne' (Nat.ne_of_gt hmem)]
        exact h.unborn other (Nat.le_of_succ_le hmem)
      · obtain ⟨other', heq, hcontent⟩ := Documents.templateContent_eq_some_iff.mp hcontent
        refine Nat.lt_succ_of_lt (h.content_known other content ?_)
        rw [Documents.templateContent_eq_some_iff]
        by_cases hsame : other = host
        · rw [hsame, hhost] at heq
          cases heq
          exact ⟨element, hsame ▸ helement, hcontent⟩
        · by_cases hnew : other = dom.nextId
          · rw [hnew, hroot] at heq
            cases heq
          · rw [hother other hsame hnew] at heq
            exact ⟨other', heq, hcontent⟩
      · constructor
        · intro hleads
          obtain ⟨other', heq, hleads⟩ := Documents.shadowRoot_eq_some_iff.mp hleads
          rw [Documents.shadowHost_eq_some_iff]
          by_cases hsame : other = host
          · rw [hsame, hhost] at heq
            cases heq
            cases hleads
            exact ⟨_, hroot, hsame.symm⟩
          · have hnew : other ≠ dom.nextId := by
              rintro rfl
              rw [hroot] at heq
              cases heq
            rw [hother other hsame hnew] at heq
            obtain ⟨payload, hpayload, hback⟩ := Documents.shadowHost_eq_some_iff.mp
              ((h.root_iff _ _).mp (Documents.shadowRoot_eq_some_iff.mpr ⟨_, heq, hleads⟩))
            refine ⟨payload, ?_, hback⟩
            rw [hother root ?_ ?_, hpayload]
            · rintro rfl
              rw [helement] at hpayload
              cases hpayload
            · rintro rfl
              rw [hunknown] at hpayload
              cases hpayload
        · intro hleads
          obtain ⟨payload, heq, hleads⟩ := Documents.shadowHost_eq_some_iff.mp hleads
          rw [Documents.shadowRoot_eq_some_iff]
          by_cases hnew : root = dom.nextId
          · rw [hnew, hroot] at heq
            cases heq
            cases hleads
            exact ⟨_, hhost, congrArg some hnew.symm⟩
          · have hsame : root ≠ host := by
              rintro rfl
              rw [hhost] at heq
              cases heq
            rw [hother root hsame hnew] at heq
            obtain ⟨other', hother', hback⟩ := Documents.shadowRoot_eq_some_iff.mp
              ((h.root_iff _ _).mpr (Documents.shadowHost_eq_some_iff.mpr ⟨_, heq, hleads⟩))
            refine ⟨other', ?_, hback⟩
            rw [hother other ?_ ?_, hother']
            · rintro rfl
              rw [helement] at hother'
              cases hother'
              rw [hnone] at hback
              cases hback
            · rintro rfl
              rw [hunknown] at hother'
              cases hother'
  next => exact h

end Consistent

/-! ## Calls -/

theorem mem_placeBefore {new reference other : NodeHandle} {children : List NodeHandle}
    (h : other ∈ placeBefore new reference children) : other = new ∨ other ∈ children := by
  induction children with
  | nil => cases h
  | cons child children ih =>
    rw [placeBefore] at h
    split at h
    next => exact List.mem_cons.mp h
    next =>
      rcases List.mem_cons.mp h with rfl | h
      · exact .inr List.mem_cons_self
      · exact (ih h).imp_right (List.mem_cons_of_mem _)

/-- A move makes a child of one node. -/
theorem mem_move {lists : ChildLists} {node child parent other : NodeHandle}
    {reference : Option NodeHandle} (h : other ∈ lists.move node child reference parent) :
    other ∈ lists parent ∨ (parent = node ∧ other = child) := by
  by_cases hparent : parent = node
  · subst hparent
    rw [ChildLists.move, Function.update_self] at h
    have hplaced : other = child ∨ other ∈ (lists parent).erase child := by
      cases reference with
      | none =>
        rcases List.mem_append.mp h with h | h
        · exact .inr h
        · exact .inl (List.mem_singleton.mp h)
      | some reference => exact mem_placeBefore h
    exact hplaced.symm.imp List.mem_of_mem_erase fun heq => ⟨rfl, heq⟩
  · rw [ChildLists.move, Function.update_of_ne hparent] at h
    exact .inl (List.mem_of_mem_erase h)

/-- A call on lists makes a child of one node at most: the one that it is called for. -/
theorem mem_onLists {lists : ChildLists} {call : TreeCall} {parent other : NodeHandle}
    (h : other ∈ (call.onLists lists).1 parent) :
    other ∈ lists parent ∨ (¬ call.Refused lists ∧ match call with
      | .appendChild node child | .insertBefore node child _ => parent = node ∧ other = child
      | .removeChild _ _ => False) := by
  cases call with
  | appendChild node child =>
    rw [TreeCall.onLists] at h
    split at h
    next => exact .inl h
    next hrefused => exact (mem_move h).imp_right fun heq => ⟨hrefused, heq⟩
  | insertBefore node child reference =>
    rw [TreeCall.onLists] at h
    split at h
    next => exact .inl h
    next hcyclic =>
      split at h
      next => exact .inl h
      next hreference =>
        split at h
        next => exact .inl h
        next => exact (mem_move h).imp_right fun heq => ⟨not_or.mpr ⟨hcyclic, hreference⟩, heq⟩
  | removeChild node child =>
    rw [TreeCall.onLists] at h
    split at h
    next =>
      dsimp only at h
      refine .inl ?_
      by_cases hparent : parent = node
      · rw [hparent, Function.update_self] at h
        exact hparent ▸ List.mem_of_mem_erase h
      · rwa [Function.update_of_ne hparent] at h
    next => exact .inl h

/-- The lists that the documents hold after a call. -/
noncomputable def Mutation.onLists (lists : ChildLists) : Mutation → ChildLists
  | .tree call => (call.onLists lists).1
  | _ => lists

theorem mem_placeBefore_of_mem {new reference other : NodeHandle} {children : List NodeHandle}
    (h : other ∈ children) : other ∈ placeBefore new reference children := by
  induction children with
  | nil => cases h
  | cons child children ih =>
    rw [placeBefore]
    split
    next => exact List.mem_cons_of_mem _ h
    next =>
      rcases List.mem_cons.mp h with rfl | h
      · exact List.mem_cons_self
      · exact List.mem_cons_of_mem _ (ih h)

/-- Other children than the one that is moved stay where they are. -/
theorem mem_move_of_ne {lists : ChildLists} {node child parent other : NodeHandle}
    {reference : Option NodeHandle}
    (h : other ∈ lists parent) (hne : other ≠ child) :
    other ∈ lists.move node child reference parent := by
  have herase : ∀ parent, other ∈ lists parent → other ∈ (lists parent).erase child :=
    fun _ h => (List.mem_erase_of_ne hne).mpr h
  rw [ChildLists.move]
  by_cases hparent : parent = node
  · subst hparent
    rw [Function.update_self]
    cases reference with
    | none => exact List.mem_append_left _ (herase _ h)
    | some reference => exact mem_placeBefore_of_mem (herase _ h)
  · rw [Function.update_of_ne hparent]
    exact herase _ h

namespace Consistent

variable {dom dom' : Documents} {lists : ChildLists} {mutation : Mutation}

theorem tree (h : Consistent dom lists) {call : TreeCall} {result : Except DomError Unit}
    (hknown : (Mutation.tree call).Known dom) (hends : call.Ends dom.links dom'.links result)
    (hmoves : dom' = dom ∨ dom.Moves dom') : Consistent dom' (call.onLists lists).1 := by
  have hsame : dom'.nextId = dom.nextId ∧ dom'.data = dom.data := by
    rcases hmoves with rfl | hmoves
    · exact ⟨rfl, rfl⟩
    · obtain ⟨_, _, _, rfl⟩ := hmoves.eq
      exact ⟨rfl, rfl⟩
  refine h.congr (h.linked.call hends).2.linked (fun node child hmem => ?_) hsame.1 hsame.2
  rcases mem_onLists hmem with hmem | ⟨-, hmem⟩
  · exact h.known node child hmem
  · cases call with
    | appendChild | insertBefore =>
      obtain ⟨rfl, rfl⟩ := hmem
      exact ⟨hknown _ List.mem_cons_self, hknown _ (List.mem_cons_of_mem _ List.mem_cons_self)⟩
    | removeChild => exact hmem.elim

theorem presents (h : Consistent dom lists) (hpresents : dom.Presents dom') :
    Consistent dom' lists := by
  obtain ⟨_, rfl⟩ := hpresents
  exact h.congr h.linked h.known rfl rfl

/-- What a call that ends leaves is consistent, and holds the lists that the call gives. -/
theorem step (h : Consistent dom lists) (hends : mutation.Ends dom dom') :
    Consistent dom' (mutation.onLists lists) := by
  obtain ⟨hknown, limit, hperform⟩ := hends
  cases mutation with
  | create source =>
    cases hperform
    exact h.create source
  | tree call =>
    obtain ⟨⟨between, result⟩, hbetween, rfl⟩ := Option.map_eq_some_iff.mp hperform
    obtain ⟨hends, hmoves⟩ := Documents.performTree_spec hbetween
    exact h.tree hknown hends hmoves
  | attachShadow host mode =>
    cases hperform
    exact h.attachShadow host mode
  | setTemplateContent node content =>
    cases hperform
    unfold Documents.setTemplateContent
    split
    next element helement =>
      split
      next =>
        refine h.setElement helement (fun content' hcontent => ?_) rfl
        rw [← Option.some.inj hcontent]
        exact hknown content (List.mem_cons_of_mem _ (List.mem_singleton_self _))
      next => exact h
    next => exact h
  | attributes node call =>
    rw [Mutation.perform, Documents.performAttribute] at hperform
    split at hperform
    next element helement =>
      split at hperform
      next element' names hcall =>
        obtain ⟨epochs, -, rfl⟩ := Option.map_eq_some_iff.mp hperform
        obtain ⟨hcontent, hroot⟩ := AttributeCall.leads_of_perform hcall
        have hwritten : Consistent (dom.setData node (.element element')) lists := by
          refine h.setElement helement (fun content hcontent' => ?_) hroot
          exact h.content_known node content (Documents.templateContent_eq_some_iff.mpr
            ⟨element, helement, hcontent ▸ hcontent'⟩)
        exact hwritten.congr hwritten.linked hwritten.known rfl rfl
      next =>
        cases hperform
        exact h
    next =>
      cases hperform
      exact h
  | setShadowRootSettings root settings =>
    obtain ⟨⟨between, changed⟩, hbetween, rfl⟩ := Option.map_eq_some_iff.mp hperform
    cases Documents.settingsSet hbetween with
    | other => exact h
    | same hroot => exact h.setShadowRoot hroot rfl
    | changed hroot hinvalidate =>
      refine Consistent.invalidate ?_ hinvalidate
      exact h.setShadowRoot hroot rfl
  | assignSlottables slot nodes =>
    obtain ⟨⟨between, assigned⟩, hbetween, rfl⟩ := Option.map_eq_some_iff.mp hperform
    cases Documents.slottablesAssigned hbetween with
    | refused => exact h
    | assigned _ hroot _ hinvalidate =>
      refine Consistent.invalidate ?_ hinvalidate
      exact h.setShadowRoot hroot rfl
  | slotAssignments root =>
    obtain ⟨⟨between, assignments⟩, hbetween, rfl⟩ := Option.map_eq_some_iff.mp hperform
    cases Documents.slotAssigned hbetween with
    | other | cached => exact h
    | made hroot => exact h.setShadowRoot hroot rfl
  | present node call =>
    cases hperform
    exact h.presents (Documents.presents_presentAt _)

/-- After any calls the documents are consistent. -/
theorem reachable (h : dom.Reachable) : ∃ lists, Consistent dom lists := by
  obtain ⟨steps, hsteps⟩ := h
  exact hsteps.invariant (I := fun dom => ∃ lists, Consistent dom lists)
    (fun step _ ⟨lists, h⟩ => ⟨_, h.step step.ends⟩) ⟨_, .initial⟩

end Consistent

end Omoikane.Dom.Live
