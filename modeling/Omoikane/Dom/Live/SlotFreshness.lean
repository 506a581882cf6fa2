import Omoikane.Dom.Live.SlotEffects

/-!
# Slot assignments are fresh

A snapshot of the slots of a root is used for as long as the epoch of slot assignments stays.  Every
call that could make a snapshot wrong advances the epoch, but for two kinds (`Mutation.Settled`): a
call that changes a `slot` or `name` attribute and passes other names, and one that puts a shadow root
below another node.  Without them `assigned_nodes` and `assigned_slot` are right in every state
(`assignments_sound`).
-/

namespace Omoikane.Dom.Live

open Base Relation

section

variable {dom dom' : Documents} {lists : ChildLists} {mutation : Mutation}

theorem blank_sorted (host : NodeHandle) (mode : ShadowRootMode) : (ShadowRoot.blank host mode).Sorted :=
  ⟨nofun, nofun⟩

theorem Fresh.sorted_of_grown (hfresh : Fresh dom) (hgrown : Grown dom dom') {node : NodeHandle}
    {root' : ShadowRoot} (hroot : dom'.data node = .shadowRoot root') : root'.Sorted := by
  rcases hgrown node root' hroot with
    ⟨-, host, mode, rfl⟩ | ⟨root, hbefore, -, hsame | ⟨_, _, hassigned, -⟩, -⟩
  · exact blank_sorted host mode
  · exact (hfresh.sorted node root hbefore).congr hsame
  · exact (hfresh.sorted node root hbefore).assign.congr hassigned

/-- A later epoch: no snapshot is of it. -/
theorem Fresh.later (hfresh : Fresh dom) (halike : Alike dom dom') (hgrown : Grown dom dom')
    (hrootless : ∀ node root, dom'.data node = .shadowRoot root → dom'.parentNode node = none)
    (hepoch : dom.epochs.slotAssignment < dom'.epochs.slotAssignment) : Fresh dom' := by
  have hpast : ∀ node root' epoch assignments, dom'.data node = .shadowRoot root' →
      root'.assignments = some (epoch, assignments) → epoch < dom'.epochs.slotAssignment := by
    intro node root' epoch assignments hroot' hassignments
    rcases hgrown node root' hroot' with ⟨-, _, _, rfl⟩ | ⟨root, hroot, -, -, hsame | hmade⟩
    · cases hassignments
    · exact (hfresh.past node root epoch assignments hroot (hsame ▸ hassignments)).trans_lt hepoch
    · rw [hmade] at hassignments
      cases hassignments
      exact hepoch
  exact {
    rootless := hrootless
    sorted := fun _ _ => hfresh.sorted_of_grown hgrown
    slottable := fun _ _ _ _ => hgrown.slottable halike hfresh.slottable
    past := fun node root' epoch assignments hroot' hassignments =>
      (hpast node root' epoch assignments hroot' hassignments).le
    cached := fun node root' assignments hroot' hassignments =>
      (Nat.lt_irrefl _ (hpast node root' _ assignments hroot' hassignments)).elim }

/-- The same epoch: the names stayed, and a snapshot that was made is a fresh one. -/
theorem Fresh.same (hfresh : Fresh dom) (h : Consistent dom lists) (h' : Consistent dom' lists)
    (halike : NamedAlike dom dom') (hkept : Kept dom dom')
    (hrootless : ∀ node root, dom'.data node = .shadowRoot root → dom'.parentNode node = none)
    (hepoch : dom'.epochs.slotAssignment = dom.epochs.slotAssignment) : Fresh dom' where
  rootless := hrootless
  sorted _ _ := hfresh.sorted_of_grown hkept.grown
  slottable _ _ _ _ := hkept.grown.slottable halike.toAlike hfresh.slottable
  past node root' epoch assignments hroot' hassignments := by
    rw [hepoch]
    rcases hkept node root' hroot' with ⟨-, _, _, rfl⟩ | ⟨root, hroot, -, -, -, hsame | hmade⟩
    · cases hassignments
    · exact hfresh.past node root epoch assignments hroot (hsame ▸ hassignments)
    · rw [hmade] at hassignments
      cases hassignments
      exact le_rfl
  cached node root' assignments hroot' hassignments := by
    rw [hepoch] at hassignments
    rcases hkept node root' hroot' with
      ⟨-, _, _, rfl⟩ | ⟨root, hroot, hsettings, hmanual, hhost, hsnapshot⟩
    · cases hassignments
    · rw [freshAssignments_same h h' halike hsettings hmanual hhost]
      rcases hsnapshot with hsame | hmade
      · exact hfresh.cached node root assignments hroot (hsame ▸ hassignments)
      · rw [hmade] at hassignments
        cases hassignments
        rfl

/-- A settled call that ends leaves fresh assignments. -/
theorem Fresh.step (hfresh : Fresh dom) (h : Consistent dom lists) (hsettled : mutation.Settled dom)
    (hends : mutation.Ends dom dom') : Fresh dom' := by
  have heffects := effects_of_ends h hends
  have hrootless : ∀ node root, dom'.data node = .shadowRoot root → dom'.parentNode node = none :=
    fun node root hroot => heffects.rootless hsettled node root hroot fun root => hfresh.rootless node root
  rcases heffects.later_or_same hsettled with hepoch | ⟨hepoch, halike, hkept, h'⟩
  · exact hfresh.later heffects.alike heffects.grown hrootless hepoch
  · exact hfresh.same h h' halike hkept hrootless hepoch

theorem fresh_initial : Fresh .initial where
  rootless _ _ hroot := by cases hroot
  sorted _ _ hroot := by cases hroot
  slottable _ _ _ _ hroot := by cases hroot
  past _ _ _ _ hroot := by cases hroot
  cached _ _ _ hroot := by cases hroot

end

/-- `assigned_nodes` and `assigned_slot` end, and give what is found without snapshots; a node is
assigned to at most one slot, and has the slots that have it. -/
structure Documents.SlotsSound (dom : Documents) : Prop where
  assignedNodes_ends : ∀ slot, ∃ limit dom',
    dom.assignedNodes limit slot = some (dom', dom.findSlottables slot)
  assignedNodes_eq : ∀ limit slot result, dom.assignedNodes limit slot = some result →
    result.2 = dom.findSlottables slot
  assignedSlot_ends : ∀ node, ∃ limit dom',
    dom.assignedSlot limit node = some (dom', dom.findSlot node)
  assignedSlot_eq : ∀ limit node result, dom.assignedSlot limit node = some result →
    result.2 = dom.findSlot node
  assignedSlot_iff : ∀ limit limit' node slot found nodes, dom.assignedSlot limit node = some found →
    dom.assignedNodes limit' slot = some nodes → (found.2 = some slot ↔ node ∈ nodes.2)
  unique : ∀ limit limit' node slot slot' nodes nodes', dom.assignedNodes limit slot = some nodes →
    dom.assignedNodes limit' slot' = some nodes' → node ∈ nodes.2 → node ∈ nodes'.2 → slot = slot'

theorem Fresh.slotsSound {dom : Documents} {lists : ChildLists} (hfresh : Fresh dom)
    (h : Consistent dom lists) : dom.SlotsSound where
  assignedNodes_ends slot := by
    obtain ⟨limit, hlimit⟩ := Live.assignedNodes_ends h slot
    obtain ⟨⟨dom', nodes⟩, hnodes⟩ := hlimit limit le_rfl
    exact ⟨limit, dom', hfresh.assignedNodes_eq h hnodes ▸ hnodes⟩
  assignedNodes_eq _ _ _ hnodes := hfresh.assignedNodes_eq h hnodes
  assignedSlot_ends node := by
    obtain ⟨limit, hlimit⟩ := Live.assignedSlot_ends h node
    obtain ⟨⟨dom', found⟩, hfound⟩ := hlimit limit le_rfl
    exact ⟨limit, dom', hfresh.assignedSlot_eq h hfound ▸ hfound⟩
  assignedSlot_eq _ _ _ hfound := hfresh.assignedSlot_eq h hfound
  assignedSlot_iff _ _ node slot _ _ hfound hnodes := by
    rw [hfresh.assignedSlot_eq h hfound, hfresh.assignedNodes_eq h hnodes]
    exact hfresh.findSlot_iff h
  unique _ _ node slot slot' _ _ hnodes hnodes' hmem hmem' := by
    rw [hfresh.assignedNodes_eq h hnodes, ← hfresh.findSlot_iff h] at hmem
    rw [hfresh.assignedNodes_eq h hnodes', ← hfresh.findSlot_iff h] at hmem'
    exact Option.some.inj (hmem.symm.trans hmem')

/-- After a run of settled calls the slots are sound. -/
theorem assignments_sound {dom : Documents} {steps : List Step} (hrun : Steps .initial steps dom)
    (hsettled : ∀ step ∈ steps, step.mutation.Settled step.before) : dom.SlotsSound := by
  obtain ⟨⟨lists, h⟩, hfresh⟩ : (∃ lists, Consistent dom lists) ∧ Fresh dom := by
    refine hrun.invariant (I := fun dom => (∃ lists, Consistent dom lists) ∧ Fresh dom)
      (fun step hmem ⟨⟨lists, h⟩, hfresh⟩ => ?_) ⟨⟨_, .initial⟩, fresh_initial⟩
    exact ⟨⟨_, h.step step.ends⟩, hfresh.step h (hsettled step hmem) step.ends⟩
  exact hfresh.slotsSound h

/-- A slot in a shadow tree, and a child of the host. -/
def slotAndChild : List Mutation :=
  [.create (.element (.new "div".toList)), .attachShadow 0 .opened,
    .create (.element (.new "slot".toList)), .tree (.appendChild 1 2),
    .create (.element (.new "span".toList)), .tree (.appendChild 0 3)]

/-- The child asks for a slot that there is not. -/
theorem assignments_sound_elsewhere : ∃ steps dom, Steps .initial steps dom ∧
    steps.map Step.mutation = slotAndChild ++ [.slotAssignments 1,
      .attributes 3 (.setAttribute "slot".toList "a".toList)] ∧
      (dom.assignedSlot 9 3).map Prod.snd = some none ∧ dom.SlotsSound := by
  let all : List Mutation := slotAndChild ++ [.slotAssignments 1,
    .attributes 3 (.setAttribute "slot".toList "a".toList)]
  let after (count : Nat) : Documents := .after 9 (all.take count)
  let host : Step := ⟨after 0, .create (.element (.new "div".toList)), after 1, by decide, 9, rfl⟩
  let root : Step := ⟨after 1, .attachShadow 0 .opened, after 2, by decide, 9, rfl⟩
  let slot : Step := ⟨after 2, .create (.element (.new "slot".toList)), after 3, by decide, 9, rfl⟩
  let place : Step := ⟨after 3, .tree (.appendChild 1 2), after 4, by decide, 9, rfl⟩
  let child : Step := ⟨after 4, .create (.element (.new "span".toList)), after 5, by decide, 9, rfl⟩
  let placeChild : Step := ⟨after 5, .tree (.appendChild 0 3), after 6, by decide, 9, rfl⟩
  let read : Step := ⟨after 6, .slotAssignments 1, after 7, by decide, 9, rfl⟩
  let ask : Step := ⟨after 7, .attributes 3 (.setAttribute "slot".toList "a".toList), after 8,
    by decide, 9, rfl⟩
  have hsteps : Steps .initial [host, root, slot, place, child, placeChild, read, ask] ask.after :=
    @Steps.cons host _ _ (@Steps.cons root _ _ (@Steps.cons slot _ _ (@Steps.cons place _ _
      (@Steps.cons child _ _ (@Steps.cons placeChild _ _ (@Steps.cons read _ _
        (@Steps.cons ask _ _ .nil)))))))
  refine ⟨_, _, hsteps, rfl, by decide, assignments_sound hsteps fun step hmem => ?_⟩
  simp only [List.mem_cons, List.not_mem_nil, or_false] at hmem
  rcases hmem with rfl | rfl | rfl | rfl | rfl | rfl | rfl | rfl
  · trivial
  · trivial
  · trivial
  · rfl
  · trivial
  · rfl
  · trivial
  · intro element helement record htouched
    cases helement
    cases htouched

/-- The child has an attribute `slot` under another local name, and gets another value by a call that
passes the local name only. -/
theorem assignments_stale : ∃ steps dom, Steps .initial steps dom ∧
    steps.map Step.mutation = slotAndChild ++ [
      .attributes 3 (.setXmlAttributeNs "slot".toList none "x".toList "a".toList),
      .slotAssignments 1, .attributes 3 (.setAttributeValueNsUtf16 none "x".toList [])] ∧
    (dom.assignedNodes 9 2).map Prod.snd = some [] ∧
    (dom.assignedSlot 9 3).map Prod.snd = some none ∧
    dom.findSlottables 2 = [3] ∧ dom.findSlot 3 = some 2 := by
  let all : List Mutation := slotAndChild ++ [
    .attributes 3 (.setXmlAttributeNs "slot".toList none "x".toList "a".toList),
    .slotAssignments 1, .attributes 3 (.setAttributeValueNsUtf16 none "x".toList [])]
  let dom : Documents := .after 9 all
  obtain ⟨steps, hsteps, hmutations⟩ := @Steps.of_performAll 9 all .initial dom rfl
  obtain ⟨lists, h⟩ := Consistent.reachable ⟨steps, hsteps⟩
  have hslots : dom.slotsBelow 1 = [2] :=
    (h.collectSlots_eq (rfl : dom.collectSlots 9 1 = some [2])).symm
  obtain ⟨root, hroot, hmanual, hhost⟩ : ∃ root, dom.shadowRoot? 1 = some root ∧
      root.settings.manualSlotAssignment = false ∧ root.host = 0 := ⟨_, rfl, rfl, rfl⟩
  have hfind : dom.findSlot 3 = some 2 := by
    have hparent : (dom.parentNode 3).bind dom.shadowRoot = some 1 := rfl
    rw [Documents.findSlot, if_pos (by decide), hparent]
    dsimp only
    rw [hroot, Option.bind_some, hmanual, if_neg Bool.false_ne_true, hslots]
    decide
  refine ⟨steps, dom, hsteps, hmutations, by decide, by decide, ?_, hfind⟩
  have htop : top dom.parentNode 2 = 1 := top_eq (.single rfl) rfl
  have hchildren : dom.children root.host = [3] := by rw [hhost]; rfl
  rw [Documents.findSlottables, if_pos (by decide), htop, hroot]
  dsimp only
  rw [hmanual, if_neg Bool.false_ne_true, hchildren, List.filter_cons_of_pos, List.filter_nil]
  exact decide_eq_true ⟨by decide, hfind⟩

end Omoikane.Dom.Live
