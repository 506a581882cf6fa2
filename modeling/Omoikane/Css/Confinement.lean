import Omoikane.Css.Blinding
import Omoikane.Css.SharedCache

/-!
# Visits are confined to the subject

A match of an element observes no visit but that of the element.  The compounds on the left of a
combinator are tried on nodes that come earlier (`Tree.EarlierThan`), so they see none.  An argument of
`:has()` may come back to the element: then it sees its visit.
-/

namespace Omoikane.Css

open Base

variable {ι : Type} [DecidableEq ι]

/-! ## Earlier nodes -/

/-- A node is higher up, or further to the left among nodes of one depth. -/
def Tree.EarlierThan (tree : Tree ι) (other node : ι) : Prop :=
  tree.depth other < tree.depth node ∨ tree.depth other = tree.depth node ∧
    (tree.elementsBefore other).length < (tree.elementsBefore node).length

section

variable {tree : Tree ι} {node other between : ι} {stops : ι → Prop}

theorem Tree.EarlierThan.ne (h : tree.EarlierThan other node) : other ≠ node := by
  rintro rfl
  rcases h with h | h
  · exact Nat.lt_irrefl _ h
  · exact Nat.lt_irrefl _ h.2

theorem Tree.EarlierThan.trans (h : tree.EarlierThan other between)
    (h' : tree.EarlierThan between node) : tree.EarlierThan other node := by
  simp only [Tree.EarlierThan] at *
  omega

omit [DecidableEq ι] in
theorem Reaches.ancestor (h : Reaches tree.parentNode stops node other) :
    tree.AncestorOf other node := by
  induction h with
  | next hparent => exact .single hparent
  | later hparent _ _ ih => exact .tail ih hparent

theorem Tree.Precedes.earlier (helement : tree.isElement other = true) (h : tree.Precedes other node) :
    tree.EarlierThan other node := by
  obtain ⟨parent, before, between, after, hsplit⟩ := h
  have hother : tree.parentNode other = some parent := (tree.mem_childNodes _ _).mp (by simp [hsplit])
  have hnode : tree.parentNode node = some parent := (tree.mem_childNodes _ _).mp (by simp [hsplit])
  refine .inr ⟨by rw [tree.depth_parent _ _ hother, tree.depth_parent _ _ hnode], ?_⟩
  rw [(elements_of_split hsplit).1]
  rw [show before ++ other :: (between ++ node :: after) =
    (before ++ other :: between) ++ node :: after by simp] at hsplit
  rw [(elements_of_split hsplit).1, List.filter_append, List.filter_cons_of_pos helement,
    List.length_append, List.length_cons]
  omega

/-- A combinator leads to earlier nodes. -/
theorem Tree.Left.earlier {combinator : Combinator} (h : tree.Left stops node combinator other) :
    tree.EarlierThan other node := by
  cases combinator with
  | descendant => exact .inl (Reaches.ancestor h).depth_lt
  | child =>
    refine .inl ?_
    rw [tree.depth_parent _ _ h]
    exact Nat.lt_succ_self _
  | adjacentSibling => exact Tree.Precedes.earlier h.1 h.2.precedes
  | generalSibling => exact Tree.Precedes.earlier h.1 h.2

end

/-! ## Where no visit is observed -/

section

variable {doc : Document ι} {scopeRoot : Option ι} {escape : Bool} {visited : ι → Bool}
  {within : ι → Prop}

/-- The arguments of `:has()` mean what they do without visits, in a set of nodes. -/
def NoRelativeVisits (doc : Document ι) (scopeRoot : Option ι) (escape : Bool) (visited : ι → Bool)
    (within : ι → Prop) (relatives : List RelativeSelector) : Prop :=
  ∀ relative ∈ relatives, ∀ anchor, within anchor →
    (RelativeHolds doc scopeRoot escape relative visited anchor ↔
      RelativeHolds doc scopeRoot escape relative unvisited anchor)

theorem NoRelativeVisits.mono {relatives relatives' : List RelativeSelector}
    (h : NoRelativeVisits doc scopeRoot escape visited within relatives)
    (hsub : relatives' ⊆ relatives) :
    NoRelativeVisits doc scopeRoot escape visited within relatives' :=
  fun relative hmem => h relative (hsub hmem)

theorem someRelative_unvisited {selectors : List RelativeSelector}
    (h : NoRelativeVisits doc scopeRoot escape visited within (relativesOfRelatives false selectors))
    {anchor : ι} (hanchor : within anchor) :
    SomeRelative doc scopeRoot escape selectors visited anchor ↔
      SomeRelative doc scopeRoot escape selectors unvisited anchor := by
  rw [someRelative_iff, someRelative_iff]
  exact exists_congr fun relative => and_congr_right fun hmem =>
    h relative (mem_relativesOfRelatives hmem) anchor hanchor

theorem pseudoClassHolds_unvisited {node : ι} (h : visited node = false) (name : Text)
    (pseudo : Option PseudoElement) :
    pseudoClassHolds doc scopeRoot visited node name pseudo =
      pseudoClassHolds doc scopeRoot unvisited node name pseudo := by
  have : visited node = unvisited node := h
  simp only [pseudoClassHolds, this]

section

variable (hleft : ∀ {stops : ι → Prop} {node : ι} {combinator : Combinator} {other : ι},
    within node → doc.tree.Left stops node combinator other → within other)
  (hvisited : ∀ node, within node → visited node = false)

include hleft hvisited

omit hvisited in
theorem partsHold_unvisited {parts : List SelectorPart}
    (hparts : ∀ part ∈ parts, ∀ node, within node → ∀ subjectPseudo pseudo,
      CompoundHolds doc scopeRoot escape part.simples visited node subjectPseudo pseudo ↔
        CompoundHolds doc scopeRoot escape part.simples unvisited node subjectPseudo pseudo)
    (index : Nat) {node : ι} (hnode : within node) (pseudo : Option PseudoElement) :
    PartsHold doc.tree (AtScopeRoot scopeRoot escape) (conditions doc scopeRoot escape parts visited)
        index node pseudo ↔
      PartsHold doc.tree (AtScopeRoot scopeRoot escape)
        (conditions doc scopeRoot escape parts unvisited) index node pseudo := by
  refine partsHold_congr (fun _ => within) (fun _ _ _ _ _ hnode _ _ => hleft hnode)
    (fun index node hnode => ?_) hnode pseudo
  refine agreeAt_conditions rfl fun part part' hpart hpart' => ?_
  rw [hpart, Option.some.injEq] at hpart'
  subst hpart'
  exact ⟨rfl, hparts part (List.mem_of_getElem? hpart) node hnode none⟩

mutual

/-- A selector means what it means without visits, where none is seen. -/
theorem simpleHolds_within : ∀ {simple : SimpleSelector},
    NoRelativeVisits doc scopeRoot escape visited within (simple.relatives false) → ∀ node, within node → ∀ pseudo,
      (SimpleHolds doc scopeRoot escape simple visited node pseudo ↔
        SimpleHolds doc scopeRoot escape simple unvisited node pseudo)
  | .pseudoClass name, _, node, hnode, pseudo => by
    rw [SimpleHolds, SimpleHolds, pseudoClassHolds_unvisited (hvisited node hnode)]
  | .is selectors, h, node, hnode, pseudo => by
    rw [SimpleHolds, SimpleHolds]
    exact someMatches_within h node hnode pseudo
  | .where selectors, h, node, hnode, pseudo => by
    rw [SimpleHolds, SimpleHolds]
    exact someMatches_within h node hnode pseudo
  | .not selectors, h, node, hnode, pseudo => by
    rw [SimpleHolds, SimpleHolds]
    exact not_congr (someMatches_within h node hnode pseudo)
  | .has selectors, h, node, hnode, _ => by
    rw [SimpleHolds, SimpleHolds]
    exact someRelative_unvisited h hnode
  | .nthChild .., _, _, _, _ => Iff.rfl
  | .type _, _, _, _, _ | .universal, _, _, _, _ | .className _, _, _, _, _ | .id _, _, _, _, _
  | .attribute .., _, _, _, _ | .customState _, _, _, _, _ | .pseudoElement _, _, _, _, _ => Iff.rfl

theorem compoundHolds_within : ∀ {simples : List SimpleSelector},
    NoRelativeVisits doc scopeRoot escape visited within (relativesOfSimples false simples) → ∀ node, within node →
      ∀ subjectPseudo pseudo,
        (CompoundHolds doc scopeRoot escape simples visited node subjectPseudo pseudo ↔
          CompoundHolds doc scopeRoot escape simples unvisited node subjectPseudo pseudo)
  | [], _, _, _, _, _ => Iff.rfl
  | simple :: simples, h, node, hnode, subjectPseudo, pseudo => by
    rw [CompoundHolds, CompoundHolds]
    exact and_congr
      (simpleHolds_within (h.mono (List.subset_append_left ..)) node hnode _)
      (compoundHolds_within (h.mono (List.subset_append_right ..)) node hnode _ _)

theorem parts_within : ∀ {parts : List SelectorPart},
    NoRelativeVisits doc scopeRoot escape visited within (relativesOfParts false parts) → ∀ part ∈ parts, ∀ node,
      within node → ∀ subjectPseudo pseudo,
        (CompoundHolds doc scopeRoot escape part.simples visited node subjectPseudo pseudo ↔
          CompoundHolds doc scopeRoot escape part.simples unvisited node subjectPseudo pseudo)
  | .mk combinator simples :: parts, h, part, hpart => by
    rcases List.mem_cons.mp hpart with rfl | hpart
    · exact compoundHolds_within (h.mono (List.subset_append_left ..))
    · exact parts_within (h.mono (List.subset_append_right ..)) part hpart

theorem someMatches_within : ∀ {selectors : List Selector},
    NoRelativeVisits doc scopeRoot escape visited within (relativesOfSelectors false selectors) → ∀ node, within node →
      ∀ pseudo, (SomeMatches doc scopeRoot escape selectors visited node pseudo ↔
        SomeMatches doc scopeRoot escape selectors unvisited node pseudo)
  | [], _, _, _, _ => Iff.rfl
  | .mk parts :: selectors, h, node, hnode, pseudo => by
    rw [SomeMatches, SomeMatches, Matches, Matches,
      partsHold_unvisited hleft
        (parts_within (h.mono (List.subset_append_left ..))) _ hnode,
      someMatches_within (h.mono (List.subset_append_right ..)) node hnode pseudo]

end

end

/-! ## The subject -/

/-- The compounds before the last one are blinded. -/
theorem getElem?_confinedParts : ∀ {parts : List SelectorPart} {index : Nat} {part : SelectorPart},
    parts[index]? = some part → ∃ part', (confinedParts parts)[index]? = some part' ∧
      part'.combinator = part.combinator ∧
      ((index + 1 < parts.length ∧ part'.simples = blindedSimples part.simples) ∨
        (parts.getLast? = some part ∧ index + 1 = parts.length ∧
          part'.simples = confinedSimples part.simples))
  | [.mk combinator simples], 0, part, h => by
    cases h
    exact ⟨_, rfl, rfl, .inr ⟨rfl, rfl, rfl⟩⟩
  | .mk combinator simples :: next :: parts, 0, part, h => by
    cases h
    exact ⟨_, rfl, rfl, .inl ⟨by simp, rfl⟩⟩
  | .mk combinator simples :: next :: parts, index + 1, part, h => by
    obtain ⟨part', hpart', hcombinator, hsimples⟩ :=
      @getElem?_confinedParts (next :: parts) index part h
    refine ⟨part', by rw [confinedParts]; exact hpart', hcombinator, ?_⟩
    rw [List.getLast?_cons_cons, List.length_cons, Nat.add_lt_add_iff_right, Nat.add_right_cancel_iff]
    exact hsimples

section

variable {subject : ι} (hsubject : within subject)
  (hleft : ∀ {stops : ι → Prop} {node : ι} {combinator : Combinator} {other : ι}, within node →
    doc.tree.Left stops node combinator other → within other ∧ other ≠ subject)
  (hvisited : ∀ node, within node → node ≠ subject → visited node = false)

include hsubject hleft hvisited

theorem partsHold_confined {parts : List SelectorPart} (hne : parts ≠ [])
    (hrelatives : NoRelativeVisits doc scopeRoot escape visited within (relativesOfParts false parts))
    (hlast : ∀ part, parts.getLast? = some part → ∀ subjectPseudo pseudo,
      (CompoundHolds doc scopeRoot escape (confinedSimples part.simples) visited subject subjectPseudo
          pseudo ↔
        CompoundHolds doc scopeRoot escape part.simples visited subject subjectPseudo pseudo))
    (pseudo : Option PseudoElement) :
    PartsHold doc.tree (AtScopeRoot scopeRoot escape)
        (conditions doc scopeRoot escape (confinedParts parts) visited) (parts.length - 1) subject
        pseudo ↔
      PartsHold doc.tree (AtScopeRoot scopeRoot escape) (conditions doc scopeRoot escape parts visited)
        (parts.length - 1) subject pseudo := by
  have hunseen : ∀ part ∈ parts, ∀ node, within node ∧ node ≠ subject → ∀ subjectPseudo pseudo,
      (CompoundHolds doc scopeRoot escape part.simples visited node subjectPseudo pseudo ↔
        CompoundHolds doc scopeRoot escape part.simples unvisited node subjectPseudo pseudo) :=
    parts_within (fun hnode hother => hleft hnode.1 hother)
      (fun node hnode => hvisited node hnode.1 hnode.2)
      (fun relative hmem anchor hanchor => hrelatives relative hmem anchor hanchor.1)
  -- the last compound is tried on the subject, and the others never are
  refine partsHold_congr (fun index node => index + 1 = parts.length ∧ node = subject ∨
    index + 1 < parts.length ∧ within node ∧ node ≠ subject)
    (fun index node _ _ other hnode _ _ hother => ?_) (fun index node hnode => ?_) (.inl ⟨?_, rfl⟩)
    pseudo
  · rcases hnode with ⟨hindex, rfl⟩ | ⟨hindex, hnode⟩
    · exact .inr ⟨by omega, hleft hsubject hother⟩
    · exact .inr ⟨by omega, hleft hnode.1 hother⟩
  · refine agreeAt_conditions (length_confinedParts parts) fun part' part hpart' hpart => ?_
    obtain ⟨found, hfound, hcombinator, hsimples⟩ := getElem?_confinedParts hpart
    rw [hpart', Option.some.injEq] at hfound
    subst hfound
    refine ⟨hcombinator, fun pseudo => ?_⟩
    rcases hsimples with ⟨hindex, hsimples⟩ | ⟨hpartLast, hindex, hsimples⟩
    · obtain ⟨hlt, -⟩ | ⟨-, hnode⟩ := hnode
      · omega
      rw [hsimples, compoundHolds_blinded]
      exact (hunseen part (List.mem_of_getElem? hpart) node hnode none pseudo).symm
    · obtain ⟨-, rfl⟩ | ⟨hlt, -⟩ := hnode
      · rw [hsimples]
        exact hlast part hpartLast none pseudo
      · omega
  · have := List.length_pos_iff.mpr hne
    omega

theorem matches_confined_of_last {parts : List SelectorPart}
    (hrelatives : NoRelativeVisits doc scopeRoot escape visited within (relativesOfParts false parts))
    (hlast : ∀ part, parts.getLast? = some part → ∀ subjectPseudo pseudo,
      (CompoundHolds doc scopeRoot escape (confinedSimples part.simples) visited subject subjectPseudo
          pseudo ↔
        CompoundHolds doc scopeRoot escape part.simples visited subject subjectPseudo pseudo))
    (pseudo : Option PseudoElement) :
    Matches doc scopeRoot escape (.mk (confinedParts parts)) visited subject pseudo ↔
      Matches doc scopeRoot escape (.mk parts) visited subject pseudo := by
  have hnil : confinedParts parts = [] ↔ parts = [] := by
    rw [← List.length_eq_zero_iff, length_confinedParts, List.length_eq_zero_iff]
  rw [Matches, Matches, length_confinedParts,
    selectorPseudoElement_congr doc.identifier (names_confinedParts parts), ne_eq, hnil, ne_eq]
  refine and_congr_right fun hne => ?_
  rw [partsHold_confined hsubject hleft hvisited hne hrelatives hlast]

mutual

/-- A confined selector means of the subject what the selector means. -/
theorem simpleHolds_confined : ∀ {simple : SimpleSelector},
    NoRelativeVisits doc scopeRoot escape visited within (simple.relatives false) → ∀ pseudo,
      (SimpleHolds doc scopeRoot escape simple.confined visited subject pseudo ↔
        SimpleHolds doc scopeRoot escape simple visited subject pseudo)
  | .nthChild formula selectors reverse, _, pseudo => by
    rw [SimpleSelector.confined, SimpleHolds, SimpleHolds, someMatches_blinded]
  | .is selectors, h, pseudo => by
    rw [SimpleSelector.confined, SimpleHolds, SimpleHolds]
    exact someMatches_confined h pseudo
  | .where selectors, h, pseudo => by
    rw [SimpleSelector.confined, SimpleHolds, SimpleHolds]
    exact someMatches_confined h pseudo
  | .not selectors, h, pseudo => by
    rw [SimpleSelector.confined, SimpleHolds, SimpleHolds]
    exact not_congr (someMatches_confined h pseudo)
  | .has selectors, h, pseudo => by
    rw [SimpleSelector.confined, SimpleHolds, SimpleHolds, someRelative_blinded]
    exact (someRelative_unvisited h hsubject).symm
  | .type _, _, _ | .universal, _, _ | .className _, _, _ | .id _, _, _ | .attribute .., _, _
  | .pseudoClass _, _, _ | .customState _, _, _ | .pseudoElement _, _, _ => Iff.rfl

theorem compoundHolds_confined : ∀ {simples : List SimpleSelector},
    NoRelativeVisits doc scopeRoot escape visited within (relativesOfSimples false simples) → ∀ subjectPseudo pseudo,
      (CompoundHolds doc scopeRoot escape (confinedSimples simples) visited subject subjectPseudo
          pseudo ↔
        CompoundHolds doc scopeRoot escape simples visited subject subjectPseudo pseudo)
  | [], _, _, _ => Iff.rfl
  | simple :: simples, h, subjectPseudo, pseudo => by
    rw [confinedSimples, CompoundHolds, CompoundHolds, SimpleSelector.pseudoElementName_confined]
    exact and_congr
      (simpleHolds_confined (h.mono (List.subset_append_left ..)) _)
      (compoundHolds_confined (h.mono (List.subset_append_right ..)) _ _)

theorem lastHolds_confined : ∀ {parts : List SelectorPart},
    NoRelativeVisits doc scopeRoot escape visited within (relativesOfParts false parts) →
      ∀ part, parts.getLast? = some part → ∀ subjectPseudo pseudo,
        (CompoundHolds doc scopeRoot escape (confinedSimples part.simples) visited subject
            subjectPseudo pseudo ↔
          CompoundHolds doc scopeRoot escape part.simples visited subject subjectPseudo pseudo)
  | [.mk combinator simples], h, part, hpart => by
    cases hpart
    exact compoundHolds_confined (h.mono (List.subset_append_left ..))
  | .mk combinator simples :: next :: parts, h, part, hpart =>
    lastHolds_confined (h.mono (List.subset_append_right ..)) part
      (List.getLast?_cons_cons ▸ hpart)

theorem someMatches_confined : ∀ {selectors : List Selector},
    NoRelativeVisits doc scopeRoot escape visited within (relativesOfSelectors false selectors) → ∀ pseudo,
      (SomeMatches doc scopeRoot escape (confinedSelectors selectors) visited subject pseudo ↔
        SomeMatches doc scopeRoot escape selectors visited subject pseudo)
  | [], _, _ => Iff.rfl
  | .mk parts :: selectors, h, pseudo => by
    rw [confinedSelectors, SomeMatches, SomeMatches]
    exact or_congr
      (matches_confined_of_last hsubject hleft hvisited (h.mono (List.subset_append_left ..))
        (lastHolds_confined (h.mono (List.subset_append_left ..))) pseudo)
      (someMatches_confined (h.mono (List.subset_append_right ..)) pseudo)

end

/-- A confined selector matches the subject when the selector does. -/
theorem matches_confined {selector : Selector}
    (h : NoRelativeVisits doc scopeRoot escape visited within (selector.relatives false)) (pseudo : Option PseudoElement) :
    Matches doc scopeRoot escape selector.confined visited subject pseudo ↔
      Matches doc scopeRoot escape selector visited subject pseudo := by
  obtain ⟨parts⟩ := selector
  exact matches_confined_of_last hsubject hleft hvisited h
    (lastHolds_confined hsubject hleft hvisited h) pseudo

end

end

/-! ## Queries -/

section

variable {doc : Document ι} {ids : Option (List ι)}

/-- The same query with a selector that leaves visits to the subject. -/
def Query.confined (query : Query ι) : Query ι := { query with selector := query.selector.confined }

omit [DecidableEq ι] in
theorem Distinct.confined {query : Query ι} (h : Distinct (liveRelatives [query])) :
    Distinct (liveRelatives [query.confined]) := by
  have hblinded : ∀ relative, liveRelatives [query.confined] relative →
      ∃ original, liveRelatives [query] original ∧ original.blinded = relative := by
    rintro relative ⟨other, hother, hmem⟩
    rw [List.mem_singleton.mp hother] at hmem
    have hmap : relative ∈ (query.selector.relatives true).map RelativeSelector.blinded :=
      relativesOfParts_confined ▸ hmem
    obtain ⟨original, horiginal, heq⟩ := List.mem_map.mp hmap
    exact ⟨original, ⟨query, List.mem_singleton_self query, horiginal⟩, heq⟩
  intro relative other hrelative hother haddress
  obtain ⟨original, horiginal, rfl⟩ := hblinded relative hrelative
  obtain ⟨original', horiginal', rfl⟩ := hblinded other hother
  rw [RelativeSelector.address_blinded, RelativeSelector.address_blinded] at haddress
  rw [h original original' horiginal horiginal' haddress]

/-- Of the visits, only that of the element itself is observed. -/
theorem alone_eq_of_visit {query : Query ι} (hdistinct : Distinct (liveRelatives [query]))
    {ids ids' : List ι} (h : query.node ∈ ids ↔ query.node ∈ ids') :
    query.alone doc (some ids) = query.alone doc (some ids') := by
  have hvisits : visitsOf (some ids) query.node = visitsOf (some ids') query.node := by
    funext link
    rw [visitsOf_apply, visitsOf_apply]
    by_cases hsame : query.node = link
    · subst hsame
      simp [h]
    · rw [beq_false_of_ne hsame, Bool.false_and, Bool.false_and]
  rw [Bool.eq_iff_iff, Query.alone_iff hdistinct, Query.alone_iff hdistinct, hvisits]

theorem visitsOf_ne {node other : ι} (h : other ≠ node) : visitsOf ids node other = false := by
  rw [visitsOf_apply]
  simp [h.symm]

/-- The answer to a query is that to the confined one, if the arguments of `:has()` mean what they do
without visits, in a set of nodes that the match does not leave. -/
theorem alone_confined {query : Query ι} (hdistinct : Distinct (liveRelatives [query]))
    (within : ι → Prop) (hsubject : within query.node)
    (hleft : ∀ {stops : ι → Prop} {node : ι} {combinator : Combinator} {other : ι}, within node →
      doc.tree.Left stops node combinator other → within other ∧ other ≠ query.node)
    (hrelatives : NoRelativeVisits doc query.scopeRoot query.allowScopeAncestorEscape
      (visitsOf ids query.node) within (query.selector.relatives false)) :
    query.alone doc ids = query.confined.alone doc ids := by
  rw [Bool.eq_iff_iff, Query.alone_iff hdistinct, Query.alone_iff hdistinct.confined]
  exact (matches_confined hsubject hleft (fun _ _ hne => visitsOf_ne hne) hrelatives _).symm

/-- The argument of `:has()` observes no link that was visited. -/
theorem alone_confined_of_observes {query : Query ι} (hdistinct : Distinct (liveRelatives [query]))
    (h : isVisitedLink doc ids query.node = false ∨
      ∀ relative ∈ query.selector.relatives false, relative.observesLinks = false) :
    query.alone doc ids = query.confined.alone doc ids := by
  refine alone_confined hdistinct (fun node => node = query.node ∨
    doc.tree.EarlierThan node query.node) (.inl rfl) ?_ fun relative hmem anchor _ => ?_
  · intro stops node combinator other hnode hother
    have hearlier : doc.tree.EarlierThan other query.node := by
      rcases hnode with rfl | hnode
      · exact hother.earlier
      · exact hother.earlier.trans hnode
    exact ⟨.inr hearlier, hearlier.ne⟩
  · have hsame : SameVisits doc relative.observesLinks (visitsOf ids query.node) unvisited := by
      intro hobserves link hlink
      rcases h with h | h
      · by_cases hsame : link = query.node
        · subst hsame
          rw [visitsOf_apply]
          simpa [isVisitedLink, hlink, unvisited] using h
        · exact visitsOf_ne hsame
      · rw [h relative hmem] at hobserves
        cases hobserves
    rw [relativeHolds_visits _ _ hsame]

/-- An element without a parent and without elements below it. -/
def Tree.Isolated (tree : Tree ι) (node : ι) : Prop :=
  tree.parentNode node = none ∧ tree.elementDescendants tree.height node = []

omit [DecidableEq ι] in
theorem Tree.Precedes.parent {tree : Tree ι} {node next : ι} (h : tree.Precedes node next) :
    tree.parentNode node ≠ none ∧ tree.parentNode next ≠ none := by
  obtain ⟨parent, before, between, after, hsplit⟩ := h
  rw [(tree.mem_childNodes parent node).mp (by simp [hsplit]),
    (tree.mem_childNodes parent next).mp (by simp [hsplit])]
  exact ⟨nofun, nofun⟩

omit [DecidableEq ι] in
/-- From an isolated element no combinator leads to the left. -/
theorem Tree.Isolated.not_left {tree : Tree ι} {node other : ι} {stops : ι → Prop}
    {combinator : Combinator} (h : tree.Isolated node) : ¬ tree.Left stops node combinator other := by
  intro hleft
  cases combinator with
  | descendant =>
    obtain ⟨between, hbetween, -⟩ := reaches_iff.mp hleft
    rw [h.1] at hbetween
    cases hbetween
  | child =>
    rw [Tree.Left, h.1] at hleft
    cases hleft
  | adjacentSibling => exact hleft.2.precedes.parent.2 h.1
  | generalSibling => exact hleft.2.parent.2 h.1

omit [DecidableEq ι] in
theorem Tree.Isolated.not_right {tree : Tree ι} {node other : ι} {combinator : Combinator}
    (h : tree.Isolated node) : ¬ tree.Right node combinator other := by
  have hbelow : ∀ other, ¬ (tree.isElement other = true ∧ tree.AncestorOf node other) := by
    intro other hother
    have hmem := Tree.mem_elementDescendants.mpr hother
    rw [h.2] at hmem
    cases hmem
  intro hright
  cases combinator with
  | descendant => exact hbelow other hright
  | child => exact hbelow other ⟨hright.1, .single hright.2⟩
  | adjacentSibling => exact hright.2.precedes.parent.1 h.1
  | generalSibling => exact hright.2.parent.1 h.1

theorem alone_confined_of_isolated {query : Query ι} (hdistinct : Distinct (liveRelatives [query]))
    (h : doc.tree.Isolated query.node) : query.alone doc ids = query.confined.alone doc ids := by
  refine alone_confined hdistinct (· = query.node) rfl ?_ ?_
  · rintro stops _ combinator other rfl hother
    exact absurd hother h.not_left
  · rintro ⟨address, combinator, ⟨parts⟩⟩ - _ rfl
    simp only [RelativeHolds]
    exact ⟨fun ⟨other, hother, _⟩ => absurd hother h.not_right,
      fun ⟨other, hother, _⟩ => absurd hother h.not_right⟩

/-! ## Visits that are observed elsewhere -/

/-- `:visited` -/
def visitedElement : Selector := .mk [.mk none [.pseudoClass "visited".toList]]

/-- `:is(:visited *)` -/
def belowVisited : Selector :=
  .mk [.mk none [.is [.mk
    [.mk none [.pseudoClass "visited".toList], .mk (some .descendant) [.universal]]]]]

/-- `:has(> :visited) > *` -/
def childOfVisited : Selector :=
  .mk [.mk none [.has [.mk 0 .child visitedElement]], .mk (some .child) [.universal]]

/-- `:has(:is(:visited *))` -/
def aboveVisited : Selector := .mk [.mk none [.has [.mk 0 .descendant belowVisited]]]

theorem simpleHolds_visited {scopeRoot : Option ι} {escape : Bool} {visited : ι → Bool} {node : ι}
    {pseudo : Option PseudoElement} :
    SimpleHolds doc scopeRoot escape (.pseudoClass "visited".toList) visited node pseudo ↔
      isHtmlHyperlink doc.tree node = true ∧ visited node = true := by
  have hname : functionalPseudo "visited".toList = none ∧
      pseudoClassOf "visited".toList = some .visited := by decide
  generalize "visited".toList = name at hname ⊢
  simp [SimpleHolds, pseudoClassHolds, hname.1, hname.2]

omit [DecidableEq ι] in
theorem reaches_of_ancestor {tree : Tree ι} {node other : ι} (h : tree.AncestorOf other node) :
    Reaches tree.parentNode (AtScopeRoot none false) node other := by
  induction h with
  | single hparent => exact .next hparent
  | tail _ hparent ih => exact .later hparent (fun h => nomatch h.2) ih

/-- An element that was visited is found from its parent. -/
theorem matches_childOfVisited {visited : ι → Bool} {node parent : ι}
    (hparent : doc.tree.parentNode node = some parent) (helement : doc.tree.isElement node = true)
    (hlink : isHtmlHyperlink doc.tree node = true) (hvisited : visited node = true) :
    Matches doc none false childOfVisited visited node none := by
  refine ⟨by simp, helement, rfl, _, rfl, ⟨?_, trivial⟩, ?_⟩
  · exact helement
  · rintro combinator ⟨⟩
    refine ⟨(fun h => nomatch h.2), parent, hparent, _, rfl, ⟨?_, trivial⟩, rfl⟩
    rw [SimpleHolds, someRelative_iff]
    refine ⟨_, List.mem_singleton_self _, node, ⟨helement, hparent⟩, ?_, trivial⟩
    exact simpleHolds_visited.mpr ⟨hlink, hvisited⟩

theorem not_matches_confined_childOfVisited {visited : ι → Bool} {node : ι} :
    ¬ Matches doc none false childOfVisited.confined visited node none := by
  rintro ⟨-, -, -, _, ⟨⟩, -, hleft⟩
  obtain ⟨-, parent, -, _, ⟨⟩, ⟨hhas, -⟩, -⟩ := hleft .child rfl
  obtain ⟨other, -, hbelow, -⟩ | hnone := hhas
  · exact hbelow
  · exact hnone

/-- An element that was visited is found above its descendants. -/
theorem matches_aboveVisited {visited : ι → Bool} {node below : ι}
    (hbelow : doc.tree.isElement below = true) (hancestor : doc.tree.AncestorOf node below)
    (helement : doc.tree.isElement node = true)
    (hlink : isHtmlHyperlink doc.tree node = true) (hvisited : visited node = true) :
    Matches doc none false aboveVisited visited node none := by
  refine ⟨by simp, helement, rfl, _, rfl, ⟨?_, trivial⟩, rfl⟩
  rw [SimpleHolds, someRelative_iff]
  refine ⟨_, List.mem_singleton_self _, below, ⟨hbelow, hancestor⟩, ?_, trivial⟩
  rw [SimpleHolds, someMatches_iff]
  refine ⟨_, List.mem_singleton_self _, by simp, hbelow, rfl, _, rfl, ⟨hbelow, trivial⟩, ?_⟩
  rintro combinator ⟨⟩
  refine ⟨(fun h => nomatch h.2), node, reaches_of_ancestor hancestor, _, rfl, ⟨?_, trivial⟩, rfl⟩
  exact simpleHolds_visited.mpr ⟨hlink, hvisited⟩

theorem not_matches_confined_aboveVisited {visited : ι → Bool} {node : ι} :
    ¬ Matches doc none false aboveVisited.confined visited node none := by
  rintro ⟨-, -, -, _, ⟨⟩, ⟨hhas, -⟩, -⟩
  obtain ⟨other, -, hbelow, -⟩ | hnone := hhas
  · obtain ⟨-, -, -, _, ⟨⟩, -, hleft⟩ | hnone := hbelow
    · obtain ⟨-, above, -, _, ⟨⟩, ⟨hvisited, -⟩, -⟩ := hleft .descendant rfl
      exact hvisited
    · exact hnone
  · exact hnone

/-- The subject alone is tested for a visit, exactly when it is no visited link or is isolated. -/
theorem confined_iff (node : ι) (ids : List ι) :
    (∀ query : Query ι, query.node = node → Distinct (liveRelatives [query]) →
      query.alone doc (some ids) = query.confined.alone doc (some ids)) ↔
    isVisitedLink doc (some ids) node = false ∨ doc.tree.Isolated node := by
  constructor
  · intro h
    by_contra hnot
    rw [not_or, Bool.not_eq_false, isVisitedLink, Bool.and_eq_true] at hnot
    obtain ⟨⟨hlink, hmem⟩, hisolated⟩ := hnot
    have helement : doc.tree.isElement node = true := by
      have hhtml := hlink
      rw [isHtmlHyperlink, Bool.and_eq_true, Bool.and_eq_true] at hhtml
      cases hdata : doc.tree.element? node with
      | none => simp [Tree.isHtmlElement, hdata] at hhtml
      | some element => simp [Tree.isElement, hdata]
    have hvisited : visitsOf (some ids) node node = true := by
      rw [visitsOf_apply, beq_self_eq_true, Bool.true_and]
      exact hmem
    -- a selector that matches, although its confined form does not
    have hsame : ∀ selector : Selector, Distinct (liveRelatives [elementQuery selector node]) →
        Matches doc none false selector (visitsOf (some ids) node) node none →
        Matches doc none false selector.confined (visitsOf (some ids) node) node none := by
      intro selector hdistinct hmatches
      have hrun := h (elementQuery selector node) rfl hdistinct
      exact (Query.alone_iff hdistinct.confined).mp
        (hrun ▸ (Query.alone_iff hdistinct).mpr hmatches)
    cases hparent : doc.tree.parentNode node with
    | some parent =>
      refine not_matches_confined_childOfVisited (hsame childOfVisited ?_
        (matches_childOfVisited hparent helement hlink hvisited))
      exact distinct_of_eq (.mk 0 .child visitedElement) fun query hquery relative hmem => by
        rw [List.mem_singleton.mp hquery] at hmem
        exact List.mem_singleton.mp hmem
    | none =>
      cases hbelow : doc.tree.elementDescendants doc.tree.height node with
      | nil => exact hisolated ⟨hparent, hbelow⟩
      | cons below rest =>
        obtain ⟨hbelow, hancestor⟩ :=
          Tree.mem_elementDescendants.mp (hbelow ▸ List.mem_cons_self (a := below) (l := rest))
        refine not_matches_confined_aboveVisited (hsame aboveVisited ?_
          (matches_aboveVisited hbelow hancestor helement hlink hvisited))
        exact distinct_of_eq (.mk 0 .descendant belowVisited) fun query hquery relative hmem => by
          rw [List.mem_singleton.mp hquery] at hmem
          exact List.mem_singleton.mp hmem
  · rintro (h | h) query rfl hdistinct
    · exact alone_confined_of_observes hdistinct (.inl h)
    · exact alone_confined_of_isolated hdistinct h

end

/-- A match observes no visit but that of its element.  It leaves this visit to the subject of the
selector, if the arguments of `:has()` test no links; and for all selectors, exactly if the element is
no visited link or is isolated. -/
theorem visits_confined (doc : Document ι) (node : ι) :
    (∀ query : Query ι, query.node = node → Distinct (liveRelatives [query]) →
      ∀ ids ids' : List ι, (node ∈ ids ↔ node ∈ ids') →
        query.alone doc (some ids) = query.alone doc (some ids')) ∧
    (∀ (query : Query ι) (ids : List ι), query.node = node → Distinct (liveRelatives [query]) →
      (∀ relative ∈ query.selector.relatives false, relative.observesLinks = false) →
        query.alone doc (some ids) = query.confined.alone doc (some ids)) ∧
    ∀ ids : List ι, (∀ query : Query ι, query.node = node → Distinct (liveRelatives [query]) →
      query.alone doc (some ids) = query.confined.alone doc (some ids)) ↔
        isVisitedLink doc (some ids) node = false ∨ doc.tree.Isolated node := by
  refine ⟨?_, ?_, confined_iff node⟩
  · rintro query rfl hdistinct ids ids' h
    exact alone_eq_of_visit hdistinct h
  · rintro query ids rfl hdistinct h
    exact alone_confined_of_observes hdistinct (.inr h)

/-- The link is matched because of its own visit, which the argument of `:has()` observes. -/
theorem alone_ne_confined : Distinct (liveRelatives [elementQuery nearVisited (2 : Fin 4)]) ∧
    (elementQuery nearVisited 2).alone (plainDocument twoLinks) (some [2]) ≠
      (elementQuery nearVisited 2).confined.alone (plainDocument twoLinks) (some [2]) :=
  ⟨distinct_nearVisited [2], by decide⟩

/-- The visit of the other link is not observed. -/
theorem visits_confined_nearVisited :
    (elementQuery nearVisited 2).alone (plainDocument twoLinks) (some [2]) =
        (elementQuery nearVisited 2).alone (plainDocument twoLinks) (some [2, 3]) ∧
      (elementQuery visitedAnchor 2).alone (plainDocument twoLinks) (some [2]) =
        (elementQuery visitedAnchor 2).confined.alone (plainDocument twoLinks) (some [2]) :=
  ⟨(visits_confined (plainDocument twoLinks) 2).1 _ rfl (distinct_nearVisited [2]) _ _ (by decide),
    (visits_confined (plainDocument twoLinks) 2).2.1 _ _ rfl
      (fun _ _ ⟨_, hquery, hmem⟩ => by rw [List.mem_singleton.mp hquery] at hmem; cases hmem)
      (fun _ hmem => nomatch hmem)⟩

end Omoikane.Css
