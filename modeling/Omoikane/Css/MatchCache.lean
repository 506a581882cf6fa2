import Omoikane.Css.SelectorValues
import Omoikane.Css.Walks

/-!
# The cache of a matching pass

`Valid` says that what a cache remembers is what the matcher would find: the tables and form states are
those of the tree, a remembered `:has()` is known under the visits that are recorded, and filtered
positions are those without visits.  A match that starts with such a cache finds what the selector
means, and leaves one.

Results of `:has()` are remembered by the address of its argument.  So the selectors that are live have
to have different addresses, and as the visit of the subject is no part of the key, it must not matter to
the arguments that are looked at.
-/

namespace Omoikane.Css

open Base

variable {ι : Type} [DecidableEq ι]

/-- The visits that a pass may observe: of its subject, if that is among the visited links.  The
results of an argument of `:has()`, by its address, are recorded under other ones. -/
structure Pass (ι : Type) where
  visitedLinkIds : Option (List ι)
  subject : Option ι
  recorded : Nat → ι → Bool

namespace Pass

/-- The links whose visits are observed. -/
def visited (pass : Pass ι) (node : ι) : Bool :=
  pass.subject == some node && pass.visitedLinkIds.any fun ids => node ∈ ids

/-- A selector that is matched now is not the outermost one, or no visits are observed. -/
def Settled (pass : Pass ι) : Prop := pass.visitedLinkIds = none ∨ pass.subject ≠ none

/-- The pass of a filtered list of siblings. -/
def blind : Pass ι where
  visitedLinkIds := none
  subject := none
  recorded _ := unvisited

theorem visited_blind : (blind : Pass ι).visited = unvisited := by
  funext node
  simp [visited, blind, unvisited]

end Pass

/-- Live arguments of `:has()` at one address are the same. -/
def Distinct (live : RelativeSelector → Prop) : Prop :=
  ∀ relative other, live relative → live other → relative.address = other.address → relative = other

/-- What a cache remembers is right. -/
structure Valid (doc : Document ι) (live : RelativeSelector → Prop) (pass : Pass ι)
    (cache : SelectorMatchCache ι) : Prop where
  formStates : ∀ root known, cache.formStates root = some known → known = doc.formStateIndex root
  structuralPositions : ∀ parent known, cache.structuralPositions parent = some known →
    known = buildStructuralPositions doc.tree parent
  relationalMatches : ∀ anchor relative result, live relative →
    cache.relationalMatches (anchor, relative.address) = some result →
    (result = true ↔ RelativeHolds doc none false relative (pass.recorded relative.address) anchor)
  filteredPositions : ∀ entry ∈ cache.filteredPositions, ∀ node index total,
    doc.tree.parentNode node = some entry.1.parent →
    (entry.2 node = some (index, total) ↔ doc.tree.Among (fun other => SomeMatches doc entry.1.scope
      entry.1.allowScopeAncestorEscape entry.1.selectors unvisited other none) node index total)
  visitedLinkIds : cache.visitedLinkIds = pass.visitedLinkIds
  activeVisitedSubject : cache.activeVisitedSubject = pass.subject
  shadowPartSubject : cache.shadowPartSubject = none

variable {doc : Document ι} {live : RelativeSelector → Prop} {pass : Pass ι}

theorem valid_blind : Valid doc live Pass.blind ({} : SelectorMatchCache ι) where
  formStates _ _ h := by cases h
  structuralPositions _ _ h := by cases h
  relationalMatches _ _ _ _ h := by cases h
  filteredPositions _ h := by cases h
  visitedLinkIds := rfl
  activeVisitedSubject := rfl
  shadowPartSubject := rfl

/-! ## Tables -/

theorem keepsPositions : KeepsPositions doc.tree (Valid doc live pass) := by
  intro parent
  unfold positions
  refine Yields.bind Yields.get fun cache hcache => ?_
  cases hknown : cache.structuralPositions parent with
  | some known => exact Yields.pure (hcache.structuralPositions parent known hknown)
  | none =>
    refine Yields.bind (Yields.modify fun cache hcache => ?_) fun _ _ => Yields.pure rfl
    refine { hcache with structuralPositions := fun other known h => ?_ }
    by_cases hsame : other = parent
    · subst hsame
      simp only [Function.update_self, Option.some.injEq] at h
      exact h.symm
    · simp only [Function.update_of_ne hsame] at h
      exact hcache.structuralPositions other known h

theorem yields_formStatesOf (node : ι) : Yields (Valid doc live pass) (formStatesOf doc node)
    (· = doc.formStateIndex (treeRoot doc.tree (doc.tree.depth node) node)) := by
  unfold formStatesOf
  refine Yields.bind Yields.get fun cache hcache => ?_
  cases hknown : cache.formStates (treeRoot doc.tree (doc.tree.depth node) node) with
  | some known => exact Yields.pure (hcache.formStates _ known hknown)
  | none =>
    refine Yields.bind (Yields.modify fun cache hcache => ?_) fun _ _ => Yields.pure rfl
    refine { hcache with formStates := fun other known h => ?_ }
    by_cases hsame : other = treeRoot doc.tree (doc.tree.depth node) node
    · subst hsame
      simp only [Function.update_self, Option.some.injEq] at h
      exact h.symm
    · simp only [Function.update_of_ne hsame] at h
      exact hcache.formStates other known h

theorem yields_elementPosition (node : ι) : Yields (Valid doc live pass)
    (elementPosition doc.tree node) (· = doc.tree.positionAmong node fun _ => true) := by
  unfold elementPosition
  cases hparent : doc.tree.parentNode node with
  | none => exact Yields.pure (by simp [Tree.positionAmong, hparent])
  | some parent =>
    refine Yields.bind (keepsPositions parent) fun siblings hsiblings => Yields.pure ?_
    subst hsiblings
    exact (buildStructuralPositions_spec hparent).2.2.1

theorem yields_typePosition (node : ι) : Yields (Valid doc live pass) (typePosition doc.tree node)
    (· = doc.tree.positionAmong node (doc.tree.sameType node)) := by
  unfold typePosition
  cases hparent : doc.tree.parentNode node with
  | none => exact Yields.pure (by simp [Tree.positionAmong, hparent])
  | some parent =>
    refine Yields.bind (keepsPositions parent) fun siblings hsiblings => Yields.pure ?_
    subst hsiblings
    exact (buildStructuralPositions_spec hparent).2.2.2

/-! ## Pseudo-classes -/

theorem decides_matchesDefault (node : ι) : Decides (Valid doc live pass) (matchesDefault doc node)
    (isDefault doc node = true) := by
  unfold matchesDefault isDefault
  generalize "input".toList = input, "button".toList = button
  dsimp only
  split
  · exact Decides.pure Iff.rfl
  split
  · exact Decides.pure Iff.rfl
  split
  next h => exact Decides.pure (by simp [h])
  next h =>
    have hname : doc.tree.htmlLocalName node = some input ∨
        doc.tree.htmlLocalName node = some button := by
      by_contra hnot
      exact h (not_or.mp hnot)
    split
    next hsubmit =>
      rw [Bool.not_eq_true'] at hsubmit
      exact Decides.pure (by simp [hsubmit])
    next hsubmit =>
      rw [Bool.not_eq_true', Bool.not_eq_false] at hsubmit
      refine Yields.bind (yields_formStatesOf node) fun known hknown => Decides.pure ?_
      simp [hname, hsubmit, hknown]

theorem decides_matchesIndeterminate (node : ι) :
    Decides (Valid doc live pass) (matchesIndeterminate doc node) (isIndeterminate doc node = true) := by
  unfold matchesIndeterminate isIndeterminate
  generalize "progress".toList = progress, "input".toList = input, "value".toList = value,
    "type".toList = type, "checkbox".toList = checkbox, "radio".toList = radio
  dsimp only
  split
  · exact Decides.pure Iff.rfl
  split
  next h => exact Decides.pure (by simp [h])
  next h =>
    have hname := not_not.mp h
    split
    · exact Decides.pure (by simp [hname])
    split
    next hradio =>
      rw [Bool.not_eq_true'] at hradio
      exact Decides.pure (by simp [hradio])
    next hradio =>
      rw [Bool.not_eq_true', Bool.not_eq_false] at hradio
      refine Yields.bind (yields_formStatesOf node) fun known hknown => Decides.pure ?_
      simp [hname, hradio, hknown]

theorem Valid.isVisitedSubject {cache : SelectorMatchCache ι} (h : Valid doc live pass cache)
    (node : ι) : cache.isVisitedSubject node = pass.visited node := by
  rw [SelectorMatchCache.isVisitedSubject, h.activeVisitedSubject, h.visitedLinkIds]
  rfl

theorem decides_matchesPseudoClass (scopeRoot : Option ι) (node : ι) (name : Text)
    (pseudo : Option PseudoElement) :
    Decides (Valid doc live pass) (matchesPseudoClass doc scopeRoot node name pseudo)
      (pseudoClassHolds doc scopeRoot pass.visited node name pseudo = true) := by
  have hposition : ∀ test, Decides (Valid doc live pass)
      (elementPosition doc.tree node >>= fun position => pure (atPosition position test))
      (atPosition (doc.tree.positionAmong node fun _ => true) test = true) := fun test =>
    Yields.bind (yields_elementPosition node) fun position h => Decides.pure (by rw [h])
  have htyped : ∀ test, Decides (Valid doc live pass)
      (typePosition doc.tree node >>= fun position => pure (atPosition position test))
      (atPosition (doc.tree.positionAmong node (doc.tree.sameType node)) test = true) := fun test =>
    Yields.bind (yields_typePosition node) fun position h => Decides.pure (by rw [h])
  unfold matchesPseudoClass pseudoClassHolds
  cases functionalPseudo name with
  | some function =>
    dsimp only
    cases pseudoFunctions.lookup (Text.toAsciiLowercase function.1) with
    | none => exact Decides.pure Iff.rfl
    | some function =>
      cases function with
      | nthChild => exact hposition _
      | nthLastChild => exact hposition _
      | nthOfType => exact htyped _
      | nthLastOfType => exact htyped _
      | lang => exact Decides.pure Iff.rfl
      | dir => exact Decides.pure Iff.rfl
  | none =>
    dsimp only
    cases pseudoClassOf name with
    | none => exact Decides.pure Iff.rfl
    | some state =>
      cases state with
      | firstChild => exact hposition _
      | lastChild => exact hposition _
      | onlyChild => exact hposition _
      | firstOfType => exact htyped _
      | lastOfType => exact htyped _
      | onlyOfType => exact htyped _
      | indeterminate => exact decides_matchesIndeterminate node
      | default => exact decides_matchesDefault node
      | link =>
        exact Yields.bind Yields.get fun cache hcache =>
          Decides.pure (by rw [hcache.isVisitedSubject])
      | visited =>
        exact Yields.bind Yields.get fun cache hcache =>
          Decides.pure (by rw [hcache.isVisitedSubject])
      | _ => exact Decides.pure Iff.rfl

/-! ## Filtered siblings -/

omit [DecidableEq ι] in
theorem yields_selectElements {Inv : SelectorMatchCache ι → Prop} {test : ι → Matching ι Bool}
    {P : ι → Prop} (htest : ∀ child, Decides Inv (test child) (P child)) :
    ∀ children, Yields Inv (selectElements test children)
      (open Classical in (· = children.filter fun child => decide (P child)))
  | [] => Yields.pure rfl
  | child :: children => by
    rw [selectElements]
    refine Yields.bind (htest child) fun selected hselected => ?_
    refine Yields.bind (yields_selectElements htest children) fun rest hrest => Yields.pure ?_
    rw [List.filter_cons, hrest]
    cases selected <;> simp_all

theorem positionsIn_append {before after : List ι} {node : ι} (h : node ∉ before) :
    positionsIn (before ++ node :: after) node =
      some (before.length + 1, (before ++ node :: after).length) := by
  have hnone : (before.zipIdx.find? fun item => item.1 == node) = none := by
    refine List.find?_eq_none.mpr fun item hitem hsame => h ?_
    rw [← beq_iff_eq.mp hsame]
    exact List.fst_mem_of_mem_zipIdx hitem
  rw [positionsIn, List.zipIdx_append, List.find?_append, hnone]
  simp

theorem positionsIn_of_not_mem {selected : List ι} {node : ι} (h : node ∉ selected) :
    positionsIn selected node = none := by
  rw [positionsIn, List.find?_eq_none.mpr, Option.map_none]
  intro item hitem hsame
  refine h ?_
  rw [← beq_iff_eq.mp hsame]
  exact List.fst_mem_of_mem_zipIdx hitem

/-- The table of filtered siblings has the position of each of them. -/
theorem positionsIn_filter {tree : Tree ι} {P : ι → Prop}
    (hP : ∀ node, P node → tree.isElement node = true) {parent node : ι}
    (hparent : tree.parentNode node = some parent) (index total : Nat) :
    positionsIn (open Classical in (tree.childElements parent).filter fun child => decide (P child))
      node = some (index, total) ↔ tree.Among P node index total := by
  classical
  obtain ⟨before, after, hsplit, hnot, hbefore, -⟩ := Tree.exists_split hparent
  rw [Tree.Among, Tree.elementSiblings, hparent, Option.elim_some, Tree.childElements, hsplit, hbefore]
  by_cases hnode : P node
  · simp only [List.filter_append, List.filter_cons_of_pos (hP node hnode),
      @List.filter_cons_of_pos _ (fun child => decide (P child)) node _ (decide_eq_true hnode)]
    rw [positionsIn_append (fun h => hnot (List.mem_filter.mp (List.mem_filter.mp h).1).1)]
    simp [hnode, eq_comm]
  · rw [positionsIn_of_not_mem fun h => hnode (by simpa using (List.mem_filter.mp h).2)]
    simp [hnode]

variable {scopeRoot : Option ι} {escape : Bool}

/-- The position of a node among the siblings that match some selectors. -/
theorem yields_filteredPosition {selectors : List Selector} {test : ι → Matching ι Bool}
    (htest : ∀ child, Decides (Valid doc live Pass.blind) (test child)
      (SomeMatches doc scopeRoot escape selectors unvisited child none)) (node : ι) :
    Yields (Valid doc live pass) (filteredPosition doc.tree scopeRoot escape selectors test node)
      fun position => ∀ index total, position = some (index, total) ↔
        doc.tree.Among (fun other => SomeMatches doc scopeRoot escape selectors unvisited other none)
          node index total := by
  unfold filteredPosition
  cases hparent : doc.tree.parentNode node with
  | none =>
    refine Yields.pure fun index total => ?_
    have hself := (htest node {} valid_blind).1
    rw [Tree.Among, Tree.elementsBefore, Tree.elementSiblings, hparent]
    by_cases hholds : SomeMatches doc scopeRoot escape selectors unvisited node none
    · rw [if_pos (hself.mpr hholds)]
      simp [hholds, eq_comm]
    · rw [if_neg fun h => hholds (hself.mp h)]
      simp [hholds]
  | some parent =>
    have hmake : ∀ siblings, siblings = buildStructuralPositions doc.tree parent →
        ∀ other index total, doc.tree.parentNode other = some parent →
        (positionsIn ((selectElements test siblings.elements).run {}).1 other = some (index, total) ↔
          doc.tree.Among (fun other =>
            SomeMatches doc scopeRoot escape selectors unvisited other none) other index total) := by
      rintro siblings rfl other index total hother
      rw [(yields_selectElements htest _ {} valid_blind).1,
        (buildStructuralPositions_spec hparent).1]
      exact positionsIn_filter (fun _ => SomeMatches.isElement) hother index total
    refine Yields.bind Yields.get fun cache hcache => ?_
    dsimp only
    cases hfind : cache.filteredPositions.find? fun entry => entry.1.same
        { parent, selectors, scope := scopeRoot, allowScopeAncestorEscape := escape } with
    | some entry =>
      refine Yields.pure fun index total => ?_
      have hsame := List.find?_some hfind
      simp only [FilterKey.same, Bool.and_eq_true, beq_iff_eq] at hsame
      obtain ⟨⟨⟨hkey, hselectors⟩, hscope⟩, hescape⟩ := hsame
      rw [hcache.filteredPositions entry (List.mem_of_find?_eq_some hfind) node index total
        (by rw [hkey]; exact hparent), hscope, hescape, someMatches_same doc _ _ hselectors]
    | none =>
      refine Yields.bind (keepsPositions parent) fun siblings hsiblings => ?_
      refine Yields.bind (Yields.modify fun cache hcache => ?_) fun _ _ =>
        Yields.pure fun index total => hmake siblings hsiblings node index total hparent
      refine { hcache with filteredPositions := fun entry hentry other index total hother => ?_ }
      rcases List.mem_cons.mp hentry with rfl | hentry
      · exact hmake siblings hsiblings other index total hother
      · exact hcache.filteredPositions entry hentry other index total hother

/-! ## `:has()` -/

/-- The arguments of `:has()` that a selector has are live, and those that are looked up do not
depend on the visit of the subject. -/
structure Ready (doc : Document ι) (live : RelativeSelector → Prop) (pass : Pass ι)
    (scopeRoot : Option ι) (escape : Bool) (relatives : Bool → List RelativeSelector) : Prop where
  live : ∀ relative ∈ relatives true, live relative
  agrees : scopeRoot = none → escape = false → ∀ relative ∈ relatives false, ∀ anchor,
    (RelativeHolds doc none false relative pass.visited anchor ↔
      RelativeHolds doc none false relative (pass.recorded relative.address) anchor)

theorem Ready.mono {relatives relatives' : Bool → List RelativeSelector}
    (h : Ready doc live pass scopeRoot escape relatives)
    (hsub : ∀ filters, relatives' filters ⊆ relatives filters) :
    Ready doc live pass scopeRoot escape relatives' :=
  ⟨fun relative hmem => h.live relative (hsub true hmem),
    fun hscope hescape relative hmem => h.agrees hscope hescape relative (hsub false hmem)⟩

theorem decides_matchesRelativeSelectorCached (hdistinct : Distinct live) {address : Nat}
    {combinator : Combinator} {parts : List SelectorPart}
    (hlive : live (.mk address combinator (.mk parts)))
    (hagrees : scopeRoot = none → escape = false → ∀ anchor,
      (RelativeHolds doc none false (.mk address combinator (.mk parts)) pass.visited anchor ↔
        RelativeHolds doc none false (.mk address combinator (.mk parts)) (pass.recorded address)
          anchor))
    (htests : Tests (Valid doc live pass) (compounds doc scopeRoot escape parts)
      (conditions doc scopeRoot escape parts pass.visited)) (anchor : ι) :
    Decides (Valid doc live pass)
      (matchesRelativeSelectorCached doc.tree scopeRoot escape (.mk address combinator (.mk parts))
        (compounds doc scopeRoot escape parts) anchor)
      (RelativeHolds doc scopeRoot escape (.mk address combinator (.mk parts)) pass.visited anchor) := by
  have hsearch : ∀ {f : Bool → Matching ι Bool} {P : Prop},
      (∀ result, (result = true ↔ RelativeHolds doc scopeRoot escape
        (.mk address combinator (.mk parts)) pass.visited anchor) →
          Decides (Valid doc live pass) (f result) P) →
      Decides (Valid doc live pass) (relatedElements doc.tree anchor combinator >>= fun candidates =>
        candidates.anyM (matchesRelativeSelectorPart doc.tree (compounds doc scopeRoot escape parts)) >>=
          f) P := by
    intro f P hf
    refine Yields.bind (yields_relatedElements keepsPositions anchor combinator)
      fun candidates hcandidates => ?_
    refine Yields.bind (Decides.anyM fun other _ =>
      decides_matchesRelativeSelectorPart keepsPositions htests other) fun result hresult => ?_
    refine hf result (hresult.trans ?_)
    simp only [hcandidates, RelativeHolds]
  unfold matchesRelativeSelectorCached
  refine Yields.bind Yields.get fun cache hcache => ?_
  dsimp only [RelativeSelector.address, RelativeSelector.leadingCombinator]
  cases hshared : scopeRoot.isNone && !escape with
  | false =>
    exact hsearch fun result hresult => Decides.pure hresult
  | true =>
    obtain ⟨rfl, rfl⟩ : scopeRoot = none ∧ escape = false := by simpa using hshared
    rw [if_pos rfl]
    cases hknown : cache.relationalMatches (anchor, address) with
    | some result =>
      refine Decides.pure ?_
      rw [hagrees rfl rfl anchor]
      exact hcache.relationalMatches anchor _ result hlive hknown
    | none =>
      refine hsearch fun result hresult => ?_
      rw [if_pos rfl]
      refine Yields.bind (Yields.modify fun cache hcache => ?_) fun _ _ => Yields.pure hresult
      refine { hcache with relationalMatches := fun other relative found hrelative h => ?_ }
      by_cases hsame : (other, relative.address) = (anchor, address)
      · obtain ⟨rfl, haddress⟩ := Prod.mk.injEq .. ▸ hsame
        obtain rfl := hdistinct relative _ hrelative hlive haddress
        simp only [hsame, Function.update_self, Option.some.injEq] at h
        rw [← h]
        exact hresult.trans (hagrees rfl rfl other)
      · simp only [Function.update_of_ne hsame] at h
        exact hcache.relationalMatches other relative found hrelative h

/-! ## Selectors -/

/-- A selector under one that is matched, from the tests of its compounds. -/
theorem decides_matchesSelector_of_tests (hsettled : pass.Settled) {parts : List SelectorPart}
    (htests : Tests (Valid doc live pass) (compounds doc scopeRoot escape parts)
      (conditions doc scopeRoot escape parts pass.visited)) (node : ι)
    (pseudo : Option PseudoElement) :
    Decides (Valid doc live pass)
      (matchesSelectorWithScopeMode doc scopeRoot escape (.mk parts) node pseudo)
      (Matches doc scopeRoot escape (.mk parts) pass.visited node pseudo) := by
  rw [matchesSelectorWithScopeMode, Matches]
  split
  next hempty =>
    refine Decides.pure ⟨nofun, ?_⟩
    rintro ⟨hne, helement, -⟩
    simp [hne, helement] at hempty
  next hempty =>
    have hgo : parts ≠ [] ∧ doc.tree.isElement node = true := by simpa using hempty
    split
    next hpseudo => exact Decides.pure (by simp [hpseudo])
    next hpseudo =>
      refine Yields.bind Yields.get fun cache hcache => ?_
      have houtermost : (cache.visitedLinkIds.isSome && cache.activeVisitedSubject.isNone) = false := by
        rw [hcache.visitedLinkIds, hcache.activeVisitedSubject]
        rcases hsettled with h | h
        · simp [h]
        · rw [Option.isNone_eq_false_iff.mpr (Option.isSome_iff_ne_none.mpr h), Bool.and_false]
      simp only [houtermost, Bool.false_eq_true, if_false]
      refine Yields.bind (decides_matchesSelectorPart keepsPositions htests scopeRoot escape _ node
        pseudo) fun matched hmatched => Decides.pure ?_
      rw [hmatched]
      simp [hgo, not_not.mp hpseudo]

omit [DecidableEq ι] in
theorem Pass.settled_blind : (Pass.blind : Pass ι).Settled := .inl rfl

mutual

/-- The matcher finds out what a selector means. -/
theorem decides_matchesSimpleSelector (hdistinct : Distinct live) :
    ∀ (simple : SimpleSelector) (pass : Pass ι), pass.Settled →
      Ready doc live pass scopeRoot escape simple.relatives → ∀ node pseudo,
      Decides (Valid doc live pass) (matchesSimpleSelector doc scopeRoot escape simple node pseudo)
        (SimpleHolds doc scopeRoot escape simple pass.visited node pseudo)
  | .type name, pass, _, _, node, pseudo => by
    rw [matchesSimpleSelector, SimpleHolds]
    exact Decides.pure (by rw [Option.any_eq_true])
  | .universal, pass, _, _, node, pseudo => by
    rw [matchesSimpleSelector, SimpleHolds]
    exact Decides.pure Iff.rfl
  | .className name, pass, _, _, node, pseudo => by
    rw [matchesSimpleSelector, SimpleHolds]
    exact Decides.pure (by simp only [Option.any_eq_true, List.contains_iff_mem])
  | .id name, pass, _, _, node, pseudo => by
    rw [matchesSimpleSelector, SimpleHolds]
    exact Decides.pure (by simp)
  | .attribute name operator value, pass, _, _, node, pseudo => by
    rw [matchesSimpleSelector, SimpleHolds]
    exact Decides.pure Iff.rfl
  | .customState name, pass, _, _, node, pseudo => by
    rw [matchesSimpleSelector, SimpleHolds]
    exact Decides.pure (by
      simp only [Option.any_eq_true, Bool.and_eq_true, beq_iff_eq, List.contains_iff_mem])
  | .pseudoClass name, pass, _, _, node, pseudo => by
    rw [matchesSimpleSelector, SimpleHolds]
    exact decides_matchesPseudoClass scopeRoot node name pseudo
  | .pseudoElement name, pass, _, _, node, pseudo => by
    rw [matchesSimpleSelector, SimpleHolds]
    exact Decides.pure Iff.rfl
  | .nthChild formula selectors reverse, pass, _, hready, node, pseudo => by
    rw [matchesSimpleSelector, SimpleHolds]
    cases hformula : parseAnPlusB formula with
    | none => exact Decides.pure (by simp)
    | some anPlusB =>
      -- the list is matched in a pass of its own, which observes no visits
      have htest : ∀ child, Decides (Valid doc live Pass.blind)
          (anySelector doc scopeRoot escape selectors child none)
          (SomeMatches doc scopeRoot escape selectors unvisited child none) := fun child => by
        have h := decides_anySelector hdistinct selectors Pass.blind Pass.settled_blind
          ⟨fun relative hmem => hready.live relative (by simpa [SimpleSelector.relatives] using hmem),
            fun _ _ _ _ _ => by rw [Pass.visited_blind]; rfl⟩ child none
        rwa [Pass.visited_blind] at h
      refine Yields.bind (yields_filteredPosition htest node) fun position hposition =>
        Decides.pure ?_
      rw [atPosition, Option.any_eq_true]
      constructor
      · rintro ⟨⟨index, total⟩, hsome, hmatches⟩
        exact ⟨anPlusB, rfl, index, total, (hposition index total).mp hsome, hmatches⟩
      · rintro ⟨_, hsame, index, total, hamong, hmatches⟩
        cases hsame
        exact ⟨(index, total), (hposition index total).mpr hamong, hmatches⟩
  | .is selectors, pass, hsettled, hready, node, pseudo => by
    rw [matchesSimpleSelector, SimpleHolds]
    exact decides_anySelector hdistinct selectors pass hsettled hready node pseudo
  | .where selectors, pass, hsettled, hready, node, pseudo => by
    rw [matchesSimpleSelector, SimpleHolds]
    exact decides_anySelector hdistinct selectors pass hsettled hready node pseudo
  | .not selectors, pass, hsettled, hready, node, pseudo => by
    rw [matchesSimpleSelector, SimpleHolds]
    exact (decides_anySelector hdistinct selectors pass hsettled hready node pseudo).not
  | .has selectors, pass, hsettled, hready, node, pseudo => by
    rw [matchesSimpleSelector, SimpleHolds]
    exact decides_anyRelative hdistinct selectors pass hsettled hready node

theorem decides_matchesCompound (hdistinct : Distinct live) :
    ∀ (simples : List SimpleSelector) (pass : Pass ι), pass.Settled →
      Ready doc live pass scopeRoot escape (relativesOfSimples · simples) →
      ∀ node subjectPseudo pseudo, Decides (Valid doc live pass)
        (matchesCompound doc scopeRoot escape simples node subjectPseudo pseudo)
        (CompoundHolds doc scopeRoot escape simples pass.visited node subjectPseudo pseudo)
  | [], _, _, _, _, _, _ => by
    rw [matchesCompound, CompoundHolds]
    exact Decides.pure (by simp)
  | simple :: simples, pass, hsettled, hready, node, subjectPseudo, pseudo => by
    rw [matchesCompound, CompoundHolds]
    refine Yields.bind Yields.get fun cache hcache => ?_
    rw [hcache.shadowPartSubject]
    refine Decides.bind (decides_matchesSimpleSelector hdistinct simple pass hsettled
      (hready.mono fun _ => List.subset_append_left ..) node _) (fun hholds => ?_) fun hholds => ?_
    · refine (decides_matchesCompound hdistinct simples pass hsettled
        (hready.mono fun _ => List.subset_append_right ..) node _ pseudo).congr ?_
      simp [hholds]
    · exact Decides.pure (by simp [hholds])

theorem tests_compounds (hdistinct : Distinct live) :
    ∀ (parts : List SelectorPart) (pass : Pass ι), pass.Settled →
      Ready doc live pass scopeRoot escape (relativesOfParts · parts) →
      Tests (Valid doc live pass) (compounds doc scopeRoot escape parts)
        (conditions doc scopeRoot escape parts pass.visited)
  | [], _, _, _ => by
    rw [compounds, conditions]
    exact .nil
  | .mk combinator simples :: parts, pass, hsettled, hready => by
    rw [compounds, conditions]
    refine .cons ⟨rfl, fun node pseudo => ?_⟩ (tests_compounds hdistinct parts pass hsettled
      (hready.mono fun _ => List.subset_append_right ..))
    exact decides_matchesCompound hdistinct simples pass hsettled
      (hready.mono fun _ => List.subset_append_left ..) node none pseudo

theorem decides_anySelector (hdistinct : Distinct live) :
    ∀ (selectors : List Selector) (pass : Pass ι), pass.Settled →
      Ready doc live pass scopeRoot escape (relativesOfSelectors · selectors) → ∀ node pseudo,
      Decides (Valid doc live pass) (anySelector doc scopeRoot escape selectors node pseudo)
        (SomeMatches doc scopeRoot escape selectors pass.visited node pseudo)
  | [], _, _, _, _, _ => by
    rw [anySelector, SomeMatches]
    exact Decides.pure (by simp)
  | .mk parts :: selectors, pass, hsettled, hready, node, pseudo => by
    rw [anySelector, SomeMatches]
    exact (decides_matchesSelector_of_tests hsettled (tests_compounds hdistinct parts pass hsettled
      (hready.mono fun _ => List.subset_append_left ..)) node pseudo).or
        (decides_anySelector hdistinct selectors pass hsettled
          (hready.mono fun _ => List.subset_append_right ..) node pseudo)

theorem decides_anyRelative (hdistinct : Distinct live) :
    ∀ (selectors : List RelativeSelector) (pass : Pass ι), pass.Settled →
      Ready doc live pass scopeRoot escape (relativesOfRelatives · selectors) → ∀ node,
      Decides (Valid doc live pass) (anyRelative doc scopeRoot escape selectors node)
        (SomeRelative doc scopeRoot escape selectors pass.visited node)
  | [], _, _, _, _ => by
    rw [anyRelative, SomeRelative]
    exact Decides.pure (by simp)
  | .mk address combinator (.mk parts) :: selectors, pass, hsettled, hready, node => by
    rw [anyRelative, SomeRelative]
    refine (decides_matchesRelativeSelectorCached hdistinct
      (hready.live _ List.mem_cons_self)
      (fun hscope hescape => hready.agrees hscope hescape _ List.mem_cons_self)
      (tests_compounds hdistinct parts pass hsettled (hready.mono fun _ => ?_)) node).or
        (decides_anyRelative hdistinct selectors pass hsettled (hready.mono fun _ => ?_) node)
    · exact fun _ hmem => List.mem_cons_of_mem _ (List.mem_append_left _ hmem)
    · exact fun _ hmem => List.mem_cons_of_mem _ (List.mem_append_right _ hmem)

end

/-! ## Passes -/

/-- Between two matches no subject is active. -/
def Pass.between (visitedLinkIds : Option (List ι)) (recorded : Nat → ι → Bool) : Pass ι where
  visitedLinkIds
  subject := none
  recorded

/-- While a match is going on, its element is the subject, if visits are observed. -/
def Pass.at (visitedLinkIds : Option (List ι)) (recorded : Nat → ι → Bool) (node : ι) : Pass ι where
  visitedLinkIds
  subject := if visitedLinkIds.isSome then some node else none
  recorded

omit [DecidableEq ι] in
theorem Pass.settled_at (ids : Option (List ι)) (recorded : Nat → ι → Bool) (node : ι) :
    (Pass.at ids recorded node).Settled := by
  cases ids with
  | none => exact .inl rfl
  | some ids => exact .inr (by simp [Pass.at])

theorem Valid.between {ids : Option (List ι)} {recorded : Nat → ι → Bool} {node : ι}
    {cache : SelectorMatchCache ι} (h : Valid doc live (Pass.at ids recorded node) cache)
    (hsubject : cache.activeVisitedSubject = none) :
    Valid doc live (Pass.between ids recorded) cache :=
  { h with activeVisitedSubject := hsubject }

/-- The outermost match. -/
theorem matchesSelectorWithScopeMode_run (hdistinct : Distinct live) {ids : Option (List ι)}
    {recorded : Nat → ι → Bool} {cache : SelectorMatchCache ι}
    (hcache : Valid doc live (Pass.between ids recorded) cache) (selector : Selector) (node : ι)
    (pseudo : Option PseudoElement)
    (hready : Ready doc live (Pass.at ids recorded node) scopeRoot escape selector.relatives) :
    let result := (matchesSelectorWithScopeMode doc scopeRoot escape selector node pseudo).run cache
    (result.1 = true ↔
        Matches doc scopeRoot escape selector (Pass.at ids recorded node).visited node pseudo) ∧
      Valid doc live (Pass.between ids recorded) result.2 := by
  cases ids with
  | none =>
    obtain ⟨parts⟩ := selector
    exact decides_matchesSelector_of_tests (Pass.settled_at none recorded node)
      (tests_compounds hdistinct parts _ (Pass.settled_at none recorded node) hready) node pseudo
      cache hcache
  | some ids =>
    obtain ⟨parts⟩ := selector
    rw [matchesSelectorWithScopeMode, Matches]
    split
    next hempty =>
      refine ⟨⟨nofun, ?_⟩, hcache⟩
      rintro ⟨hne, helement, -⟩
      simp [hne, helement] at hempty
    next hempty =>
      have hgo : parts ≠ [] ∧ doc.tree.isElement node = true := by simpa using hempty
      split
      next hpseudo => exact ⟨⟨nofun, by simp [hpseudo]⟩, hcache⟩
      next hpseudo =>
        have hstart : Valid doc live (Pass.at (some ids) recorded node)
            { cache with activeVisitedSubject := some node } :=
          { hcache with activeVisitedSubject := rfl }
        obtain ⟨hmatched, hend⟩ := decides_matchesSelectorPart keepsPositions
          (tests_compounds hdistinct parts _ (Pass.settled_at (some ids) recorded node) hready)
          scopeRoot escape (parts.length - 1) node pseudo _ hstart
        have houtermost :
            (cache.visitedLinkIds.isSome && cache.activeVisitedSubject.isNone) = true := by
          rw [hcache.visitedLinkIds, hcache.activeVisitedSubject]
          rfl
        simp only [StateT.run_bind, StateT.run_get, pure_bind, houtermost, if_true]
        exact ⟨hmatched.trans (by simp [hgo, not_not.mp hpseudo]),
          { hend with activeVisitedSubject := rfl }⟩

end Omoikane.Css
