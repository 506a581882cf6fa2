import Omoikane.Css.Meaning

/-!
# Walks of the matcher

The loops of the matcher over nodes and compounds, whatever the tests of the compounds are: if each
test decides the condition of its compound, the walk over the tree decides whether the selector
matches.
-/

namespace Omoikane.Css

open Base

variable {ι : Type} [DecidableEq ι] {Inv : SelectorMatchCache ι → Prop} {tree : Tree ι}

/-! ## Loops -/

section

variable {step : ι → Option ι} {stops : ι → Prop} {node other : ι}

omit [DecidableEq ι] in
theorem reaches_iff :
    Reaches step stops node other ↔
      ∃ between, step node = some between ∧
        (between = other ∨ ¬ stops between ∧ Reaches step stops between other) := by
  constructor
  · intro h
    cases h with
    | next h => exact ⟨other, h, .inl rfl⟩
    | later h hstop hrest => exact ⟨_, h, .inr ⟨hstop, hrest⟩⟩
  · rintro ⟨between, h, rfl | ⟨hstop, hrest⟩⟩
    · exact .next h
    · exact .later h hstop hrest

omit [DecidableEq ι] in
/-- A loop along a walk that gets closer to its end at each step. -/
theorem decides_anyAlong {next : ι → Matching ι (Option ι)} {test : ι → Matching ι Bool}
    {stop : ι → Bool} {T : ι → Prop} (hnext : ∀ node, Yields Inv (next node) (· = step node))
    (htest : ∀ node, Decides Inv (test node) (T node)) (hstop : ∀ node, stop node = true ↔ stops node)
    (rank : ι → Nat) (hrank : ∀ node other, step node = some other → rank other < rank node)
    (limit : Nat) : ∀ node, rank node ≤ limit →
      Decides Inv (anyAlong next test stop limit node) (∃ other, Reaches step stops node other ∧ T other) := by
  induction limit with
  | zero =>
    intro node hlimit
    refine Decides.pure ⟨nofun, ?_⟩
    rintro ⟨other, hreaches, -⟩
    obtain ⟨between, hstep, -⟩ := reaches_iff.mp hreaches
    exact absurd (hrank _ _ hstep) (by omega)
  | succ limit ih =>
    intro node hlimit
    refine Yields.bind (hnext node) fun found hfound => ?_
    cases found with
    | none =>
      refine Decides.pure ⟨nofun, ?_⟩
      rintro ⟨other, hreaches, -⟩
      obtain ⟨between, hstep, -⟩ := reaches_iff.mp hreaches
      rw [← hfound] at hstep
      cases hstep
    | some between =>
      have hiff : (∃ other, Reaches step stops node other ∧ T other) ↔
          T between ∨ ¬ stops between ∧ ∃ other, Reaches step stops between other ∧ T other := by
        constructor
        · rintro ⟨other, hreaches, hT⟩
          obtain ⟨first, hstep, hrest⟩ := reaches_iff.mp hreaches
          rw [← hfound] at hstep
          cases hstep
          rcases hrest with rfl | ⟨hgo, hrest⟩
          · exact .inl hT
          · exact .inr ⟨hgo, other, hrest, hT⟩
        · rintro (hT | ⟨hgo, other, hrest, hT⟩)
          · exact ⟨between, .next hfound.symm, hT⟩
          · exact ⟨other, .later hfound.symm hgo hrest, hT⟩
      have hrest := ih between (by have := hrank _ _ hfound.symm; omega)
      refine Decides.congr ?_ hiff.symm
      refine (htest between).bind (fun hT => Decides.pure (by simp [hT])) fun hT => ?_
      cases hstops : stop between with
      | true => exact Decides.pure (by simp [hT, (hstop between).mp hstops])
      | false =>
        refine hrest.congr ?_
        have : ¬ stops between := fun h => by simp [(hstop between).mpr h] at hstops
        simp [hT, this]

end

/-! ## Siblings -/

section

/-- The tables of the cache are those of the tree. -/
def KeepsPositions (tree : Tree ι) (Inv : SelectorMatchCache ι → Prop) : Prop :=
  ∀ parent, Yields Inv (positions tree parent) (· = buildStructuralPositions tree parent)

variable {node other : ι}

theorem yields_previousElementSibling (h : KeepsPositions tree Inv) (node : ι) :
    Yields Inv (previousElementSibling tree node) (· = (tree.elementsBefore node).getLast?) := by
  unfold previousElementSibling
  cases hparent : tree.parentNode node with
  | none => exact Yields.pure (by simp [Tree.elementsBefore, hparent])
  | some parent =>
    refine Yields.bind (h parent) fun siblings hsiblings => Yields.pure ?_
    obtain ⟨helements, hpreceding, -⟩ := buildStructuralPositions_spec hparent
    obtain ⟨before, after, hsplit, -, hbefore, -⟩ := Tree.exists_split hparent
    subst hsiblings
    rw [hpreceding, helements, Option.bind_some, Tree.childElements, hsplit, List.filter_append,
      ← hbefore]
    cases hlast : (tree.elementsBefore node).getLast? with
    | none => simp [List.getLast?_eq_none_iff.mp hlast]
    | some last =>
      have hne : (tree.elementsBefore node).length ≠ 0 := by
        intro hzero
        rw [List.length_eq_zero_iff.mp hzero] at hlast
        cases hlast
      rw [if_neg hne, List.getElem?_append_left (by omega), ← List.getLast?_eq_getElem?, hlast]

theorem yields_elementsAfter (h : KeepsPositions tree Inv) {node parent : ι}
    (hparent : tree.parentNode node = some parent) :
    Yields Inv (positions tree parent) fun siblings =>
      ∃ before, siblings.precedingElements node = some before ∧
        siblings.elements.drop (before + if (siblings.element node).isSome then 1 else 0) =
          tree.elementsAfter node := by
  refine (h parent).mono fun siblings hsiblings => ?_
  obtain ⟨helements, hpreceding, hposition, -⟩ := buildStructuralPositions_spec hparent
  obtain ⟨before, after, hsplit, -, hbefore, hafter⟩ := Tree.exists_split hparent
  subst hsiblings
  refine ⟨_, hpreceding, ?_⟩
  rw [helements, hposition, Tree.childElements, hsplit, List.filter_append, ← hbefore, hafter,
    Tree.positionAmong, hparent]
  cases helement : tree.isElement node <;> simp [helement]

/-- A split of the children at a node says what is before it and what is after it. -/
theorem elements_of_split {parent : ι} {before after : List ι}
    (h : tree.childNodes parent = before ++ node :: after) :
    tree.elementsBefore node = before.filter tree.isElement ∧
      tree.elementsAfter node = after.filter tree.isElement := by
  have hparent : tree.parentNode node = some parent := (tree.mem_childNodes _ _).mp (by simp [h])
  have hnodup := tree.nodup_childNodes parent
  rw [h] at hnodup
  have hne : ∀ other ∈ before, decide (other ≠ node) = true := fun other hother =>
    decide_eq_true fun hsame =>
      (List.nodup_append.mp hnodup).2.2 other hother node List.mem_cons_self hsame
  constructor
  · rw [Tree.elementsBefore, hparent, Option.elim_some, h, List.takeWhile_append_of_pos hne]
    simp
  · rw [Tree.elementsAfter, hparent, Option.elim_some, h, List.dropWhile_append_of_pos hne]
    simp

theorem exists_split_of_mem {before : List ι}
    (h : before = tree.elementsBefore node ∨ before = tree.elementsAfter node)
    (hmem : other ∈ before) : ∃ parent front back,
      tree.childNodes parent = front ++ node :: back := by
  cases hparent : tree.parentNode node with
  | none =>
    rcases h with rfl | rfl <;> simp [Tree.elementsBefore, Tree.elementsAfter, hparent] at hmem
  | some parent =>
    obtain ⟨front, back, hsplit, -⟩ := Tree.exists_split hparent
    exact ⟨parent, front, back, hsplit⟩

theorem mem_elementsBefore : other ∈ tree.elementsBefore node ↔
    tree.isElement other = true ∧ tree.Precedes other node := by
  constructor
  · intro h
    obtain ⟨parent, front, back, hsplit⟩ := exists_split_of_mem (.inl rfl) h
    rw [(elements_of_split hsplit).1, List.mem_filter] at h
    obtain ⟨before, between, rfl⟩ := List.append_of_mem h.1
    exact ⟨h.2, parent, before, between, back, by simp [hsplit]⟩
  · rintro ⟨helement, parent, before, between, after, hsplit⟩
    rw [show before ++ other :: (between ++ node :: after) =
      (before ++ other :: between) ++ node :: after by simp] at hsplit
    rw [(elements_of_split hsplit).1, List.mem_filter]
    exact ⟨by simp, helement⟩

theorem mem_elementsAfter : other ∈ tree.elementsAfter node ↔
    tree.isElement other = true ∧ tree.Precedes node other := by
  constructor
  · intro h
    obtain ⟨parent, front, back, hsplit⟩ := exists_split_of_mem (.inr rfl) h
    rw [(elements_of_split hsplit).2, List.mem_filter] at h
    obtain ⟨between, after, rfl⟩ := List.append_of_mem h.1
    exact ⟨h.2, parent, front, between, after, by simp [hsplit]⟩
  · rintro ⟨helement, parent, before, between, after, hsplit⟩
    rw [(elements_of_split hsplit).2, List.mem_filter]
    exact ⟨by simp, helement⟩

/-- The last element before a node. -/
theorem getLast?_elementsBefore : (tree.elementsBefore node).getLast? = some other ↔
    tree.isElement other = true ∧ tree.Adjacent other node := by
  constructor
  · intro h
    obtain ⟨parent, front, back, hsplit⟩ :=
      exists_split_of_mem (.inl rfl) (List.mem_of_getLast? h)
    rw [(elements_of_split hsplit).1] at h
    obtain ⟨rest, hrest⟩ := List.getLast?_eq_some_iff.mp h
    obtain ⟨before, tail, rfl, -, htail⟩ := List.filter_eq_append_iff.mp hrest
    obtain ⟨gap, between, rfl, hgap, helement, hbetween⟩ := List.filter_eq_cons_iff.mp htail
    refine ⟨helement, parent, before ++ gap, between, back, by simp [hsplit], fun node hnode => ?_⟩
    exact Bool.of_not_eq_true fun h =>
      (List.filter_eq_nil_iff.mp hbetween node hnode) h
  · rintro ⟨helement, parent, before, between, after, hsplit, hbetween⟩
    rw [show before ++ other :: (between ++ node :: after) =
      (before ++ other :: between) ++ node :: after by simp] at hsplit
    have hnone : between.filter tree.isElement = [] :=
      List.filter_eq_nil_iff.mpr fun node hnode => by simp [hbetween node hnode]
    rw [(elements_of_split hsplit).1, List.filter_append, List.filter_cons_of_pos helement, hnone,
      List.getLast?_concat]

/-- The first element after a node. -/
theorem head?_elementsAfter : (tree.elementsAfter node).head? = some other ↔
    tree.isElement other = true ∧ tree.Adjacent node other := by
  constructor
  · intro h
    obtain ⟨parent, front, back, hsplit⟩ := exists_split_of_mem (.inr rfl) (List.mem_of_head? h)
    rw [(elements_of_split hsplit).2] at h
    obtain ⟨rest, hrest⟩ := List.head?_eq_some_iff.mp h
    obtain ⟨between, after, rfl, hbetween, helement, -⟩ := List.filter_eq_cons_iff.mp hrest
    refine ⟨helement, parent, front, between, after, hsplit, fun node hnode => ?_⟩
    exact Bool.of_not_eq_true (hbetween node hnode)
  · rintro ⟨helement, parent, before, between, after, hsplit, hbetween⟩
    have hnone : between.filter tree.isElement = [] :=
      List.filter_eq_nil_iff.mpr fun node hnode => by simp [hbetween node hnode]
    rw [(elements_of_split hsplit).2, List.filter_append, hnone, List.nil_append,
      List.filter_cons_of_pos helement]
    rfl

/-- Before the last element before a node are the others. -/
theorem elementsBefore_of_getLast? (h : (tree.elementsBefore node).getLast? = some other) :
    tree.elementsBefore node = tree.elementsBefore other ++ [other] := by
  obtain ⟨helement, parent, before, between, after, hsplit, hbetween⟩ :=
    getLast?_elementsBefore.mp h
  have hnone : between.filter tree.isElement = [] :=
    List.filter_eq_nil_iff.mpr fun node hnode => by simp [hbetween node hnode]
  rw [(elements_of_split hsplit).1]
  rw [show before ++ other :: (between ++ node :: after) =
    (before ++ other :: between) ++ node :: after by simp] at hsplit
  rw [(elements_of_split hsplit).1, List.filter_append, List.filter_cons_of_pos helement, hnone]

/-- A walk back through the elements before a node meets all of them. -/
theorem reaches_previous :
    Reaches (fun node => (tree.elementsBefore node).getLast?) (fun _ => False) node other ↔
      tree.isElement other = true ∧ tree.Precedes other node := by
  rw [← mem_elementsBefore]
  induction hlength : (tree.elementsBefore node).length generalizing node with
  | zero =>
    rw [reaches_iff, List.length_eq_zero_iff.mp hlength]
    simp
  | succ length ih =>
    rw [reaches_iff]
    cases hlast : (tree.elementsBefore node).getLast? with
    | none =>
      rw [List.getLast?_eq_none_iff.mp hlast] at hlength
      cases hlength
    | some last =>
      have hbefore := elementsBefore_of_getLast? hlast
      rw [hbefore, List.length_append] at hlength
      have hrest := @ih last (by simpa using hlength)
      rw [hbefore, List.mem_append, ← hrest]
      simp [or_comm, eq_comm]

/-- The elements that a combinator leads to, in `:has()`. -/
theorem yields_relatedElements (h : KeepsPositions tree Inv) (node : ι) (combinator : Combinator) :
    Yields Inv (relatedElements tree node combinator) fun candidates =>
      ∀ other, other ∈ candidates ↔ tree.Right node combinator other := by
  cases combinator with
  | descendant => exact Yields.pure fun other => Tree.mem_elementDescendants
  | child =>
    refine Yields.pure fun other => Tree.mem_childElements.trans ?_
    rw [and_comm]
    rfl
  | adjacentSibling =>
    show Yields Inv (nextElementSibling tree node >>= fun next => pure next.toList) _
    refine Yields.bind (Q := (· = (tree.elementsAfter node).head?)) ?_ fun next hnext => ?_
    · unfold nextElementSibling
      cases hparent : tree.parentNode node with
      | none => exact Yields.pure (by simp [Tree.elementsAfter, hparent])
      | some parent =>
        refine Yields.bind (yields_elementsAfter h hparent) fun siblings hsiblings => ?_
        obtain ⟨before, hbefore, hafter⟩ := hsiblings
        refine Yields.pure ?_
        rw [hbefore, Option.bind_some, ← hafter, List.head?_drop]
    · refine Yields.pure fun other => ?_
      rw [Option.mem_toList, hnext]
      exact head?_elementsAfter
  | generalSibling =>
    show Yields Inv (followingElementSiblings tree node) _
    unfold followingElementSiblings
    cases hparent : tree.parentNode node with
    | none =>
      refine Yields.pure fun other => ?_
      refine Iff.trans ?_ mem_elementsAfter
      simp [Tree.elementsAfter, hparent]
    | some parent =>
      refine Yields.bind (yields_elementsAfter h hparent) fun siblings hsiblings => ?_
      obtain ⟨before, hbefore, hafter⟩ := hsiblings
      refine Yields.pure fun other => ?_
      rw [hbefore, Option.elim_some, hafter]
      exact mem_elementsAfter

end

/-! ## Compounds -/

/-- The tests of some compounds decide their conditions. -/
def Tests (Inv : SelectorMatchCache ι → Prop) : List (Compound ι) → List (Condition ι) → Prop :=
  List.Forall₂ fun compound condition => compound.combinator = condition.combinator ∧
    ∀ node pseudo, Decides Inv (compound.test node pseudo) (condition.Holds node pseudo)

variable {parts : List (Compound ι)} {conds : List (Condition ι)}

omit [DecidableEq ι] in
/-- A compound and its condition are at the same index. -/
theorem Tests.getElem? (h : Tests Inv parts conds) (index : Nat) :
    (parts[index]? = none ∧ conds[index]? = none) ∨ ∃ part cond, parts[index]? = some part ∧
      conds[index]? = some cond ∧ part.combinator = cond.combinator ∧
      ∀ node pseudo, Decides Inv (part.test node pseudo) (cond.Holds node pseudo) := by
  induction h generalizing index with
  | nil => exact .inl ⟨rfl, rfl⟩
  | cons hpart _ ih =>
    cases index with
    | zero => exact .inr ⟨_, _, rfl, rfl, hpart⟩
    | succ index => exact ih index

/-- The walk from right to left. -/
theorem decides_matchesSelectorPart (hpositions : KeepsPositions tree Inv)
    (h : Tests Inv parts conds) (scopeRoot : Option ι) (escape : Bool) :
    ∀ index node pseudo, Decides Inv (matchesSelectorPart tree scopeRoot escape parts index node pseudo)
      (PartsHold tree (AtScopeRoot scopeRoot escape) conds index node pseudo)
  | 0, node, pseudo => by
    rw [matchesSelectorPart, PartsHold]
    rcases h.getElem? 0 with ⟨hpart, hcond⟩ | ⟨part, cond, hpart, hcond, hcombinator, htest⟩
    · simp only [hpart, hcond]
      exact Decides.pure (by simp)
    · simp only [hpart, hcond]
      refine (htest node pseudo).bind (fun hholds => ?_) fun hholds => ?_
      · exact Decides.pure (by simp [hholds, hcombinator])
      · exact Decides.pure (by simp [hholds])
  | index + 1, node, pseudo => by
    have ih := decides_matchesSelectorPart hpositions h scopeRoot escape index
    rw [matchesSelectorPart, PartsHold]
    rcases h.getElem? (index + 1) with ⟨hpart, hcond⟩ | ⟨part, cond, hpart, hcond, hcombinator, htest⟩
    · simp only [hpart, hcond]
      exact Decides.pure (by simp)
    simp only [hpart, hcond]
    refine (htest node pseudo).bind (fun hholds => ?_) fun hholds => Decides.pure (by simp [hholds])
    have hstop : ∀ other, (!escape && scopeRoot == some other) = true ↔
        AtScopeRoot scopeRoot escape other := by
      intro other
      simp [AtScopeRoot]
    cases hleft : part.combinator with
    | none =>
      rw [hleft] at hcombinator
      exact Decides.pure (by simp [hholds, ← hcombinator])
    | some combinator =>
      rw [hleft] at hcombinator
      simp only [Bool.not_true, Bool.false_eq_true, if_false]
      refine Decides.congr ?_ (show (¬ AtScopeRoot scopeRoot escape node ∧ ∃ other,
        tree.Left (AtScopeRoot scopeRoot escape) node combinator other ∧
          PartsHold tree (AtScopeRoot scopeRoot escape) conds index other none) ↔ _ by
        simp [hholds, ← hcombinator])
      split
      next hat => exact Decides.pure (by simp [(hstop node).mp hat])
      next hnot =>
        have hgo : ¬ AtScopeRoot scopeRoot escape node := fun h => hnot ((hstop node).mpr h)
        refine Decides.congr ?_ (show (∃ other,
          tree.Left (AtScopeRoot scopeRoot escape) node combinator other ∧
            PartsHold tree (AtScopeRoot scopeRoot escape) conds index other none) ↔ _ by
          simp [hgo])
        cases combinator with
        | descendant =>
          refine decides_anyAlong (fun other => Yields.pure rfl) (fun other => ih other none)
            hstop tree.depth (fun other parent hparent => ?_) _ node (Nat.le_refl _)
          rw [tree.depth_parent _ _ hparent]
          exact Nat.lt_succ_self _
        | child =>
          cases hparent : tree.parentNode node with
          | none => exact Decides.pure (by simp [Tree.Left, hparent])
          | some parent => exact (ih parent none).congr (by simp [Tree.Left, hparent])
        | adjacentSibling =>
          refine Yields.bind (yields_previousElementSibling hpositions node)
            fun sibling hsibling => ?_
          cases sibling with
          | none =>
            refine Decides.pure ⟨nofun, ?_⟩
            rintro ⟨other, hother, -⟩
            rw [getLast?_elementsBefore.mpr hother] at hsibling
            cases hsibling
          | some sibling =>
            refine (ih sibling none).congr ⟨fun h =>
              ⟨sibling, getLast?_elementsBefore.mp hsibling.symm, h⟩, ?_⟩
            rintro ⟨other, hother, h⟩
            rw [getLast?_elementsBefore.mpr hother] at hsibling
            cases hsibling
            exact h
        | generalSibling =>
          have hnever : ∀ other : ι, false = true ↔ False := by simp
          refine Decides.congr (decides_anyAlong (yields_previousElementSibling hpositions)
            (fun other => ih other none) hnever
            (fun node => (tree.elementsBefore node).length) (fun other last hlast => ?_) _ node
            ?_) ?_
          · rw [elementsBefore_of_getLast? hlast, List.length_append]
            exact Nat.lt_succ_self _
          · cases hparent : tree.parentNode node with
            | none => simp [Tree.elementsBefore, hparent]
            | some parent =>
              obtain ⟨before, after, hsplit, -, hbefore, -⟩ := Tree.exists_split hparent
              rw [hbefore, Option.elim_some, hsplit, List.length_append]
              exact Nat.le_trans (List.length_filter_le ..) (Nat.le_add_right ..)
          · simp only [reaches_previous, Tree.Left]

/-- The walk from left to right. -/
theorem decides_matchesRelativeSelectorPart (hpositions : KeepsPositions tree Inv)
    (h : Tests Inv parts conds) :
    ∀ node, Decides Inv (matchesRelativeSelectorPart tree parts node)
      (RelativePartsHold tree conds node) := by
  induction h with
  | nil => exact fun node => Decides.pure (by simp [RelativePartsHold])
  | cons hpart hrest ih =>
    intro node
    cases hrest with
    | nil => exact hpart.2 node none
    | cons hnext hrest =>
      rw [matchesRelativeSelectorPart, RelativePartsHold]
      refine (hpart.2 node none).bind (fun hholds => ?_) fun hholds =>
        Decides.pure (by simp [hholds])
      simp only [Bool.not_true, Bool.false_eq_true, if_false, hnext.1]
      split
      next combinator hcombinator =>
        refine Yields.bind (yields_relatedElements hpositions node combinator)
          fun candidates hcandidates => ?_
        refine Decides.congr (Decides.anyM fun other _ => ih other) ?_
        simp [hholds, hcombinator, hcandidates]
      next hnone =>
        refine Decides.pure ⟨nofun, ?_⟩
        rintro ⟨-, combinator, hcombinator, -⟩
        exact absurd hcombinator (hnone combinator)

end Omoikane.Css
