import Omoikane.Base.Deciding
import Omoikane.Css.Matcher

/-!
# Siblings

The tables of positions say how many elements come before a child, and how many of them have its type
(`buildStructuralPositions`).  A cache whose tables are those of the tree lets the matcher find the
elements before and after a node, and its position (`Yields` lemmas).
-/

namespace Omoikane.Css

open Base

variable {ι : Type} [DecidableEq ι]

namespace Tree

variable (tree : Tree ι)

/-- The elements before a node among its siblings. -/
def elementsBefore (node : ι) : List ι :=
  (tree.parentNode node).elim [] fun parent =>
    ((tree.childNodes parent).takeWhile (· ≠ node)).filter tree.isElement

/-- The elements after a node among its siblings. -/
def elementsAfter (node : ι) : List ι :=
  (tree.parentNode node).elim [] fun parent =>
    ((tree.childNodes parent).dropWhile (· ≠ node)).tail.filter tree.isElement

/-- The elements among a node and its siblings. -/
def elementSiblings (node : ι) : List ι :=
  (tree.parentNode node).elim [node] tree.childElements

/-- Two elements have the same type. -/
def sameType (node other : ι) : Bool :=
  (tree.tagName node).map Text.toAsciiLowercase == (tree.tagName other).map Text.toAsciiLowercase

/-- The position of an element among some of its siblings, and their number. -/
def positionAmong (node : ι) (counts : ι → Bool) : Option (Nat × Nat) :=
  match tree.parentNode node with
  | none => some (1, 1)
  | some parent =>
    if tree.isElement node then
      some (((tree.elementsBefore node).filter counts).length + 1,
        ((tree.childElements parent).filter counts).length)
    else none

variable {tree} {node parent : ι}

/-- A child is somewhere among the children of its parent. -/
theorem exists_split (h : tree.parentNode node = some parent) :
    ∃ before after, tree.childNodes parent = before ++ node :: after ∧ node ∉ before ∧
      tree.elementsBefore node = before.filter tree.isElement ∧
      tree.elementsAfter node = after.filter tree.isElement := by
  obtain ⟨before, after, heq⟩ := List.append_of_mem ((tree.mem_childNodes _ _).mpr h)
  have hnodup := tree.nodup_childNodes parent
  rw [heq] at hnodup
  have hbefore : node ∉ before := fun hmem =>
    (List.nodup_append.mp hnodup).2.2 node hmem node List.mem_cons_self rfl
  have hne : ∀ other ∈ before, decide (other ≠ node) = true := fun other hother =>
    decide_eq_true fun hsame => hbefore (hsame ▸ hother)
  refine ⟨before, after, heq, hbefore, ?_, ?_⟩
  · rw [elementsBefore, h, Option.elim_some, heq, List.takeWhile_append_of_pos hne]
    simp
  · rw [elementsAfter, h, Option.elim_some, heq, List.dropWhile_append_of_pos hne]
    simp

omit [DecidableEq ι] in
theorem isElement_iff_tagName : tree.isElement node = true ↔ ∃ tag, tree.tagName node = some tag := by
  rw [isElement, tagName, Option.isSome_iff_exists]
  simp only [Option.map_eq_some_iff]
  exact ⟨fun ⟨element, h⟩ => ⟨_, element, h, rfl⟩, fun ⟨_, element, h, _⟩ => ⟨element, h⟩⟩

end Tree

/-! ## The tables -/

section

variable {tree : Tree ι}

/-- The elements among some nodes, with their types. -/
def elementTags (tree : Tree ι) (nodes : List ι) : List (ι × Text) :=
  nodes.filterMap fun node => (tree.tagName node).map fun tag => (node, Text.toAsciiLowercase tag)

omit [DecidableEq ι] in
theorem elementTags_map_fst (nodes : List ι) :
    (elementTags tree nodes).map Prod.fst = nodes.filter tree.isElement := by
  induction nodes with
  | nil => rfl
  | cons node nodes ih =>
    rw [elementTags] at ih ⊢
    cases htag : tree.tagName node with
    | none =>
      have hnot : tree.isElement node = false := by
        rw [← Bool.not_eq_true, Tree.isElement_iff_tagName, htag]
        simp
      simp [htag, hnot, ih]
    | some tag =>
      have helement : tree.isElement node = true := Tree.isElement_iff_tagName.mpr ⟨tag, htag⟩
      simp [htag, helement, ih]

omit [DecidableEq ι] in
theorem elementTags_append (nodes others : List ι) :
    elementTags tree (nodes ++ others) = elementTags tree nodes ++ elementTags tree others :=
  List.filterMap_append

omit [DecidableEq ι] in
/-- The elements of a type among some nodes. -/
theorem countP_elementTags (node : ι) {tag : Text} (htag : tree.tagName node = some tag)
    (nodes : List ι) :
    (elementTags tree nodes).countP (·.2 == Text.toAsciiLowercase tag) =
      ((nodes.filter tree.isElement).filter (tree.sameType node)).length := by
  induction nodes with
  | nil => rfl
  | cons other nodes ih =>
    rw [elementTags] at ih ⊢
    cases hother : tree.tagName other with
    | none =>
      have hnot : tree.isElement other = false := by
        rw [← Bool.not_eq_true, Tree.isElement_iff_tagName, hother]
        simp
      simp [hother, hnot, ih]
    | some otherTag =>
      have helement : tree.isElement other = true :=
        Tree.isElement_iff_tagName.mpr ⟨otherTag, hother⟩
      have hsame : tree.sameType node other =
          (Text.toAsciiLowercase otherTag == Text.toAsciiLowercase tag) := by
        rw [Tree.sameType, htag, hother, Bool.eq_iff_iff]
        simp only [Option.map_some, beq_iff_eq, Option.some.injEq]
        exact eq_comm
      simp only [List.filterMap_cons, hother, Option.map_some, List.countP_cons, ih,
        List.filter_cons_of_pos helement, List.filter_cons, hsame]
      split <;> simp

theorem foldl_collectElement (children : List ι) :
    ∀ (preceding : ι → Option Nat) (tags : List (ι × Text)), children.Nodup →
      (children.foldl (collectElement tree) (preceding, tags)).2 = tags ++ elementTags tree children ∧
      (∀ node ∉ children,
        (children.foldl (collectElement tree) (preceding, tags)).1 node = preceding node) ∧
      ∀ before node after, children = before ++ node :: after →
        (children.foldl (collectElement tree) (preceding, tags)).1 node =
          some (tags.length + (elementTags tree before).length) := by
  induction children with
  | nil =>
    intro preceding tags _
    refine ⟨by simp [elementTags], fun _ _ => rfl, fun before node after h => ?_⟩
    cases before <;> cases h
  | cons child children ih =>
    intro preceding tags hnodup
    obtain ⟨hchild, hnodup⟩ := List.nodup_cons.mp hnodup
    have hstep : collectElement tree (preceding, tags) child =
        (Function.update preceding child (some tags.length), tags ++ elementTags tree [child]) := by
      cases htag : tree.tagName child <;> simp [collectElement, elementTags, htag]
    rw [List.foldl_cons, hstep]
    obtain ⟨htags, hout, hin⟩ := ih (Function.update preceding child (some tags.length))
      (tags ++ elementTags tree [child]) hnodup
    refine ⟨?_, fun node hnode => ?_, fun before node after h => ?_⟩
    · rw [htags, List.append_assoc, ← elementTags_append]
      rfl
    · obtain ⟨hne, hnode⟩ := not_or.mp (mt List.mem_cons.mpr hnode)
      rw [hout node hnode, Function.update_of_ne hne]
    · cases before with
      | nil =>
        obtain ⟨rfl, rfl⟩ := List.cons_eq_cons.mp h
        rw [hout child hchild, Function.update_self]
        rfl
      | cons first before =>
        obtain ⟨rfl, hrest⟩ := List.cons_eq_cons.mp h
        rw [hin before node after hrest, List.length_append, Nat.add_assoc,
          ← List.length_append, ← elementTags_append]
        rfl

theorem foldl_indexElement (total : Nat) (typeTotals : Text → Nat) (tags : List (ι × Text)) :
    ∀ (offset : Nat) (element ofType : ι → Option (Nat × Nat)) (typeIndexes : Text → Nat),
      (tags.map Prod.fst).Nodup →
      let table := (tags.zipIdx offset).foldl (indexElement total typeTotals)
        (element, ofType, typeIndexes)
      (∀ node ∉ tags.map Prod.fst, table.1 node = element node ∧ table.2.1 node = ofType node) ∧
      ∀ before node tag after, tags = before ++ (node, tag) :: after →
        table.1 node = some (offset + before.length + 1, total) ∧
        table.2.1 node =
          some (typeIndexes tag + before.countP (·.2 == tag) + 1, typeTotals tag) := by
  induction tags with
  | nil =>
    intro offset element ofType typeIndexes _
    refine ⟨fun _ _ => ⟨rfl, rfl⟩, fun before node tag after h => ?_⟩
    cases before <;> cases h
  | cons item tags ih =>
    intro offset element ofType typeIndexes hnodup
    obtain ⟨child, childTag⟩ := item
    obtain ⟨hchild, hnodup⟩ := List.nodup_cons.mp hnodup
    obtain ⟨hout, hin⟩ := ih (offset + 1) (Function.update element child (some (offset + 1, total)))
      (Function.update ofType child (some (typeIndexes childTag + 1, typeTotals childTag)))
      (Function.update typeIndexes childTag (typeIndexes childTag + 1)) hnodup
    refine ⟨fun node hnode => ?_, fun before node tag after h => ?_⟩
    · obtain ⟨hne, hnode⟩ := not_or.mp (mt List.mem_cons.mpr hnode)
      obtain ⟨helement, htype⟩ := hout node hnode
      rw [Function.update_of_ne hne] at helement htype
      exact ⟨helement, htype⟩
    · cases before with
      | nil =>
        obtain ⟨hitem, rfl⟩ := List.cons_eq_cons.mp h
        cases hitem
        obtain ⟨helement, htype⟩ := hout child hchild
        rw [Function.update_self] at helement htype
        exact ⟨helement, htype⟩
      | cons first before =>
        obtain ⟨rfl, hrest⟩ := List.cons_eq_cons.mp h
        obtain ⟨helement, htype⟩ := hin before node tag after hrest
        refine ⟨?_, ?_⟩
        · rw [show offset + ((child, childTag) :: before).length + 1 =
            offset + 1 + before.length + 1 by simp; omega]
          exact helement
        · rw [show typeIndexes tag + ((child, childTag) :: before).countP (·.2 == tag) + 1 =
            Function.update typeIndexes childTag (typeIndexes childTag + 1) tag +
              before.countP (·.2 == tag) + 1 from ?_]
          · exact htype
          · by_cases hsame : tag = childTag
            · subst hsame
              simp
              omega
            · rw [Function.update_of_ne hsame, List.countP_cons_of_neg]
              simpa using fun h => hsame h.symm

/-- What the tables of a parent say about a child. -/
theorem buildStructuralPositions_spec {parent node : ι} (h : tree.parentNode node = some parent) :
    let table := buildStructuralPositions tree parent
    table.elements = tree.childElements parent ∧
      table.precedingElements node = some (tree.elementsBefore node).length ∧
      table.element node = tree.positionAmong node (fun _ => true) ∧
      table.ofType node = tree.positionAmong node (tree.sameType node) := by
  obtain ⟨before, after, hsplit, hnot, hbefore, -⟩ := Tree.exists_split h
  obtain ⟨htags, -, hpreceding⟩ := @foldl_collectElement _ _ tree (tree.childNodes parent)
    (fun _ => none) [] (tree.nodup_childNodes parent)
  rw [List.nil_append] at htags
  have hnodup : ((elementTags tree (tree.childNodes parent)).map Prod.fst).Nodup := by
    rw [elementTags_map_fst]
    exact (tree.nodup_childNodes parent).filter _
  obtain ⟨hout, hin⟩ := foldl_indexElement (elementTags tree (tree.childNodes parent)).length
    (fun tag => (elementTags tree (tree.childNodes parent)).countP (·.2 == tag))
    (elementTags tree (tree.childNodes parent)) 0 (fun _ => none) (fun _ => none) (fun _ => 0) hnodup
  have hlength : ∀ nodes, (elementTags tree nodes).length = (nodes.filter tree.isElement).length :=
    fun nodes => by rw [← elementTags_map_fst, List.length_map]
  refine ⟨?_, ?_, ?_⟩
  · simp only [buildStructuralPositions, htags, elementTags_map_fst]
    rfl
  · simp only [buildStructuralPositions]
    rw [hpreceding before node after hsplit, hbefore, hlength]
    simp
  · simp only [buildStructuralPositions, htags]
    rw [Tree.positionAmong, Tree.positionAmong, h]
    dsimp only
    cases htag : tree.tagName node with
    | none =>
      have hnone : tree.isElement node = false := by
        rw [← Bool.not_eq_true, Tree.isElement_iff_tagName, htag]
        simp
      have hmem : node ∉ (elementTags tree (tree.childNodes parent)).map Prod.fst := by
        rw [elementTags_map_fst, List.mem_filter, hnone]
        simp
      rw [hnone]
      exact hout node hmem
    | some tag =>
      have helement : tree.isElement node = true := Tree.isElement_iff_tagName.mpr ⟨tag, htag⟩
      have hitem : elementTags tree (tree.childNodes parent) = elementTags tree before ++
          (node, Text.toAsciiLowercase tag) :: elementTags tree after := by
        rw [hsplit, elementTags_append]
        simp [elementTags, htag]
      obtain ⟨hposition, htype⟩ := hin _ _ _ _ hitem
      rw [if_pos helement, if_pos helement, hposition, htype, hlength, hlength, hbefore,
        countP_elementTags node htag, countP_elementTags node htag]
      simp [Tree.childElements]

end

end Omoikane.Css
