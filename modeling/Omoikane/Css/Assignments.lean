import Omoikane.Css.Agreement
import Omoikane.Css.Confinement

/-!
# Selectors by assignments

The declarative reading of selectors: a selector matches an element if elements can be assigned to its
compounds, the last one that element, such that each satisfies its compound and neighbours are related
by the combinator between them.  It is for selectors without pseudo-elements whose pseudo-classes are
structural.

The matcher agrees with it (`matchesSelector_iff_assignment`) as long as no compound on the left of `>`
or of a descendant combinator is satisfied by a parent that is no element: the walk upwards goes on to
the document, and tests it like an element.
-/

namespace Omoikane.Css

open Base

/-! ## Positions -/

/-- `An+B` counts the positions `a * n + b`, within 64-bit integers. -/
theorem AnPlusB.matches_iff {formula : AnPlusB} {position : Nat} (hpositive : 0 < position)
    (hlt : position < 2 ^ 63) (hdifference : (position : Int) - formula.b < 2 ^ 63) :
    formula.matches position = true ↔ ∃ n : Nat, (position : Int) = formula.a * n + formula.b := by
  obtain ⟨a, b⟩ := formula
  rw [AnPlusB.matches, if_neg (by omega)]
  dsimp only at hdifference ⊢
  split
  next hzero =>
    subst hzero
    simp
  next hzero =>
    have hshift : ∀ n : Nat, (position : Int) = a * n + b ↔ (position : Int) - b = a * n :=
      fun n => by omega
    simp only [hshift, hdifference, decide_true, Bool.true_and, Bool.and_eq_true, beq_iff_eq,
      decide_eq_true_eq]
    constructor
    · rintro ⟨hmod, hdiv⟩
      refine ⟨(((position : Int) - b).tdiv a).toNat, ?_⟩
      rw [Int.toNat_of_nonneg hdiv, Int.mul_tdiv_cancel' (Int.dvd_of_tmod_eq_zero hmod)]
    · rintro ⟨n, hn⟩
      rw [hn, Int.mul_tmod_right, Int.mul_tdiv_cancel_left _ hzero]
      exact ⟨rfl, Int.natCast_nonneg n⟩

/-! ## Structural selectors -/

/-- A pseudo-class that counts siblings or looks at the parent or the children. -/
def isStructuralPseudo (name : Text) : Bool :=
  match functionalPseudo name with
  | some (function, _) =>
    match pseudoFunctions.lookup (Text.toAsciiLowercase function) with
    | some .nthChild | some .nthLastChild | some .nthOfType | some .nthLastOfType => true
    | _ => false
  | none =>
    match pseudoClassOf name with
    | some .root | some .firstChild | some .lastChild | some .onlyChild | some .firstOfType
    | some .lastOfType | some .onlyOfType | some .empty => true
    | _ => false

/-- There is a combinator between any two compounds, and none before the first one. -/
def wellCombined : List SelectorPart → Bool
  | [] => false
  | part :: parts => part.combinator.isNone && parts.all (·.combinator.isSome)

mutual

/-- A simple selector of the fragment. -/
def SimpleSelector.structural : SimpleSelector → Bool
  | .type _ | .universal | .className _ | .id _ | .attribute .. => true
  | .pseudoClass name => isStructuralPseudo name
  | .customState _ | .pseudoElement _ => false
  | .nthChild _ selectors _ => selectorsStructural selectors
  | .is selectors => selectorsStructural selectors
  | .where selectors => selectorsStructural selectors
  | .not selectors => selectorsStructural selectors
  | .has selectors => relativesStructural selectors

def simplesStructural : List SimpleSelector → Bool
  | [] => true
  | simple :: simples => simple.structural && simplesStructural simples

def partsStructural : List SelectorPart → Bool
  | [] => true
  | .mk _ simples :: parts => simplesStructural simples && partsStructural parts

def selectorsStructural : List Selector → Bool
  | [] => true
  | .mk parts :: selectors =>
    wellCombined parts && partsStructural parts && selectorsStructural selectors

def relativesStructural : List RelativeSelector → Bool
  | [] => true
  | .mk _ _ (.mk parts) :: selectors =>
    wellCombined parts && partsStructural parts && relativesStructural selectors

end

/-- A parsed selector of the fragment. -/
def Selector.structural (selector : Selector) : Bool := selectorsStructural [selector]

/-! ## Assignments -/

section

variable {ι : Type} [DecidableEq ι]

/-- Two elements are related by the combinator between them. -/
def Tree.Joins (tree : Tree ι) (left : ι) : Combinator → ι → Prop
  | .descendant, right => tree.AncestorOf left right
  | .child, right => tree.parentNode right = some left
  | .adjacentSibling, right => tree.Adjacent left right
  | .generalSibling, right => tree.Precedes left right

/-- Elements that satisfy the conditions they are assigned to, and are related by the combinators. -/
def Assigns (tree : Tree ι) (pairs : List (Condition ι × ι)) : Prop :=
  (∀ pair ∈ pairs, tree.isElement pair.2 = true ∧ pair.1.Holds pair.2 none) ∧
    pairs.IsChain fun left right => ∀ combinator, right.1.combinator = some combinator →
      tree.Joins left.2 combinator right.2

section

variable (doc : Document ι)

mutual

/-- A node satisfies a simple selector. -/
def Satisfies : SimpleSelector → ι → Prop
  | .type name, node => ∃ localName, doc.tree.localName node = some localName ∧
      Text.eqIgnoreAsciiCase localName name = true
  | .universal, node => doc.tree.isElement node = true
  | .className name, node => ∃ classes, doc.tree.withAttribute node "class".toList = some classes ∧
      name ∈ Text.splitAsciiWhitespace classes
  | .id name, node => doc.tree.withAttribute node "id".toList = some name
  | .attribute name operator value, node =>
    matchesAttributeSelector doc.tree node name operator value = true
  | .pseudoClass name, node => pseudoClassHolds doc none unvisited node name none = true
  | .customState _, _ => False
  | .pseudoElement _, _ => False
  | .nthChild formula selectors reverse, node => ∃ anPlusB, parseAnPlusB formula = some anPlusB ∧
      ∃ index total, doc.tree.Among (SatisfiesSome selectors) node index total ∧
        anPlusB.matches (if reverse then total - index + 1 else index) = true
  | .is selectors, node => SatisfiesSome selectors node
  | .where selectors, node => SatisfiesSome selectors node
  | .not selectors, node => ¬ SatisfiesSome selectors node
  | .has selectors, node => HasSome selectors node

/-- A node satisfies a compound. -/
def SatisfiesAll : List SimpleSelector → ι → Prop
  | [], _ => True
  | simple :: simples, node => Satisfies simple node ∧ SatisfiesAll simples node

/-- What the compounds of a selector demand. -/
def demands : List SelectorPart → List (Condition ι)
  | [] => []
  | .mk combinator simples :: parts =>
    { combinator, Holds := fun node _ => SatisfiesAll simples node } :: demands parts

/-- Some selector of a list matches an element: its last compound can be assigned to it. -/
def SatisfiesSome : List Selector → ι → Prop
  | [], _ => False
  | .mk parts :: selectors, node =>
    (∃ pairs, pairs.map Prod.fst = demands parts ∧ Assigns doc.tree pairs ∧
      pairs.getLast?.map Prod.snd = some node) ∨ SatisfiesSome selectors node

/-- Some relative selector has an assignment that starts from the anchor. -/
def HasSome : List RelativeSelector → ι → Prop
  | [], _ => False
  | .mk _ combinator (.mk parts) :: selectors, anchor =>
    (∃ first pairs, pairs.map Prod.fst = demands parts ∧ Assigns doc.tree pairs ∧
      pairs.head?.map Prod.snd = some first ∧ doc.tree.Joins anchor combinator first) ∨
    HasSome selectors anchor

end

/-- A selector matches an element, by an assignment. -/
def Selector.AssignedTo (selector : Selector) (node : ι) : Prop := SatisfiesSome doc [selector] node

end

/-! ## Walks and assignments -/

section

variable {tree : Tree ι} {conds : List (Condition ι)} {node other : ι} {combinator : Combinator}

omit [DecidableEq ι] in
/-- A combinator leads, from right to left, to the elements that it relates. -/
theorem left_iff_joins : tree.isElement other = true →
    (tree.Left (AtScopeRoot none false) node combinator other ↔ tree.Joins other combinator node) := by
  intro helement
  cases combinator with
  | descendant => exact ⟨Reaches.ancestor, reaches_of_ancestor⟩
  | child => exact Iff.rfl
  | adjacentSibling => exact and_iff_right helement
  | generalSibling => exact and_iff_right helement

omit [DecidableEq ι] in
theorem right_iff_joins :
    tree.Right node combinator other ↔ tree.isElement other = true ∧ tree.Joins node combinator other := by
  cases combinator <;> exact Iff.rfl

omit [DecidableEq ι] in
theorem assigns_concat {pairs : List (Condition ι × ι)} {cond : Condition ι} :
    Assigns tree (pairs ++ [(cond, node)]) ↔ Assigns tree pairs ∧
      (tree.isElement node = true ∧ cond.Holds node none) ∧
      ∀ left, pairs.getLast? = some left → ∀ combinator, cond.combinator = some combinator →
        tree.Joins left.2 combinator node := by
  simp only [Assigns, List.isChain_append, List.mem_append, List.mem_singleton, or_imp, forall_and,
    forall_eq, List.isChain_singleton, List.head?_cons, Option.mem_def, Option.some.injEq, true_and,
    forall_eq']
  tauto

omit [DecidableEq ι] in
/-- The last condition of an assignment. -/
theorem exists_assigns_iff {index : Nat} {cond : Condition ι} (hcond : conds[index]? = some cond) :
    (∃ pairs, pairs.map Prod.fst = conds.take (index + 1) ∧ Assigns tree pairs ∧
      pairs.getLast?.map Prod.snd = some node) ↔
    (tree.isElement node = true ∧ cond.Holds node none) ∧
      ∃ front, front.map Prod.fst = conds.take index ∧ Assigns tree front ∧
        ∀ left, front.getLast? = some left → ∀ combinator, cond.combinator = some combinator →
          tree.Joins left.2 combinator node := by
  rw [List.take_add_one, hcond, Option.toList_some]
  constructor
  · rintro ⟨pairs, hpairs, hassigns, hlast⟩
    obtain ⟨front, last, rfl, hfront, hsingle⟩ := List.map_eq_append_iff.mp hpairs
    obtain ⟨⟨found, place⟩, rfl, rfl⟩ := List.map_eq_singleton_iff.mp hsingle
    rw [List.getLast?_concat, Option.map_some, Option.some.injEq] at hlast
    subst hlast
    obtain ⟨hfrontAssigns, hholds, hjoins⟩ := assigns_concat.mp hassigns
    exact ⟨hholds, front, hfront, hfrontAssigns, hjoins⟩
  · rintro ⟨hholds, front, hfront, hassigns, hjoins⟩
    exact ⟨front ++ [(cond, node)], by simp [hfront], assigns_concat.mpr ⟨hassigns, hholds, hjoins⟩,
      by simp⟩

/-- A condition that only elements satisfy. -/
def Condition.onElements (tree : Tree ι) (cond : Condition ι) : Condition ι where
  combinator := cond.combinator
  Holds := fun node pseudo => tree.isElement node = true ∧ cond.Holds node pseudo

omit [DecidableEq ι] in
/-- Conditions on elements that hold from right to left hold by an assignment. -/
theorem partsHold_iff_assigns (hfirst : ∀ cond, conds[0]? = some cond → cond.combinator = none)
    (hrest : ∀ index cond, conds[index + 1]? = some cond →
      ∃ combinator, cond.combinator = some combinator) (index : Nat) :
    ∀ node, index < conds.length →
      (PartsHold tree (AtScopeRoot none false) (conds.map (Condition.onElements tree)) index node none ↔
        ∃ pairs, pairs.map Prod.fst = conds.take (index + 1) ∧ Assigns tree pairs ∧
          pairs.getLast?.map Prod.snd = some node) := by
  induction index with
  | zero =>
    intro node hlt
    have hcond := List.getElem?_eq_getElem hlt
    rw [exists_assigns_iff hcond, PartsHold, List.getElem?_map, hcond]
    constructor
    · rintro ⟨_, ⟨⟩, hholds, -⟩
      exact ⟨hholds, [], rfl, by simp [Assigns], fun _ heq => by cases heq⟩
    · rintro ⟨hholds, -⟩
      have hnone : conds[0].combinator = none := hfirst _ hcond
      exact ⟨_, rfl, hholds, hnone⟩
  | succ index ih =>
    intro node hlt
    have hcond := List.getElem?_eq_getElem hlt
    obtain ⟨combinator, hcombinator⟩ := hrest index _ hcond
    rw [exists_assigns_iff hcond, PartsHold, List.getElem?_map, hcond]
    constructor
    · rintro ⟨_, ⟨⟩, hholds, hleft⟩
      refine ⟨hholds, ?_⟩
      obtain ⟨-, other, hother, hparts⟩ := hleft combinator hcombinator
      obtain ⟨front, hfront, hassigns, hlast⟩ := (ih other (by omega)).mp hparts
      obtain ⟨left, hsome, rfl⟩ := Option.map_eq_some_iff.mp hlast
      refine ⟨front, hfront, hassigns, fun left' hleft' combinator' hcombinator' => ?_⟩
      cases hsome.symm.trans hleft'
      cases hcombinator.symm.trans hcombinator'
      exact (left_iff_joins (hassigns.1 left (List.mem_of_getLast? hsome)).1).mp hother
    · rintro ⟨hholds, front, hfront, hassigns, hjoins⟩
      refine ⟨_, rfl, hholds, fun combinator' hcombinator' => ⟨(fun h => by cases h.2), ?_⟩⟩
      have hne : front ≠ [] := by
        rintro rfl
        have := congrArg List.length hfront
        simp at this
        omega
      have hlast := List.getLast?_eq_some_getLast hne
      refine ⟨(front.getLast hne).2, ?_, (ih _ (by omega)).mpr
        ⟨front, hfront, hassigns, by rw [hlast, Option.map_some]⟩⟩
      exact (left_iff_joins (hassigns.1 _ (List.getLast_mem hne)).1).mpr
        (hjoins _ hlast combinator' hcombinator')

omit [DecidableEq ι] in
theorem assigns_cons {pairs : List (Condition ι × ι)} {cond : Condition ι} :
    Assigns tree ((cond, node) :: pairs) ↔ Assigns tree pairs ∧
      (tree.isElement node = true ∧ cond.Holds node none) ∧
      ∀ next, pairs.head? = some next → ∀ combinator, next.1.combinator = some combinator →
        tree.Joins node combinator next.2 := by
  cases pairs with
  | nil => simp [Assigns]
  | cons next pairs =>
    simp only [Assigns, List.mem_cons, forall_eq_or_imp, List.isChain_cons_cons, List.head?_cons,
      Option.some.injEq, forall_eq']
    tauto

omit [DecidableEq ι] in
/-- Conditions on elements that hold from left to right hold by an assignment. -/
theorem relativePartsHold_iff_assigns
    (hrest : ∀ cond ∈ conds.tail, ∃ combinator, cond.combinator = some combinator) :
    ∀ node, RelativePartsHold tree (conds.map (Condition.onElements tree)) node ↔
      ∃ pairs, pairs.map Prod.fst = conds ∧ Assigns tree pairs ∧
        pairs.head?.map Prod.snd = some node := by
  induction conds with
  | nil =>
    intro node
    simp [RelativePartsHold]
  | cons cond conds ih =>
    intro node
    cases conds with
    | nil =>
      rw [List.map_singleton, RelativePartsHold]
      constructor
      · intro hholds
        exact ⟨[(cond, node)], rfl, assigns_cons.mpr ⟨by simp [Assigns], hholds, fun _ heq => by cases heq⟩,
          rfl⟩
      · rintro ⟨pairs, hpairs, hassigns, hhead⟩
        obtain ⟨⟨found, place⟩, rfl, rfl⟩ := List.map_eq_singleton_iff.mp hpairs
        cases hhead
        exact (assigns_cons.mp hassigns).2.1
    | cons next rest =>
      obtain ⟨combinator, hcombinator⟩ := hrest next List.mem_cons_self
      have ih := ih fun cond hcond => hrest cond (List.mem_cons_of_mem _ hcond)
      rw [List.map_cons, List.map_cons, RelativePartsHold, ← List.map_cons]
      constructor
      · rintro ⟨hholds, combinator, hsome, other, hright, hparts⟩
        obtain ⟨pairs, hpairs, hassigns, hhead⟩ := (ih other).mp hparts
        refine ⟨(cond, node) :: pairs, by rw [List.map_cons, hpairs],
          assigns_cons.mpr ⟨hassigns, hholds, ?_⟩, rfl⟩
        intro next' hnext' combinator' hcombinator'
        obtain ⟨tail, rfl⟩ := List.head?_eq_some_iff.mp hnext'
        obtain ⟨rfl, -⟩ := List.cons_eq_cons.mp hpairs
        cases hhead
        cases hsome.symm.trans hcombinator'
        exact (right_iff_joins.mp hright).2
      · rintro ⟨pairs, hpairs, hassigns, hhead⟩
        obtain ⟨⟨found, place⟩, behind, rfl, rfl, hbehind⟩ := List.map_eq_cons_iff.mp hpairs
        cases hhead
        obtain ⟨hrestAssigns, hholds, hjoins⟩ := assigns_cons.mp hassigns
        obtain ⟨⟨found, other⟩, last, rfl, rfl, rfl⟩ := List.map_eq_cons_iff.mp hbehind
        refine ⟨hholds, combinator, hcombinator, other, right_iff_joins.mpr
          ⟨(hrestAssigns.1 _ List.mem_cons_self).1, hjoins _ rfl combinator hcombinator⟩,
          (ih other).mpr ⟨_, rfl, hrestAssigns, rfl⟩⟩

end

/-! ## The matcher -/

/-- The compounds on the left of `>` and of descendant combinators. -/
def upperCompounds : List SelectorPart → List (List SimpleSelector)
  | .mk _ simples :: next :: parts =>
    (match next.combinator with
      | some .descendant | some .child => [simples]
      | _ => []) ++ upperCompounds (next :: parts)
  | _ => []

mutual

/-- The compounds that are looked for among ancestors, in the lists of a simple selector. -/
def SimpleSelector.uppers : SimpleSelector → List (List SimpleSelector)
  | .nthChild _ selectors _ => uppersOfSelectors selectors
  | .is selectors => uppersOfSelectors selectors
  | .where selectors => uppersOfSelectors selectors
  | .not selectors => uppersOfSelectors selectors
  | .has selectors => uppersOfRelatives selectors
  | _ => []

def uppersOfSimples : List SimpleSelector → List (List SimpleSelector)
  | [] => []
  | simple :: simples => simple.uppers ++ uppersOfSimples simples

def uppersOfParts : List SelectorPart → List (List SimpleSelector)
  | [] => []
  | .mk _ simples :: parts => uppersOfSimples simples ++ uppersOfParts parts

def uppersOfSelectors : List Selector → List (List SimpleSelector)
  | [] => []
  | .mk parts :: selectors =>
    upperCompounds parts ++ uppersOfParts parts ++ uppersOfSelectors selectors

def uppersOfRelatives : List RelativeSelector → List (List SimpleSelector)
  | [] => []
  | .mk _ _ (.mk parts) :: selectors => uppersOfParts parts ++ uppersOfRelatives selectors

end

section

variable {doc : Document ι}

/-- A node that is no element, but the parent of one: a document. -/
def Tree.IsContainer (tree : Tree ι) (node : ι) : Prop :=
  tree.isElement node = false ∧ tree.childNodes node ≠ []

/-- Compounds that no container satisfies, in one way or the other. -/
def NoContainer (doc : Document ι) (uppers : List (List SimpleSelector)) : Prop :=
  ∀ simples ∈ uppers, ∀ node, doc.tree.IsContainer node →
    ¬ CompoundHolds doc none false simples unvisited node none none ∨ ¬ SatisfiesAll doc simples node

theorem NoContainer.mono {uppers uppers' : List (List SimpleSelector)} (h : NoContainer doc uppers)
    (hsub : uppers' ⊆ uppers) : NoContainer doc uppers' :=
  fun simples hmem => h simples (hsub hmem)

theorem pseudoElementName_structural {simple : SimpleSelector} (h : simple.structural = true) :
    simple.pseudoElementName = none := by
  cases simple with
  | pseudoClass name =>
    have hlegacy : isLegacyPseudoElement name = false := by
      rw [← Bool.not_eq_true]
      intro hname
      simp only [isLegacyPseudoElement, Bool.or_eq_true, beq_iff_eq] at hname
      rcases hname with ((rfl | rfl) | rfl) | rfl <;> exact absurd h (by decide)
    rw [SimpleSelector.pseudoElementName, hlegacy]
    rfl
  | pseudoElement name => cases h
  | _ => rfl

theorem names_structural : ∀ {simples : List SimpleSelector}, simplesStructural simples = true →
    simples.filterMap (·.pseudoElementName) = []
  | [], _ => rfl
  | simple :: simples, h => by
    rw [simplesStructural, Bool.and_eq_true] at h
    rw [List.filterMap_cons, pseudoElementName_structural h.1, names_structural h.2]

theorem namesOfParts_structural : ∀ {parts : List SelectorPart}, partsStructural parts = true →
    namesOfParts parts = []
  | [], _ => rfl
  | .mk combinator simples :: parts, h => by
    rw [partsStructural, Bool.and_eq_true] at h
    rw [namesOfParts_cons, names_structural h.1, namesOfParts_structural h.2, List.append_nil]

/-- A structural selector has no pseudo-element. -/
theorem selectorPseudoElement_structural (identifier : Text → Option Text) {parts : List SelectorPart}
    (h : partsStructural parts = true) : selectorPseudoElement identifier (.mk parts) = none := by
  have hnames := namesOfParts_structural h
  rw [namesOfParts] at hnames
  rw [selectorPseudoElement, Selector.parts, hnames]
  rfl

theorem wellCombined_iff {parts : List SelectorPart} : wellCombined parts = true ↔
    ∃ part rest, parts = part :: rest ∧ part.combinator = none ∧
      ∀ other ∈ rest, ∃ combinator, other.combinator = some combinator := by
  cases parts with
  | nil => simp [wellCombined]
  | cons part rest => simp [wellCombined, Option.isSome_iff_exists]

theorem demands_eq_map (doc : Document ι) : ∀ parts : List SelectorPart, demands doc parts =
    parts.map fun part => { combinator := part.combinator,
                            Holds := fun node _ => SatisfiesAll doc part.simples node } := by
  intro parts
  induction parts with
  | nil => rfl
  | cons part parts ih =>
    cases part
    rw [demands, List.map_cons, ih]
    rfl

/-- A compound on the left of a compound with a combinator upwards. -/
theorem mem_upperCompounds : ∀ {parts : List SelectorPart} {index : Nat} {part next : SelectorPart},
    parts[index]? = some part → parts[index + 1]? = some next →
      next.combinator = some .descendant ∨ next.combinator = some .child →
        part.simples ∈ upperCompounds parts
  | .mk combinator simples :: follower :: parts, 0, part, next, hpart, hnext, hup => by
    cases hpart
    cases hnext
    rw [upperCompounds]
    refine List.mem_append_left _ ?_
    rcases hup with hup | hup <;> simp [hup, SelectorPart.simples]
  | .mk combinator simples :: follower :: parts, index + 1, part, next, hpart, hnext, hup => by
    rw [upperCompounds]
    exact List.mem_append_right _ (@mem_upperCompounds (follower :: parts) index part next hpart hnext hup)

omit [DecidableEq ι] in
theorem Tree.AncestorOf.childNodes_ne {tree : Tree ι} {node other : ι} (h : tree.AncestorOf other node) :
    tree.childNodes other ≠ [] := by
  obtain ⟨child, hparent, -⟩ := Relation.TransGen.head'_iff.mp h
  exact List.ne_nil_of_mem ((tree.mem_childNodes _ _).mpr hparent)

theorem length_demands (parts : List SelectorPart) : (demands doc parts).length = parts.length := by
  rw [demands_eq_map, List.length_map]

theorem getElem?_demands {parts : List SelectorPart} {index : Nat} {cond : Condition ι}
    (h : (demands doc parts)[index]? = some cond) :
    ∃ part, parts[index]? = some part ∧ cond.combinator = part.combinator := by
  rw [demands_eq_map, List.getElem?_map, Option.map_eq_some_iff] at h
  obtain ⟨part, hpart, rfl⟩ := h
  exact ⟨part, hpart, rfl⟩

/-- Where the compounds of a selector are tried: on elements, and those on the left of a combinator
upwards on containers as well. -/
def TriedOn (doc : Document ι) (parts : List SelectorPart) (index : Nat) (node : ι) : Prop :=
  doc.tree.isElement node = true ∨ doc.tree.IsContainer node ∧
    ∃ part, parts[index]? = some part ∧ part.simples ∈ upperCompounds parts

theorem TriedOn.left {parts : List SelectorPart} {index : Nat} {cond : Condition ι} {node other : ι}
    {combinator : Combinator} {stops : ι → Prop}
    (hcond : (conditions doc none false parts unvisited)[index + 1]? = some cond)
    (hcombinator : cond.combinator = some combinator) (h : doc.tree.Left stops node combinator other) :
    TriedOn doc parts index other := by
  rw [conditions_eq_map, List.getElem?_map, Option.map_eq_some_iff] at hcond
  obtain ⟨next, hnext, rfl⟩ := hcond
  obtain ⟨hlt, -⟩ := List.getElem?_eq_some_iff.mp hnext
  have hpart := List.getElem?_eq_getElem (Nat.lt_of_succ_lt hlt)
  cases helement : doc.tree.isElement other with
  | true => exact .inl helement
  | false =>
    have hup : next.combinator = some .descendant ∨ next.combinator = some .child →
        ∃ part, parts[index]? = some part ∧ part.simples ∈ upperCompounds parts :=
      fun hup => ⟨_, hpart, mem_upperCompounds hpart hnext hup⟩
    cases combinator with
    | descendant =>
      exact .inr ⟨⟨helement, (Reaches.ancestor h).childNodes_ne⟩, hup (.inl hcombinator)⟩
    | child =>
      exact .inr ⟨⟨helement, Tree.AncestorOf.childNodes_ne (.single h)⟩, hup (.inr hcombinator)⟩
    | adjacentSibling => exact absurd h.1 (by simp [helement])
    | generalSibling => exact absurd h.1 (by simp [helement])

/-- A selector matches by an assignment, if that is so of its compounds. -/
theorem matches_iff_assigns {parts : List SelectorPart} (hcombined : wellCombined parts = true)
    (hstructural : partsStructural parts = true) (hcontainer : NoContainer doc (upperCompounds parts))
    (hparts : ∀ part ∈ parts, ∀ node pseudo,
      (CompoundHolds doc none false part.simples unvisited node none pseudo ↔
        SatisfiesAll doc part.simples node)) (node : ι) :
    Matches doc none false (.mk parts) unvisited node none ↔
      ∃ pairs, pairs.map Prod.fst = demands doc parts ∧ Assigns doc.tree pairs ∧
        pairs.getLast?.map Prod.snd = some node := by
  obtain ⟨first, rest, hsplit, hfirst, hrest⟩ := wellCombined_iff.mp hcombined
  have hlength : parts.length - 1 + 1 = parts.length := by simp [hsplit]
  rw [Matches, selectorPseudoElement_structural _ hstructural]
  cases helement : doc.tree.isElement node with
  | false =>
    refine ⟨fun h => absurd h.2.1 Bool.false_ne_true, ?_⟩
    rintro ⟨pairs, -, hassigns, hlast⟩
    obtain ⟨last, hsome, rfl⟩ := Option.map_eq_some_iff.mp hlast
    have := (hassigns.1 last (List.mem_of_getLast? hsome)).1
    rw [helement] at this
    cases this
  | true =>
    have hagree : ∀ index node, TriedOn doc parts index node →
        AgreeAt (conditions doc none false parts unvisited)
          ((demands doc parts).map (Condition.onElements doc.tree)) index node := by
      intro index node htried
      rw [conditions_eq_map, demands_eq_map, List.map_map]
      cases hpart : parts[index]? with
      | none => simp [AgreeAt, hpart]
      | some part =>
        simp only [AgreeAt, List.getElem?_map, hpart, Option.map_some]
        refine ⟨rfl, ?_⟩
        rintro _ _ ⟨⟩ ⟨⟩ pseudo
        have hiff := hparts part (List.mem_of_getElem? hpart) node
        rcases htried with htried | ⟨htried, found, hfound, hmem⟩
        · exact (hiff pseudo).trans (and_iff_right htried).symm
        · cases hpart.symm.trans hfound
          have hnot : ¬ SatisfiesAll doc part.simples node :=
            (hcontainer part.simples hmem node htried).elim (mt (hiff none).mpr) id
          refine ⟨fun h => absurd ((hiff pseudo).mp h) hnot, fun h => absurd h.2 hnot⟩
    have hwalk : PartsHold doc.tree (AtScopeRoot none false)
          (conditions doc none false parts unvisited) (parts.length - 1) node none ↔
        PartsHold doc.tree (AtScopeRoot none false)
          ((demands doc parts).map (Condition.onElements doc.tree)) (parts.length - 1) node none :=
      partsHold_congr (TriedOn doc parts)
        (fun _ _ _ _ _ _ hcond hsome hleft => TriedOn.left hcond hsome hleft) hagree (.inl helement)
        none
    have hnone : ∀ cond, (demands doc parts)[0]? = some cond → cond.combinator = none := by
      intro cond hcond
      obtain ⟨part, hpart, hcombinator⟩ := getElem?_demands hcond
      rw [hsplit] at hpart
      cases hpart
      rw [hcombinator, hfirst]
    have hsome : ∀ index cond, (demands doc parts)[index + 1]? = some cond →
        ∃ combinator, cond.combinator = some combinator := by
      intro index cond hcond
      obtain ⟨part, hpart, hcombinator⟩ := getElem?_demands hcond
      rw [hsplit] at hpart
      rw [hcombinator]
      exact hrest part (List.mem_of_getElem? hpart)
    rw [hwalk, partsHold_iff_assigns hnone hsome _ node (by rw [length_demands]; omega), hlength,
      ← @length_demands _ _ doc parts,
      List.take_length]
    simp [hsplit]

theorem relativeHolds_iff_assigns {address : Nat} {combinator : Combinator}
    {parts : List SelectorPart} (hcombined : wellCombined parts = true)
    (hparts : ∀ part ∈ parts, ∀ node pseudo,
      (CompoundHolds doc none false part.simples unvisited node none pseudo ↔
        SatisfiesAll doc part.simples node)) (anchor : ι) :
    RelativeHolds doc none false (.mk address combinator (.mk parts)) unvisited anchor ↔
      ∃ first pairs, pairs.map Prod.fst = demands doc parts ∧ Assigns doc.tree pairs ∧
        pairs.head?.map Prod.snd = some first ∧ doc.tree.Joins anchor combinator first := by
  obtain ⟨first, rest, hsplit, -, hrest⟩ := wellCombined_iff.mp hcombined
  have hagree : List.Forall₂ (fun cond cond' : Condition ι => cond.combinator = cond'.combinator ∧
      ∀ node, doc.tree.isElement node = true → (cond.Holds node none ↔ cond'.Holds node none))
      (conditions doc none false parts unvisited)
      ((demands doc parts).map (Condition.onElements doc.tree)) := by
    rw [conditions_eq_map, demands_eq_map, List.map_map, List.forall₂_map_left_iff,
      List.forall₂_map_right_iff, List.forall₂_same]
    exact fun part hpart => ⟨rfl, fun node helement =>
      (hparts part hpart node none).trans (and_iff_right helement).symm⟩
  have hsome : ∀ cond ∈ (demands doc parts).tail, ∃ combinator, cond.combinator = some combinator := by
    rw [demands_eq_map, hsplit, List.map_cons, List.tail_cons]
    intro cond hcond
    obtain ⟨part, hpart, rfl⟩ := List.mem_map.mp hcond
    exact hrest part hpart
  have hwalk : ∀ other, doc.tree.isElement other = true →
      (RelativePartsHold doc.tree (conditions doc none false parts unvisited) other ↔
        ∃ pairs, pairs.map Prod.fst = demands doc parts ∧ Assigns doc.tree pairs ∧
          pairs.head?.map Prod.snd = some other) := fun other helement =>
    (relativePartsHold_congr (fun _ _ _ _ hright => (right_iff_joins.mp hright).1) hagree other
      helement).trans (relativePartsHold_iff_assigns hsome other)
  rw [RelativeHolds]
  constructor
  · rintro ⟨other, hright, hholds⟩
    obtain ⟨helement, hjoins⟩ := right_iff_joins.mp hright
    obtain ⟨pairs, hpairs, hassigns, hhead⟩ := (hwalk other helement).mp hholds
    exact ⟨other, pairs, hpairs, hassigns, hhead, hjoins⟩
  · rintro ⟨other, pairs, hpairs, hassigns, hhead, hjoins⟩
    have helement : doc.tree.isElement other = true := by
      obtain ⟨pair, hsome, rfl⟩ := Option.map_eq_some_iff.mp hhead
      exact (hassigns.1 pair (List.mem_of_head? hsome)).1
    exact ⟨other, right_iff_joins.mpr ⟨helement, hjoins⟩,
      (hwalk other helement).mpr ⟨pairs, hpairs, hassigns, hhead⟩⟩

mutual

/-- The matcher's reading of a selector is the declarative one, where no container is in the way. -/
theorem simpleHolds_iff_satisfies : ∀ {simple : SimpleSelector}, simple.structural = true →
    NoContainer doc simple.uppers → ∀ node,
      (SimpleHolds doc none false simple unvisited node none ↔ Satisfies doc simple node)
  | .type _, _, _, _ | .universal, _, _, _ | .className _, _, _, _ | .id _, _, _, _
  | .attribute .., _, _, _ | .pseudoClass _, _, _, _ => Iff.rfl
  | .nthChild formula selectors reverse, hstructural, hcontainer, node => by
    have hselectors : (fun other => SomeMatches doc none false selectors unvisited other none) =
        SatisfiesSome doc selectors :=
      funext fun other => propext (someMatches_iff_satisfies hstructural hcontainer other)
    rw [SimpleHolds, Satisfies, hselectors]
  | .is selectors, hstructural, hcontainer, node => by
    rw [SimpleHolds, Satisfies]
    exact someMatches_iff_satisfies hstructural hcontainer node
  | .where selectors, hstructural, hcontainer, node => by
    rw [SimpleHolds, Satisfies]
    exact someMatches_iff_satisfies hstructural hcontainer node
  | .not selectors, hstructural, hcontainer, node => by
    rw [SimpleHolds, Satisfies]
    exact not_congr (someMatches_iff_satisfies hstructural hcontainer node)
  | .has selectors, hstructural, hcontainer, node => by
    rw [SimpleHolds, Satisfies]
    exact someRelative_iff_has hstructural hcontainer node

theorem compoundHolds_iff_satisfies : ∀ {simples : List SimpleSelector},
    simplesStructural simples = true → NoContainer doc (uppersOfSimples simples) → ∀ node pseudo,
      (CompoundHolds doc none false simples unvisited node none pseudo ↔
        SatisfiesAll doc simples node)
  | [], _, _, _, _ => Iff.rfl
  | simple :: simples, hstructural, hcontainer, node, pseudo => by
    rw [simplesStructural, Bool.and_eq_true] at hstructural
    rw [CompoundHolds, SatisfiesAll, pseudoElementName_structural hstructural.1]
    exact and_congr
      (simpleHolds_iff_satisfies hstructural.1
        (hcontainer.mono (List.subset_append_left ..)) node)
      (compoundHolds_iff_satisfies hstructural.2
        (hcontainer.mono (List.subset_append_right ..)) node pseudo)

theorem parts_iff_satisfies : ∀ {parts : List SelectorPart}, partsStructural parts = true →
    NoContainer doc (uppersOfParts parts) → ∀ part ∈ parts, ∀ node pseudo,
      (CompoundHolds doc none false part.simples unvisited node none pseudo ↔
        SatisfiesAll doc part.simples node)
  | .mk combinator simples :: parts, hstructural, hcontainer, part, hpart => by
    rw [partsStructural, Bool.and_eq_true] at hstructural
    rcases List.mem_cons.mp hpart with rfl | hpart
    · exact compoundHolds_iff_satisfies hstructural.1
        (hcontainer.mono (List.subset_append_left ..))
    · exact parts_iff_satisfies hstructural.2
        (hcontainer.mono (List.subset_append_right ..)) part hpart

theorem someMatches_iff_satisfies : ∀ {selectors : List Selector},
    selectorsStructural selectors = true → NoContainer doc (uppersOfSelectors selectors) → ∀ node,
      (SomeMatches doc none false selectors unvisited node none ↔ SatisfiesSome doc selectors node)
  | [], _, _, _ => Iff.rfl
  | .mk parts :: selectors, hstructural, hcontainer, node => by
    rw [selectorsStructural, Bool.and_eq_true, Bool.and_eq_true] at hstructural
    have hfront := hcontainer.mono (List.subset_append_left ..)
    rw [SomeMatches, SatisfiesSome]
    exact or_congr
      (matches_iff_assigns hstructural.1.1 hstructural.1.2
        (hfront.mono (List.subset_append_left ..))
        (parts_iff_satisfies hstructural.1.2 (hfront.mono (List.subset_append_right ..))) node)
      (someMatches_iff_satisfies hstructural.2
        (hcontainer.mono (List.subset_append_right ..)) node)

theorem someRelative_iff_has : ∀ {selectors : List RelativeSelector},
    relativesStructural selectors = true → NoContainer doc (uppersOfRelatives selectors) → ∀ node,
      (SomeRelative doc none false selectors unvisited node ↔ HasSome doc selectors node)
  | [], _, _, _ => Iff.rfl
  | .mk _ combinator (.mk parts) :: selectors, hstructural, hcontainer, node => by
    rw [relativesStructural, Bool.and_eq_true, Bool.and_eq_true] at hstructural
    rw [SomeRelative, HasSome]
    exact or_congr
      (relativeHolds_iff_assigns hstructural.1.1
        (parts_iff_satisfies hstructural.1.2 (hcontainer.mono (List.subset_append_left ..))) node)
      (someRelative_iff_has hstructural.2 (hcontainer.mono (List.subset_append_right ..)) node)

end

omit [DecidableEq ι] in
theorem part_of_mem_upperCompounds : ∀ {parts : List SelectorPart} {simples : List SimpleSelector},
    simples ∈ upperCompounds parts → ∃ part ∈ parts, part.simples = simples
  | .mk combinator first :: next :: parts, simples, h => by
    rw [upperCompounds, List.mem_append] at h
    rcases h with h | h
    · refine ⟨_, List.mem_cons_self, ?_⟩
      split at h <;> simp_all [SelectorPart.simples]
    · obtain ⟨part, hpart, hsimples⟩ := part_of_mem_upperCompounds h
      exact ⟨part, List.mem_cons_of_mem _ hpart, hsimples⟩

mutual

/-- That is so of the compounds that are looked for among ancestors, too. -/
theorem SimpleSelector.uppers_iff_satisfies : ∀ {simple : SimpleSelector}, simple.structural = true →
    NoContainer doc simple.uppers → ∀ simples ∈ simple.uppers, ∀ node pseudo,
      (CompoundHolds doc none false simples unvisited node none pseudo ↔
        SatisfiesAll doc simples node)
  | .nthChild _ selectors _, hstructural, hcontainer, _, hmem =>
    uppersOfSelectors_iff hstructural hcontainer _ hmem
  | .is selectors, hstructural, hcontainer, _, hmem =>
    uppersOfSelectors_iff hstructural hcontainer _ hmem
  | .where selectors, hstructural, hcontainer, _, hmem =>
    uppersOfSelectors_iff hstructural hcontainer _ hmem
  | .not selectors, hstructural, hcontainer, _, hmem =>
    uppersOfSelectors_iff hstructural hcontainer _ hmem
  | .has selectors, hstructural, hcontainer, _, hmem =>
    uppersOfRelatives_iff hstructural hcontainer _ hmem

theorem uppersOfSimples_iff : ∀ {compound : List SimpleSelector}, simplesStructural compound = true →
    NoContainer doc (uppersOfSimples compound) → ∀ simples ∈ uppersOfSimples compound,
      ∀ node pseudo, (CompoundHolds doc none false simples unvisited node none pseudo ↔
        SatisfiesAll doc simples node)
  | simple :: compound, hstructural, hcontainer, simples, hmem => by
    rw [simplesStructural, Bool.and_eq_true] at hstructural
    rcases List.mem_append.mp hmem with hmem | hmem
    · exact SimpleSelector.uppers_iff_satisfies hstructural.1
        (hcontainer.mono (List.subset_append_left ..)) simples hmem
    · exact uppersOfSimples_iff hstructural.2
        (hcontainer.mono (List.subset_append_right ..)) simples hmem

theorem uppersOfParts_iff : ∀ {parts : List SelectorPart}, partsStructural parts = true →
    NoContainer doc (uppersOfParts parts) → ∀ simples ∈ uppersOfParts parts, ∀ node pseudo,
      (CompoundHolds doc none false simples unvisited node none pseudo ↔
        SatisfiesAll doc simples node)
  | .mk _ compound :: parts, hstructural, hcontainer, simples, hmem => by
    rw [partsStructural, Bool.and_eq_true] at hstructural
    rcases List.mem_append.mp hmem with hmem | hmem
    · exact uppersOfSimples_iff hstructural.1
        (hcontainer.mono (List.subset_append_left ..)) simples hmem
    · exact uppersOfParts_iff hstructural.2
        (hcontainer.mono (List.subset_append_right ..)) simples hmem

theorem uppersOfSelectors_iff : ∀ {selectors : List Selector}, selectorsStructural selectors = true →
    NoContainer doc (uppersOfSelectors selectors) → ∀ simples ∈ uppersOfSelectors selectors,
      ∀ node pseudo, (CompoundHolds doc none false simples unvisited node none pseudo ↔
        SatisfiesAll doc simples node)
  | .mk parts :: selectors, hstructural, hcontainer, simples, hmem => by
    rw [selectorsStructural, Bool.and_eq_true, Bool.and_eq_true] at hstructural
    have hparts := (hcontainer.mono (List.subset_append_left ..)).mono (List.subset_append_right ..)
    rcases List.mem_append.mp hmem with hmem | hmem
    · rcases List.mem_append.mp hmem with hmem | hmem
      · obtain ⟨part, hpart, rfl⟩ := part_of_mem_upperCompounds hmem
        exact parts_iff_satisfies hstructural.1.2 hparts part hpart
      · exact uppersOfParts_iff hstructural.1.2 hparts simples hmem
    · exact uppersOfSelectors_iff hstructural.2
        (hcontainer.mono (List.subset_append_right ..)) simples hmem

theorem uppersOfRelatives_iff : ∀ {selectors : List RelativeSelector},
    relativesStructural selectors = true → NoContainer doc (uppersOfRelatives selectors) →
      ∀ simples ∈ uppersOfRelatives selectors, ∀ node pseudo,
        (CompoundHolds doc none false simples unvisited node none pseudo ↔
          SatisfiesAll doc simples node)
  | .mk _ _ (.mk parts) :: selectors, hstructural, hcontainer, simples, hmem => by
    rw [relativesStructural, Bool.and_eq_true, Bool.and_eq_true] at hstructural
    rcases List.mem_append.mp hmem with hmem | hmem
    · exact uppersOfParts_iff hstructural.1.2
        (hcontainer.mono (List.subset_append_left ..)) simples hmem
    · exact uppersOfRelatives_iff hstructural.2
        (hcontainer.mono (List.subset_append_right ..)) simples hmem

end

/-! ## Containers -/

/-- A simple selector that only elements satisfy. -/
def SimpleSelector.elementOnly : SimpleSelector → Bool
  | .type _ | .universal | .className _ | .id _ | .attribute .. | .is _ | .where _ | .nthChild .. =>
    true
  | _ => false

theorem SatisfiesSome.isElement : ∀ {selectors : List Selector} {node : ι},
    SatisfiesSome doc selectors node → doc.tree.isElement node = true
  | .mk _ :: _, _, .inl ⟨_, _, hassigns, hlast⟩ => by
    obtain ⟨last, hsome, rfl⟩ := Option.map_eq_some_iff.mp hlast
    exact (hassigns.1 last (List.mem_of_getLast? hsome)).1
  | .mk _ :: _, _, .inr h => SatisfiesSome.isElement h

/-- No container satisfies a compound that has a simple selector for elements. -/
theorem not_satisfiesAll_of_elementOnly {simples : List SimpleSelector} {simple : SimpleSelector}
    (hmem : simple ∈ simples) (helementOnly : simple.elementOnly = true) {node : ι}
    (hnode : doc.tree.isElement node = false) : ¬ SatisfiesAll doc simples node := by
  have hnone : doc.tree.element? node = none := by
    rwa [Tree.isElement, Option.isSome_eq_false_iff, Option.isNone_iff_eq_none] at hnode
  have hsome : ∀ selectors, ¬ SatisfiesSome doc selectors node := fun selectors h => by
    rw [SatisfiesSome.isElement h] at hnode
    cases hnode
  have hsimple : ¬ Satisfies doc simple node := by
    cases simple with
    | type name => simp [Satisfies, Tree.localName, hnone]
    | universal => simp [Satisfies, hnode]
    | className name => simp [Satisfies, Tree.withAttribute, hnone]
    | id name => simp [Satisfies, Tree.withAttribute, hnone]
    | «attribute» name operator value =>
      simp [Satisfies, matchesAttributeSelector, Tree.withAttribute, hnone]
    | is selectors => exact hsome selectors
    | «where» selectors => exact hsome selectors
    | nthChild formula selectors reverse =>
      rintro ⟨_, _, _, _, hamong, _⟩
      exact hsome selectors hamong.1
    | _ => cases helementOnly
  induction simples with
  | nil => cases hmem
  | cons first simples ih =>
    rintro ⟨hfirst, hrest⟩
    rcases List.mem_cons.mp hmem with rfl | hmem
    · exact hsimple hfirst
    · exact ih hmem hrest

/-! ## The arguments of `:has()` -/

omit [DecidableEq ι] in
theorem relativesOfSimples_subset_parts : ∀ {parts : List SelectorPart} {part : SelectorPart},
    part ∈ parts → relativesOfSimples true part.simples ⊆ relativesOfParts true parts
  | .mk combinator simples :: parts, part, h => by
    rw [relativesOfParts]
    rcases List.mem_cons.mp h with rfl | h
    · exact List.subset_append_left ..
    · exact List.Subset.trans (relativesOfSimples_subset_parts h) (List.subset_append_right ..)

mutual

theorem SimpleSelector.relatives_of_upper : ∀ {simple : SimpleSelector}
    {simples : List SimpleSelector}, simples ∈ simple.uppers →
      relativesOfSimples true simples ⊆ simple.relatives true
  | .nthChild _ selectors _, _, h => relativesOfSelectors_of_upper h
  | .is selectors, _, h => relativesOfSelectors_of_upper h
  | .where selectors, _, h => relativesOfSelectors_of_upper h
  | .not selectors, _, h => relativesOfSelectors_of_upper h
  | .has selectors, _, h => relativesOfRelatives_of_upper h

theorem relativesOfSimples_of_nested : ∀ {compound simples : List SimpleSelector},
    simples ∈ uppersOfSimples compound → relativesOfSimples true simples ⊆ relativesOfSimples true compound
  | simple :: compound, _, h => by
    rw [relativesOfSimples]
    rcases List.mem_append.mp h with h | h
    · exact List.Subset.trans (SimpleSelector.relatives_of_upper h) (List.subset_append_left ..)
    · exact List.Subset.trans (relativesOfSimples_of_nested h) (List.subset_append_right ..)

theorem relativesOfParts_of_nested : ∀ {parts : List SelectorPart} {simples : List SimpleSelector},
    simples ∈ uppersOfParts parts → relativesOfSimples true simples ⊆ relativesOfParts true parts
  | .mk _ compound :: parts, _, h => by
    rw [relativesOfParts]
    rcases List.mem_append.mp h with h | h
    · exact List.Subset.trans (relativesOfSimples_of_nested h) (List.subset_append_left ..)
    · exact List.Subset.trans (relativesOfParts_of_nested h) (List.subset_append_right ..)

theorem relativesOfSelectors_of_upper : ∀ {selectors : List Selector}
    {simples : List SimpleSelector}, simples ∈ uppersOfSelectors selectors →
      relativesOfSimples true simples ⊆ relativesOfSelectors true selectors
  | .mk parts :: selectors, _, h => by
    rw [relativesOfSelectors]
    rcases List.mem_append.mp h with h | h
    · refine List.Subset.trans ?_ (List.subset_append_left ..)
      rcases List.mem_append.mp h with h | h
      · obtain ⟨part, hpart, rfl⟩ := part_of_mem_upperCompounds h
        exact relativesOfSimples_subset_parts hpart
      · exact relativesOfParts_of_nested h
    · exact List.Subset.trans (relativesOfSelectors_of_upper h) (List.subset_append_right ..)

theorem relativesOfRelatives_of_upper : ∀ {selectors : List RelativeSelector}
    {simples : List SimpleSelector}, simples ∈ uppersOfRelatives selectors →
      relativesOfSimples true simples ⊆ relativesOfRelatives true selectors
  | .mk _ _ (.mk parts) :: selectors, _, h => by
    rw [relativesOfRelatives]
    refine List.Subset.trans ?_ (List.subset_cons_self _ _)
    rcases List.mem_append.mp h with h | h
    · exact List.Subset.trans (relativesOfParts_of_nested h) (List.subset_append_left ..)
    · exact List.Subset.trans (relativesOfRelatives_of_upper h) (List.subset_append_right ..)

end

/-! ## The matcher and the declarative reading -/

/-- The compounds of a selector that are looked for among ancestors. -/
def Selector.uppers (selector : Selector) : List (List SimpleSelector) := uppersOfSelectors [selector]

theorem visited_blind_at (node : ι) :
    (Pass.at (none : Option (List ι)) (fun _ => unvisited) node).visited = unvisited := by
  funext other
  rw [visited_at, visitsOf_apply]
  simp [unvisited]

/-- What `matchesSelector` finds out. -/
theorem matchesSelector_iff {selector : Selector} (hdistinct : Distinct (· ∈ selector.relatives true))
    (node : ι) : matchesSelector doc node selector = true ↔
      Matches doc none false selector unvisited node none := by
  have hready : Ready doc (· ∈ selector.relatives true)
      (Pass.at none (fun _ => unvisited) node) none false selector.relatives :=
    ⟨fun _ hmem => hmem, fun _ _ _ _ _ => by rw [visited_blind_at]; exact Iff.rfl⟩
  have hrun := (matchesSelectorWithScopeMode_run hdistinct (valid_freshCache fun _ => unvisited)
    selector node none hready).1
  rw [visited_blind_at] at hrun
  exact hrun

/-- What the test of a compound finds out. -/
theorem matchesCompound_iff {simples : List SimpleSelector}
    (hdistinct : Distinct (· ∈ relativesOfSimples true simples)) (node : ι) :
    ((matchesCompound doc none false simples node none none).run {}).1 = true ↔
      CompoundHolds doc none false simples unvisited node none none := by
  have hready : Ready doc (· ∈ relativesOfSimples true simples) (Pass.blind : Pass ι) none false
      (relativesOfSimples · simples) :=
    ⟨fun _ hmem => hmem, fun _ _ _ _ _ => by rw [Pass.visited_blind]; exact Iff.rfl⟩
  have hrun := (decides_matchesCompound hdistinct simples Pass.blind Pass.settled_blind hready node
    none none {} valid_blind).1
  rwa [Pass.visited_blind] at hrun

end

/-- `:not(*) > div` -/
def belowNoElement : Selector :=
  .mk [.mk none [.not [.mk [.mk none [.universal]]]], .mk (some .child) [.type "div".toList]]

/-- `div > a` -/
def linkInDivision : Selector :=
  .mk [.mk none [.type "div".toList], .mk (some .child) [.type "a".toList]]

end

end Omoikane.Css
