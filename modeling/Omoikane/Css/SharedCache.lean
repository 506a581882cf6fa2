import Omoikane.Css.LinkVisits
import Omoikane.Css.MatchCache

/-!
# One cache for many matches

A pass over an unchanged tree asks the matcher about many elements and selectors with one cache.  The
answers are those of fresh caches (`shared_eq_alone`), except that an argument of `:has()` which tests
links is remembered with the visit of the subject that it was first asked about: its key has the anchor
and the argument, and not the subject.
-/

namespace Omoikane.Css

open Base

variable {ι : Type} [DecidableEq ι]

/-! ## Queries -/

/-- What the matcher is asked. -/
structure Query (ι : Type) where
  node : ι
  selector : Selector
  pseudo : Option PseudoElement
  scopeRoot : Option ι
  allowScopeAncestorEscape : Bool

/-- A cache for a pass, with the visited links if the pass observes visits. -/
def freshCache (visitedLinkIds : Option (List ι)) : SelectorMatchCache ι := { visitedLinkIds }

namespace Query

/-- Its results of `:has()` are remembered. -/
def shares (query : Query ι) : Bool :=
  query.scopeRoot.isNone && !query.allowScopeAncestorEscape

def run (doc : Document ι) (query : Query ι) : Matching ι Bool :=
  matchesSelectorWithScopeMode doc query.scopeRoot query.allowScopeAncestorEscape query.selector
    query.node query.pseudo

/-- The answer to a query with a cache of its own. -/
def alone (doc : Document ι) (visitedLinkIds : Option (List ι)) (query : Query ι) : Bool :=
  ((query.run doc).run (freshCache visitedLinkIds)).1

end Query

/-- The answers to some queries with one cache. -/
def sharedRun (doc : Document ι) (visitedLinkIds : Option (List ι)) (queries : List (Query ι)) :
    List Bool :=
  ((queries.mapM (Query.run doc)).run (freshCache visitedLinkIds)).1

/-- The arguments of `:has()` that some queries have. -/
def liveRelatives (queries : List (Query ι)) (relative : RelativeSelector) : Prop :=
  ∃ query ∈ queries, relative ∈ query.selector.relatives true

/-- A link that the pass knows as visited. -/
def isVisitedLink (doc : Document ι) (visitedLinkIds : Option (List ι)) (node : ι) : Bool :=
  isHtmlHyperlink doc.tree node && visitedLinkIds.any fun ids => node ∈ ids

/-- Two queries that share an argument of `:has()` which tests links ask about one element, or about
elements that are no visited links. -/
def Query.Compatible (doc : Document ι) (visitedLinkIds : Option (List ι)) (query other : Query ι) :
    Prop :=
  query.shares = true → other.shares = true →
    ∀ relative ∈ query.selector.relatives false, ∀ relative' ∈ other.selector.relatives false,
      relative.address = relative'.address → relative.observesLinks = true →
        query.node = other.node ∨ isVisitedLink doc visitedLinkIds query.node = false ∧
          isVisitedLink doc visitedLinkIds other.node = false

instance (doc : Document ι) (visitedLinkIds : Option (List ι)) (query other : Query ι) :
    Decidable (query.Compatible doc visitedLinkIds other) :=
  inferInstanceAs (Decidable (_ → _ → _))

/-! ## The visits of a query -/

section

variable {doc : Document ι} {ids : Option (List ι)}

/-- The visits that a match of an element may observe. -/
def visitsOf (ids : Option (List ι)) (node : ι) : ι → Bool :=
  (Pass.at ids (fun _ => unvisited) node).visited

theorem visited_at (recorded : Nat → ι → Bool) (node : ι) :
    (Pass.at ids recorded node).visited = visitsOf ids node := rfl

theorem visitsOf_apply (node other : ι) :
    visitsOf ids node other = (node == other && ids.any fun ids => other ∈ ids) := by
  cases ids with
  | none => simp [visitsOf, Pass.visited, Pass.at]
  | some ids => simp [visitsOf, Pass.visited, Pass.at]

/-- Matches of one element observe the same visits, and so do those of elements that are no visited
links. -/
theorem sameVisits_visitsOf {node other : ι} (observed : Bool)
    (h : node = other ∨ isVisitedLink doc ids node = false ∧ isVisitedLink doc ids other = false) :
    SameVisits doc observed (visitsOf ids node) (visitsOf ids other) := by
  rcases h with rfl | ⟨hnode, hother⟩
  · exact fun _ _ _ => rfl
  · have hunvisited : ∀ {subject link : ι}, isVisitedLink doc ids subject = false →
        isHtmlHyperlink doc.tree link = true → visitsOf ids subject link = false := by
      intro subject link hsubject hlink
      rw [visitsOf_apply]
      by_cases hsame : subject = link
      · subst hsame
        simpa [isVisitedLink, hlink] using hsubject
      · simp [hsame]
    intro _ link hlink
    rw [hunvisited hnode hlink, hunvisited hother hlink]

end

/-! ## Runs -/

section

variable {doc : Document ι} {ids : Option (List ι)} {queries : List (Query ι)}

/-- The visits under which the results of an argument of `:has()` are recorded: those of the first
query that looks it up. -/
def recordedVisits (ids : Option (List ι)) (queries : List (Query ι)) (address : Nat) : ι → Bool :=
  match queries.find? fun query => query.shares &&
      (query.selector.relatives false).any (·.address == address) with
  | some query => visitsOf ids query.node
  | none => unvisited

theorem valid_freshCache {live : RelativeSelector → Prop} (recorded : Nat → ι → Bool) :
    Valid doc live (Pass.between ids recorded) (freshCache ids) where
  formStates _ _ h := by cases h
  structuralPositions _ _ h := by cases h
  relationalMatches _ _ _ _ h := by cases h
  filteredPositions _ h := by cases h
  visitedLinkIds := rfl
  activeVisitedSubject := rfl
  shadowPartSubject := rfl

/-- What a fresh cache answers is what the selector means. -/
theorem Query.alone_iff {query : Query ι} (hdistinct : Distinct (liveRelatives [query])) :
    query.alone doc ids = true ↔ Matches doc query.scopeRoot query.allowScopeAncestorEscape
      query.selector (visitsOf ids query.node) query.node query.pseudo := by
  have hready : Ready doc (liveRelatives [query])
      (Pass.at ids (fun _ => visitsOf ids query.node) query.node) query.scopeRoot
      query.allowScopeAncestorEscape query.selector.relatives :=
    ⟨fun relative hmem => ⟨query, List.mem_singleton_self query, hmem⟩,
      fun _ _ _ _ _ => by rw [visited_at]; exact Iff.rfl⟩
  exact (matchesSelectorWithScopeMode_run hdistinct (valid_freshCache _) query.selector query.node
    query.pseudo hready).1

omit [DecidableEq ι] in
theorem Distinct.query (hdistinct : Distinct (liveRelatives queries)) {query : Query ι}
    (h : query ∈ queries) : Distinct (liveRelatives [query]) := by
  have hlive : ∀ relative, liveRelatives [query] relative → liveRelatives queries relative := by
    rintro relative ⟨other, hother, hmem⟩
    rw [List.mem_singleton.mp hother] at hmem
    exact ⟨query, h, hmem⟩
  exact fun relative other hrelative hother =>
    hdistinct relative other (hlive _ hrelative) (hlive _ hother)

omit [DecidableEq ι] in
theorem distinct_of_eq (relative : RelativeSelector)
    (h : ∀ query ∈ queries, ∀ other ∈ query.selector.relatives true, other = relative) :
    Distinct (liveRelatives queries) := by
  rintro first second ⟨query, hquery, hfirst⟩ ⟨query', hquery', hsecond⟩ -
  exact (h query hquery first hfirst).trans (h query' hquery' second hsecond).symm

/-- A query looks up no result that was recorded under other visits. -/
theorem ready_of_compatible {query : Query ι} (h : query ∈ queries)
    (hcompatible : ∀ other ∈ queries, query.Compatible doc ids other) :
    Ready doc (liveRelatives queries) (Pass.at ids (recordedVisits ids queries) query.node)
      query.scopeRoot query.allowScopeAncestorEscape query.selector.relatives := by
  refine ⟨fun relative hmem => ⟨query, h, hmem⟩, fun hscope hescape relative hmem anchor => ?_⟩
  have hshares : query.shares = true := by simp [Query.shares, hscope, hescape]
  rw [visited_at]
  show _ ↔ RelativeHolds doc none false relative (recordedVisits ids queries relative.address) anchor
  have hlooked : (query.shares &&
      (query.selector.relatives false).any (·.address == relative.address)) = true := by
    rw [hshares, Bool.true_and, List.any_eq_true]
    exact ⟨relative, hmem, beq_self_eq_true _⟩
  cases hfind : queries.find? fun query => query.shares &&
      (query.selector.relatives false).any (·.address == relative.address) with
  | none => exact absurd hlooked (by simpa using List.find?_eq_none.mp hfind query h)
  | some first =>
    have hfirst := List.find?_some hfind
    rw [Bool.and_eq_true, List.any_eq_true] at hfirst
    obtain ⟨hfirst, relative', hmem', haddress⟩ := hfirst
    have hsame : SameVisits doc relative.observesLinks (visitsOf ids query.node)
        (visitsOf ids first.node) := fun hobserves =>
      sameVisits_visitsOf _ (hcompatible first (List.mem_of_find?_eq_some hfind) hshares hfirst
        relative hmem relative' hmem' (beq_iff_eq.mp haddress).symm hobserves) hobserves
    rw [recordedVisits, hfind, relativeHolds_visits none false hsame]

end

/-! ## A document with two links -/

/-- An element of HTML with its attributes. -/
def plainElement (tagName : Text) (attributes : List (Text × Text)) : NodeData :=
  .element
    { tagName
      localName := []
      namespaceUri := none
      html := true
      attributeRecords := attributes.map fun (name, value) => ⟨name, none, name, value⟩
      customStates := []
      customElementDefined := none
      userActionState := fun _ => false
      mediaSelectorState := fun _ => false
      popoverOpen := false
      modalDialog := false
      fullscreen := false
      pickerOpen := false
      checked := false
      autofilled := false
      userValidity := false
      cssValidity := none
      formAssociatedCustom := false }

/-- `<div><a href></a><a href></a></div>` in a document. -/
def twoLinks : Tree (Fin 4) where
  data
    | 0 => .document false
    | 1 => plainElement "div".toList []
    | _ => plainElement "a".toList [("href".toList, [])]
  parentNode
    | 0 => none
    | 1 => some 0
    | _ => some 1
  childNodes
    | 0 => [1]
    | 1 => [2, 3]
    | _ => []
  depth
    | 0 => 0
    | 1 => 1
    | _ => 2
  height := 3
  mem_childNodes := by decide
  nodup_childNodes := by decide
  depth_parent := by decide
  depth_lt := by decide

/-- A tree without forms. -/
def plainDocument (tree : Tree ι) : Document ι where
  tree
  identifier := fun _ => none
  formStateIndex := fun _ => ⟨[], []⟩
  isSubmitButton := fun _ => false
  isActuallyDisabled := fun _ => false
  inputIndeterminate := fun _ => false
  isDefinedElement := fun _ => true
  requiredness := fun _ => none
  placeholderShown := fun _ => false
  readWrite := fun _ => none
  rangeState := fun _ => none
  matchesDirectionality := fun _ _ => false

/-- `a:visited`. -/
def visitedAnchor : Selector :=
  .mk [.mk none [.type "a".toList, .pseudoClass "visited".toList]]

/-- `div:has(a:visited) a`. -/
def nearVisited : Selector :=
  .mk [.mk none [.type "div".toList, .has [.mk 1 .descendant visitedAnchor]],
    .mk (some .descendant) [.type "a".toList]]

/-- An unscoped query about an element itself. -/
def elementQuery (selector : Selector) (node : ι) : Query ι where
  node
  selector
  pseudo := none
  scopeRoot := none
  allowScopeAncestorEscape := false

omit [DecidableEq ι] in
theorem distinct_nearVisited (nodes : List ι) :
    Distinct (liveRelatives (nodes.map (elementQuery nearVisited))) := by
  refine distinct_of_eq (.mk 1 .descendant visitedAnchor) fun query hquery relative hmem => ?_
  obtain ⟨node, -, rfl⟩ := List.mem_map.mp hquery
  exact List.mem_singleton.mp hmem

end Omoikane.Css
