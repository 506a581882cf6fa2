import Omoikane.Js.Csp.Policy

/-!
# Policies of parser-inserted scripts

A script that the parser inserted is checked against the policies before it.  Which
ones those are is counted in the tree as it is when the script runs, while the
policies were captured from the tree as it was parsed.  Where the two trees have
the same `meta` elements after the script nothing is lost.
-/

namespace Omoikane.Js.Csp

open Base Http

mutual

/-- The nodes of a tree in document order, with the contents of policy elements. -/
def visits (ancestors : List (Option Text)) : Node → List (Nat × Option Text)
  | .node identity tagName attributes children =>
    (identity, cspMetaContent ancestors tagName attributes) ::
      visitsOfChildren (tagName :: ancestors) children

def visitsOfChildren (ancestors : List (Option Text)) : List Node → List (Nat × Option Text)
  | [] => []
  | child :: children => visits ancestors child ++ visitsOfChildren ancestors children

end

/-- The policies that some visits find. -/
def policiesOf (visits : List (Nat × Option Text)) : List ParsedPolicy :=
  visits.filterMap fun visit => visit.2.bind parsePolicy

/-- The policies of a document's `meta` elements. -/
def metaPolicies (document : Node) : List ParsedPolicy := policiesOf (visits [] document)

/-- Those of the elements before a script; of all where the script is not in the document. -/
def metasBefore (document : Node) (scriptId : Nat) : List ParsedPolicy :=
  policiesOf ((visits [] document).takeWhile fun visit => visit.1 ≠ scriptId)

/-- Those of the elements after it. -/
def metasAfter (document : Node) (scriptId : Nat) : List ParsedPolicy :=
  policiesOf ((visits [] document).dropWhile fun visit => visit.1 ≠ scriptId)

/-- The script is in the document. -/
def Holds (document : Node) (scriptId : Nat) : Prop :=
  ∃ visit ∈ visits [] document, visit.1 = scriptId

theorem policiesOf_append (xs ys : List (Nat × Option Text)) :
    policiesOf (xs ++ ys) = policiesOf xs ++ policiesOf ys := List.filterMap_append

theorem metasBefore_append_metasAfter (document : Node) (scriptId : Nat) :
    metasBefore document scriptId ++ metasAfter document scriptId = metaPolicies document := by
  unfold metasBefore metasAfter metaPolicies
  rw [← policiesOf_append, List.takeWhile_append_dropWhile]

/-! ## The two traversals -/

mutual

theorem collectCspMetaContents_eq (ancestors : List (Option Text)) : ∀ node,
    collectCspMetaContents ancestors node = (visits ancestors node).filterMap Prod.snd
  | .node identity tagName attributes children => by
    unfold collectCspMetaContents visits
    rw [List.filterMap_cons, collectFromChildren_eq]
    cases cspMetaContent ancestors tagName attributes <;> rfl

theorem collectFromChildren_eq (ancestors : List (Option Text)) : ∀ children,
    collectFromChildren ancestors children =
      (visitsOfChildren ancestors children).filterMap Prod.snd
  | [] => rfl
  | child :: children => by
    unfold collectFromChildren visitsOfChildren
    rw [List.filterMap_append, collectCspMetaContents_eq, collectFromChildren_eq]

end

/-- A visit of the count. -/
def countVisit (scriptId : Nat) (counts : ParserMetaCounts) (visit : Nat × Option Text) :
    ParserMetaCounts := counts.visit (visit.1 == scriptId) visit.2

mutual

theorem countParserMetaPolicies_eq (scriptId : Nat) (ancestors : List (Option Text)) :
    ∀ node counts, countParserMetaPolicies scriptId ancestors node counts =
      (visits ancestors node).foldl (countVisit scriptId) counts
  | .node identity tagName attributes children, counts => by
    unfold countParserMetaPolicies visits
    rw [List.foldl_cons, countInChildren_eq]
    rfl

theorem countInChildren_eq (scriptId : Nat) (ancestors : List (Option Text)) :
    ∀ children counts, countInChildren scriptId ancestors children counts =
      (visitsOfChildren ancestors children).foldl (countVisit scriptId) counts
  | [], _ => rfl
  | child :: children, counts => by
    unfold countInChildren visitsOfChildren
    rw [List.foldl_append, countParserMetaPolicies_eq, countInChildren_eq]

end

/-! ## What is counted -/

theorem length_policiesOf_cons (visit : Nat × Option Text) (visits : List (Nat × Option Text)) :
    (policiesOf (visit :: visits)).length =
      (if visit.2.any fun content => (parsePolicy content).isSome then 1 else 0) +
        (policiesOf visits).length := by
  unfold policiesOf
  rw [List.filterMap_cons]
  cases visit.2 with
  | none => exact (Nat.zero_add _).symm
  | some content =>
    rw [Option.bind_some, Option.any_some]
    cases parsePolicy content with
    | none => exact (Nat.zero_add _).symm
    | some policy => exact Nat.add_comm _ _

/-- After the script only the total grows. -/
theorem foldl_countVisit_found (scriptId : Nat) (visits : List (Nat × Option Text)) (total before : Nat) :
    visits.foldl (countVisit scriptId) ⟨total, before, true⟩ =
      ⟨total + (policiesOf visits).length, before, true⟩ := by
  induction visits generalizing total with
  | nil => rfl
  | cons visit visits ih =>
    have hvisit : countVisit scriptId ⟨total, before, true⟩ visit =
        ⟨total + (if visit.2.any fun content => (parsePolicy content).isSome then 1 else 0), before,
          true⟩ := by
      unfold countVisit ParserMetaCounts.visit
      cases visit.1 == scriptId <;> dsimp only <;> split <;> rfl
    rw [List.foldl_cons, hvisit, ih, length_policiesOf_cons, Nat.add_assoc]

/-- The count of the policies in a list of visits and of those before the script. -/
theorem foldl_countVisit (scriptId : Nat) (visits : List (Nat × Option Text)) (total before : Nat) :
    visits.foldl (countVisit scriptId) ⟨total, before, false⟩ =
      ⟨total + (policiesOf visits).length,
        before + (policiesOf (visits.takeWhile fun visit => visit.1 ≠ scriptId)).length,
        visits.any fun visit => visit.1 == scriptId⟩ := by
  induction visits generalizing total before with
  | nil => rfl
  | cons visit visits ih =>
    rw [List.foldl_cons, List.any_cons, length_policiesOf_cons]
    by_cases hscript : visit.1 = scriptId
    · have hvisit : countVisit scriptId ⟨total, before, false⟩ visit =
          ⟨total + (if visit.2.any fun content => (parsePolicy content).isSome then 1 else 0),
            before, true⟩ := by
        unfold countVisit ParserMetaCounts.visit
        rw [beq_iff_eq.mpr hscript]
        dsimp only
        split <;> rfl
      rw [hvisit, foldl_countVisit_found, List.takeWhile_cons_of_neg (by simpa using hscript),
        beq_iff_eq.mpr hscript, Nat.add_assoc]
      rfl
    · have hvisit : countVisit scriptId ⟨total, before, false⟩ visit =
          ⟨total + (if visit.2.any fun content => (parsePolicy content).isSome then 1 else 0),
            before + (if visit.2.any fun content => (parsePolicy content).isSome then 1 else 0),
            false⟩ := by
        unfold countVisit ParserMetaCounts.visit
        rw [beq_eq_false_iff_ne.mpr hscript]
        dsimp only
        split <;> rfl
      rw [hvisit, ih, List.takeWhile_cons_of_pos (by simpa using hscript),
        length_policiesOf_cons, beq_eq_false_iff_ne.mpr hscript, Nat.add_assoc, Nat.add_assoc]
      rfl

namespace CspPolicy

variable {crate : UrlCrate} {parsed current : Node} {earlier : List ParsedPolicy}
  {captured : CspPolicy} {scriptId : Nat}

/-- A policy as it is captured when a parsed document is navigated to, with the policies that
come before those of the document. -/
inductive Captured (crate : UrlCrate) (parsed : Node) : List ParsedPolicy → CspPolicy → Prop where
  | response (headers : List Text) (baseUrl : Text) :
      Captured crate parsed (headers.filterMap parsePolicy)
        (fromHeadersAndDocument crate headers parsed baseUrl)
  | inherited (policy : CspPolicy) (baseUrl : Text) :
      Captured crate parsed policy.policies (policy.withDocumentMeta crate parsed baseUrl)

/-- The policies of the document come last. -/
theorem Captured.policies (h : Captured crate parsed earlier captured) :
    captured.policies = earlier ++ metaPolicies parsed := by
  have hmeta : (collectCspMetaContents [] parsed).filterMap parsePolicy = metaPolicies parsed := by
    unfold metaPolicies policiesOf
    rw [collectCspMetaContents_eq, List.filterMap_filterMap]
  cases h with
  | response headers baseUrl => exact congrArg _ hmeta
  | inherited policy baseUrl => exact congrArg _ hmeta

/-- The policies of the script are cut off after those that come before it now. -/
theorem forParserScript_policies (policy : CspPolicy) (document : Node) (scriptId : Nat) :
    (Holds document scriptId ∧ (metaPolicies document).length ≤ policy.policies.length →
      (policy.forParserScript document scriptId).policies = policy.policies.take
        (policy.policies.length - (metasAfter document scriptId).length)) ∧
    (¬ (Holds document scriptId ∧ (metaPolicies document).length ≤ policy.policies.length) →
      (policy.forParserScript document scriptId).policies = policy.policies) := by
  have hcounts : countParserMetaPolicies scriptId [] document ⟨0, 0, false⟩ =
      ⟨(metaPolicies document).length, (metasBefore document scriptId).length,
        (visits [] document).any fun visit => visit.1 == scriptId⟩ := by
    rw [countParserMetaPolicies_eq, foldl_countVisit, Nat.zero_add, Nat.zero_add]
    rfl
  have hlength : (metaPolicies document).length =
      (metasBefore document scriptId).length + (metasAfter document scriptId).length := by
    rw [← metasBefore_append_metasAfter document scriptId, List.length_append]
  have hcondition : (((visits [] document).any fun visit => visit.1 == scriptId) &&
      decide ((metaPolicies document).length ≤ policy.policies.length)) = true ↔
      Holds document scriptId ∧ (metaPolicies document).length ≤ policy.policies.length := by
    rw [Bool.and_eq_true, List.any_eq_true, decide_eq_true_iff]
    simp only [beq_iff_eq]
    exact Iff.rfl
  unfold forParserScript
  dsimp only
  rw [hcounts]
  dsimp only
  constructor
  · intro h
    rw [if_pos (hcondition.mpr h)]
    have hcut : policy.policies.length - (metaPolicies document).length +
        (metasBefore document scriptId).length =
          policy.policies.length - (metasAfter document scriptId).length := by
      have hle := h.2
      omega
    exact congrArg (fun count => policy.policies.take count) hcut
  · intro h
    rw [if_neg fun hc => h (hcondition.mp hc)]

/-- A script keeps the policies before it and loses none but those after it, exactly where no
more policies stand after it now than in the document as parsed, or nothing is cut. -/
theorem forParserScript_keeps_iff (hcaptured : Captured crate parsed earlier captured)
    (current : Node) (scriptId : Nat) :
    (earlier ++ metasBefore parsed scriptId <+:
        (captured.forParserScript current scriptId).policies ∧
      (captured.forParserScript current scriptId).policies <+: captured.policies) ↔
    (Holds current scriptId → (metaPolicies current).length ≤ captured.policies.length →
      (metasAfter current scriptId).length ≤ (metasAfter parsed scriptId).length) := by
  have hpolicies : captured.policies =
      (earlier ++ metasBefore parsed scriptId) ++ metasAfter parsed scriptId := by
    rw [hcaptured.policies, List.append_assoc, metasBefore_append_metasAfter]
  obtain ⟨hcut, hwhole⟩ := forParserScript_policies captured current scriptId
  by_cases h : Holds current scriptId ∧ (metaPolicies current).length ≤ captured.policies.length
  · rw [hcut h]
    have hlength := congrArg List.length hpolicies
    rw [List.length_append] at hlength
    have hafter : (metasAfter current scriptId).length ≤ captured.policies.length := by
      refine Nat.le_trans ?_ h.2
      rw [← metasBefore_append_metasAfter current scriptId, List.length_append]
      exact Nat.le_add_left _ _
    constructor
    · rintro ⟨hkeeps, _⟩ _ _
      have hshort := hkeeps.length_le
      rw [List.length_take] at hshort
      omega
    · intro hle
      have hcut := captured.policies.take_prefix
        (captured.policies.length - (metasAfter current scriptId).length)
      refine ⟨?_, hcut⟩
      have hfront : earlier ++ metasBefore parsed scriptId <+: captured.policies :=
        ⟨_, hpolicies.symm⟩
      refine List.prefix_of_prefix_length_le hfront hcut ?_
      rw [List.length_take]
      have := hle h.1 h.2
      omega
  · rw [hwhole h]
    refine ⟨fun _ hholds hle => absurd ⟨hholds, hle⟩ h, fun _ => ⟨⟨_, hpolicies.symm⟩, ?_⟩⟩
    exact List.prefix_rfl

/-! ## Two documents -/

/-- A `meta` element with a policy. -/
def policyElement (identity : Nat) : Node :=
  .node identity (some "meta".toList) [("http-equiv".toList, "content-security-policy".toList),
    ("content".toList, "img-src *".toList)] []

/-- A document with elements in its head. -/
def documentWith (elements : List Node) : Node :=
  .node 0 none [] [.node 1 (some "html".toList) [] [.node 2 (some "head".toList) [] elements]]

/-- A script element. -/
def scriptElement : Node := .node 3 (some "script".toList) [] []

theorem forParserScript_keeps_between :
    (([ "img-src *".toList].filterMap parsePolicy ++
          metasBefore (documentWith [policyElement 4, scriptElement, policyElement 5]) 3 <+:
        ((fromHeadersAndDocument noUrls ["img-src *".toList]
          (documentWith [policyElement 4, scriptElement, policyElement 5]) []).forParserScript
            (documentWith [scriptElement, policyElement 5]) 3).policies ∧
      ((fromHeadersAndDocument noUrls ["img-src *".toList]
          (documentWith [policyElement 4, scriptElement, policyElement 5]) []).forParserScript
            (documentWith [scriptElement, policyElement 5]) 3).policies <+:
        (fromHeadersAndDocument noUrls ["img-src *".toList]
          (documentWith [policyElement 4, scriptElement, policyElement 5]) []).policies)) :=
  (forParserScript_keeps_iff (.response ["img-src *".toList] []) _ 3).mpr fun _ _ => by decide

/-- A script before `s` that inserts a policy after it has the response's policy cut off. -/
theorem not_forParserScript_keeps :
    ¬ (["img-src *".toList].filterMap parsePolicy ++ metasBefore (documentWith [scriptElement]) 3 <+:
      ((fromHeadersAndDocument noUrls ["img-src *".toList]
        (documentWith [scriptElement]) []).forParserScript
          (documentWith [scriptElement, policyElement 5]) 3).policies) := by
  decide

end CspPolicy

end Omoikane.Js.Csp
