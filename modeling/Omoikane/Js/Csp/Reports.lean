import Omoikane.Js.Csp.Restriction

/-!
# Decisions and reports

Whether a request is allowed and which policies it violates are asked for apart.  The answers agree, but
for a reference that cannot be resolved: a document with an enforced policy blocks it, while only the
policies that govern the request are reported.
-/

namespace Omoikane.Js.Csp

open Base Http

/-- The source list that governs a request rejects it.  A reference that cannot be resolved is rejected
by every list. -/
def ParsedPolicy.rejects (baseUrl : Option Url) (resourceType : ResourceType) (url : Option ResourceUrl)
    (redirects : Nat) (parsed : ParsedPolicy) : Bool :=
  (parsed.sourcesFor resourceType false).isSome &&
    url.all fun url => !parsed.allowsUrl resourceType baseUrl url redirects

namespace CspPolicy

/-- `inline_policy_violations`: those of the enforced policies and those of the others. -/
def inlinePolicyViolations (hashes : HashCrates) (policy : CspPolicy) (kind : InlineType) (source : Text)
    (nonce : Option Text) : List PolicyViolation × List PolicyViolation :=
  let violations (policies : List ParsedPolicy) : List PolicyViolation :=
    (policies.filter fun parsed => !parsed.allowsInlineSource hashes kind (some source) nonce).map
      fun parsed => {
        serialized := parsed.serialized
        reportSample := (parsed.sourcesFor kind.resourceType kind.isAttribute).any fun sources =>
          sources.contains .reportSample }
  (violations policy.policies, violations policy.reportOnly)

variable {crate : UrlCrate} {hashes : HashCrates} {baseUrl : Option Url} {resourceType : ResourceType}
  {reference : Text} {redirects : Nat}

/-- Only a reference to inline code is checked as an attribute. -/
theorem not_attribute (h : isInlineReference reference = false) :
    (resourceType == .style && Text.startsWith reference "style-attribute:".toList) = false := by
  rw [isInlineReference, Bool.or_eq_false_iff] at h
  rw [h.2, Bool.and_false]

theorem violates_eq_rejects (h : isInlineReference reference = false) (parsed : ParsedPolicy) :
    violates crate hashes baseUrl resourceType reference redirects none parsed =
      parsed.rejects baseUrl resourceType (ResourceUrl.parse crate reference baseUrl) redirects := by
  rw [violates, not_attribute h, ParsedPolicy.rejects, h]
  cases parsed.sourcesFor resourceType false <;> rfl

theorem filterMap_ite {α β : Type} (test : α → Bool) (value : α → β) (list : List α) :
    (list.filterMap fun item => if test item then some (value item) else none) =
      (list.filter test).map value := by
  induction list with
  | nil => rfl
  | cons item list ih =>
    rw [List.filterMap_cons, List.filter_cons]
    cases test item with
    | true => exact congrArg (value item :: ·) ih
    | false => exact ih

/-- A policy without a list that governs the request allows it. -/
theorem allowsUrl_eq_not_rejects (parsed : ParsedPolicy) (url : ResourceUrl) :
    parsed.allowsUrl resourceType baseUrl url redirects =
      !parsed.rejects baseUrl resourceType (some url) redirects := by
  rw [ParsedPolicy.rejects, Option.all_some]
  cases hsources : parsed.sourcesFor resourceType false with
  | none => rw [ParsedPolicy.allowsUrl, hsources]; rfl
  | some sources => rw [Option.isSome_some, Bool.true_and, Bool.not_not]

/-- The report has the policies whose lists reject the reference. -/
theorem blocking_eq_rejecting (policy : CspPolicy) (h : isInlineReference reference = false) :
    policy.blockingPolicyTextsAfterRedirects crate hashes resourceType reference redirects =
      (policy.policies.filter fun parsed => parsed.rejects policy.baseUrl resourceType
        (ResourceUrl.parse crate reference policy.baseUrl) redirects).map fun parsed =>
          ⟨parsed.serialized, false⟩ := by
  rw [blockingPolicyTextsAfterRedirects, violatingPolicyTexts, filterMap_ite]
  have htest : violates crate hashes policy.baseUrl resourceType reference redirects none =
      fun parsed => parsed.rejects policy.baseUrl resourceType
        (ResourceUrl.parse crate reference policy.baseUrl) redirects :=
    funext (violates_eq_rejects h)
  rw [htest, h]
  rfl

theorem allowsReference_eq_false_iff (policy : CspPolicy) :
    policy.allowsReferenceAfterRedirects crate resourceType reference redirects = false ↔
      (policy.policies.filter fun parsed => parsed.rejects policy.baseUrl resourceType
        (ResourceUrl.parse crate reference policy.baseUrl) redirects) ≠ [] ∨
      (ResourceUrl.parse crate reference policy.baseUrl = none ∧ policy.policies ≠ []) := by
  rw [allowsReferenceAfterRedirects]
  cases hurl : ResourceUrl.parse crate reference policy.baseUrl with
  | none =>
    rw [Bool.eq_false_iff, Ne, List.isEmpty_iff]
    refine ⟨fun hne => .inr ⟨rfl, hne⟩, ?_⟩
    rintro (hfilter | ⟨-, hne⟩) hnil
    · rw [hnil] at hfilter
      exact hfilter rfl
    · exact hne hnil
  | some url =>
    rw [List.all_eq_false]
    constructor
    · rintro ⟨parsed, hparsed, hblocked⟩
      rw [allowsUrl_eq_not_rejects, Bool.not_eq_true', Bool.not_eq_false] at hblocked
      exact .inl (List.ne_nil_of_mem (List.mem_filter.mpr ⟨hparsed, hblocked⟩))
    · rintro (hfilter | ⟨hnone, -⟩)
      · obtain ⟨parsed, hmem⟩ := List.exists_mem_of_ne_nil _ hfilter
        obtain ⟨hparsed, hrejects⟩ := List.mem_filter.mp hmem
        refine ⟨parsed, hparsed, ?_⟩
        rw [allowsUrl_eq_not_rejects, hrejects]
        exact Bool.false_ne_true
      · cases hnone

theorem allowsInlineSource_eq_false_iff (policy : CspPolicy) (kind : InlineType) (source : Text)
    (nonce : Option Text) : policy.allowsInlineSourceWithNonce hashes kind source nonce = false ↔
      (policy.inlinePolicyViolations hashes kind source nonce).1 ≠ [] := by
  have hmem : ∀ parsed : ParsedPolicy,
      (!parsed.allowsInlineSource hashes kind (some source) nonce) = true ↔
        ¬ parsed.allowsInlineSource hashes kind (some source) nonce = true := fun parsed => by
    rw [Bool.not_eq_true', Bool.not_eq_true]
  rw [allowsInlineSourceWithNonce, inlinePolicyViolations, ne_eq, List.map_eq_nil_iff, List.all_eq_false]
  constructor
  · rintro ⟨parsed, hparsed, hblocked⟩
    exact List.ne_nil_of_mem (List.mem_filter.mpr ⟨hparsed, (hmem parsed).mpr hblocked⟩)
  · intro hfilter
    obtain ⟨parsed, hmember⟩ := List.exists_mem_of_ne_nil _ hfilter
    obtain ⟨hparsed, hblocked⟩ := List.mem_filter.mp hmember
    exact ⟨parsed, hparsed, (hmem parsed).mp hblocked⟩

/-- A reference that is not one to inline code is blocked if and only if an enforced policy is reported or
the reference cannot be resolved where a policy is enforced; the report has exactly the policies whose
lists reject it.  Inline code is blocked if and only if an enforced policy is reported. -/
theorem reports_agree (crate : UrlCrate) (hashes : HashCrates) (policy : CspPolicy)
    (resourceType : ResourceType) (reference : Text) (redirects : Nat)
    (h : isInlineReference reference = false) :
    (policy.allowsReferenceAfterRedirects crate resourceType reference redirects = false ↔
      policy.blockingPolicyTextsAfterRedirects crate hashes resourceType reference redirects ≠ [] ∨
        (ResourceUrl.parse crate reference policy.baseUrl = none ∧ policy.policies ≠ [])) ∧
    (policy.blockingPolicyTextsAfterRedirects crate hashes resourceType reference redirects =
      (policy.policies.filter fun parsed => parsed.rejects policy.baseUrl resourceType
        (ResourceUrl.parse crate reference policy.baseUrl) redirects).map fun parsed =>
          ⟨parsed.serialized, false⟩) ∧
    ∀ (kind : InlineType) (source : Text) (nonce : Option Text),
      policy.allowsInlineSourceWithNonce hashes kind source nonce = false ↔
        (policy.inlinePolicyViolations hashes kind source nonce).1 ≠ [] := by
  have hblocking : policy.blockingPolicyTextsAfterRedirects crate hashes resourceType reference redirects =
      _ := blocking_eq_rejecting policy h
  refine ⟨?_, hblocking, allowsInlineSource_eq_false_iff policy⟩
  rw [hblocking, allowsReference_eq_false_iff]
  simp only [ne_eq, List.map_eq_nil_iff]

/-- A policy for images only. -/
def noImages : CspPolicy :=
  fromHeadersAndDocument noUrls ["img-src 'none'".toList] plainDocument []

/-- An image that the policy rejects is reported. -/
theorem reports_agree_image :
    noImages.blockingPolicyTextsAfterRedirects noUrls noHashes .image "data:,a".toList 0 =
      (noImages.policies.filter fun parsed => parsed.rejects noImages.baseUrl .image
        (ResourceUrl.parse noUrls "data:,a".toList noImages.baseUrl) 0).map fun parsed =>
          ⟨parsed.serialized, false⟩ :=
  (reports_agree noUrls noHashes noImages .image "data:,a".toList 0 (by decide)).2.1

/-- The policy for images blocks a script that cannot be resolved, and is not reported for it. -/
theorem blocked_without_report :
    noImages.allowsReferenceAfterRedirects noUrls .script "a.js".toList 0 = false ∧
    noImages.blockingPolicyTextsAfterRedirects noUrls noHashes .script "a.js".toList 0 = [] := by
  decide

end CspPolicy

end Omoikane.Js.Csp
