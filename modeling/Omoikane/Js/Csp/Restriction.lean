import Omoikane.Js.Csp.Matching

/-!
# Policies only restrict

A document allows a request when each of its policies does, so policies add up to
less than each of them allows.  A directive that is appended to a policy changes a
request only where it becomes the one that governs it.
-/

namespace Omoikane.Js.Csp

open Base Http

/-- A request that policies are asked about. -/
inductive Request where
  | inline (resourceType : ResourceType)
  | inlineSource (kind : InlineType) (source : Text) (nonce : Option Text)
  | inlineAttribute (resourceType : ResourceType)
  | url (resourceType : ResourceType) (url : Url) (redirects : Nat)
  | reference (resourceType : ResourceType) (reference : Text) (redirects : Nat)
  | unblocked (resourceType : ResourceType) (reference : Text) (redirects : Nat)
  | script (reference : Text) (redirects : Nat) (request : ScriptRequest)

/-- The directives that may govern a request. -/
def Request.chain : Request → List Text
  | .inline resourceType => fallbacks resourceType false
  | .inlineSource kind _ _ => fallbacks kind.resourceType kind.isAttribute
  | .inlineAttribute resourceType => fallbacks resourceType true
  | .url resourceType _ _ => fallbacks resourceType false
  | .reference resourceType _ _ => fallbacks resourceType false
  | .unblocked resourceType text _ =>
    fallbacks resourceType
      (resourceType == .style && Text.startsWith text "style-attribute:".toList)
  | .script _ _ _ => fallbacks .script false

/-- The directive of a policy that governs a request. -/
def ParsedPolicy.governing (policy : ParsedPolicy) (request : Request) : Option Text :=
  request.chain.find? fun name => (policy.directives.get name).isSome

section

variable (crate : UrlCrate) (hashes : HashCrates)

/-- Whether a document allows a request. -/
def CspPolicy.allows (policy : CspPolicy) : Request → Bool
  | .inline resourceType => policy.allowsInline hashes resourceType
  | .inlineSource kind source nonce => policy.allowsInlineSourceWithNonce hashes kind source nonce
  | .inlineAttribute resourceType => policy.allowsInlineAttribute hashes resourceType
  | .url resourceType url redirects => policy.allowsUrlAfterRedirects resourceType url redirects
  | .reference resourceType reference redirects =>
    policy.allowsReferenceAfterRedirects crate resourceType reference redirects
  | .unblocked resourceType reference redirects =>
    (policy.blockingPolicyTextsAfterRedirects crate hashes resourceType reference
      redirects).isEmpty
  | .script reference redirects request =>
    (policy.scriptPolicyViolations crate hashes reference redirects request false).isEmpty

/-- Whether one policy of a document with a base URL allows a request. -/
def ParsedPolicy.allows (baseUrl : Option Url) (request : Request) (policy : ParsedPolicy) : Bool :=
  match request with
  | .inline resourceType => policy.allowsInline hashes resourceType false
  | .inlineSource kind source nonce => policy.allowsInlineSource hashes kind (some source) nonce
  | .inlineAttribute resourceType => policy.allowsInline hashes resourceType true
  | .url resourceType url redirects =>
    policy.allowsUrl resourceType baseUrl (ResourceUrl.ofUrl url) redirects
  | .reference resourceType reference redirects =>
    (ResourceUrl.parse crate reference baseUrl).any fun url =>
      policy.allowsUrl resourceType baseUrl url redirects
  | .unblocked resourceType reference redirects =>
    !CspPolicy.violates crate hashes baseUrl resourceType reference redirects none policy
  | .script reference redirects request =>
    !CspPolicy.violates crate hashes baseUrl .script reference redirects (some request) policy

end

variable {crate : UrlCrate} {hashes : HashCrates}

/-! ## The conjunction -/

theorem isEmpty_filterMap_ite {α β : Type} (test : α → Bool) (value : α → β) (list : List α) :
    (list.filterMap fun item => if test item then some (value item) else none).isEmpty =
      list.all fun item => !test item := by
  induction list with
  | nil => rfl
  | cons item list ih =>
    rw [List.filterMap_cons, List.all_cons]
    cases test item with
    | true => rfl
    | false => exact ih

theorem CspPolicy.allows_eq_all (policy : CspPolicy) (request : Request) :
    policy.allows crate hashes request =
      policy.policies.all (ParsedPolicy.allows crate hashes policy.baseUrl request) := by
  cases request with
  | reference resourceType reference redirects =>
    unfold CspPolicy.allows CspPolicy.allowsReferenceAfterRedirects ParsedPolicy.allows
    dsimp only
    cases ResourceUrl.parse crate reference policy.baseUrl with
    | none => cases policy.policies <;> rfl
    | some url => rfl
  | unblocked resourceType reference redirects => exact isEmpty_filterMap_ite _ _ policy.policies
  | script reference redirects request => exact isEmpty_filterMap_ite _ _ policy.policies
  | _ => rfl

/-- The policies of one list of headers, and of the document. -/
theorem CspPolicy.allows_fromHeaders (headers : List Text) (document : Node) (baseUrl : Text)
    (request : Request) :
    (fromHeadersAndDocument crate headers document baseUrl).allows crate hashes request =
      ((headers.filterMap parsePolicy).all (ParsedPolicy.allows crate hashes
          (Url.fromStr crate baseUrl).toOption request) &&
        ((collectCspMetaContents [] document).filterMap parsePolicy).all (ParsedPolicy.allows crate
          hashes (Url.fromStr crate baseUrl).toOption request)) := by
  rw [allows_eq_all]
  exact List.all_append

/-! ## The governing directive -/

namespace ParsedPolicy

variable {p q : ParsedPolicy} {resourceType : ResourceType}

theorem allowsInlineSource_congr (hashes : HashCrates) (kind : InlineType)
    (h : p.sourcesFor kind.resourceType kind.isAttribute =
      q.sourcesFor kind.resourceType kind.isAttribute) (source nonce : Option Text) :
    p.allowsInlineSource hashes kind source nonce = q.allowsInlineSource hashes kind source nonce := by
  unfold allowsInlineSource
  rw [h]

theorem allowsInline_congr {isAttribute : Bool}
    (h : p.sourcesFor resourceType isAttribute = q.sourcesFor resourceType isAttribute) :
    p.allowsInline hashes resourceType isAttribute =
      q.allowsInline hashes resourceType isAttribute := by
  cases resourceType with
  | script =>
    cases isAttribute with
    | false => exact allowsInlineSource_congr hashes .script h none none
    | true => exact allowsInlineSource_congr hashes .scriptAttribute h none none
  | style =>
    cases isAttribute with
    | false => exact allowsInlineSource_congr hashes .style h none none
    | true => exact allowsInlineSource_congr hashes .styleAttribute h none none
  | _ => rfl

theorem allowsUrl_congr (h : p.sourcesFor resourceType false = q.sourcesFor resourceType false)
    (baseUrl : Option Url) (url : ResourceUrl) (redirects : Nat) :
    p.allowsUrl resourceType baseUrl url redirects =
      q.allowsUrl resourceType baseUrl url redirects := by
  unfold allowsUrl
  rw [h]

theorem allowsScriptRequest_congr (h : p.sourcesFor .script false = q.sourcesFor .script false)
    (baseUrl : Option Url) (url : Option ResourceUrl) (redirects : Nat) (request : ScriptRequest) :
    p.allowsScriptRequest baseUrl url redirects request =
      q.allowsScriptRequest baseUrl url redirects request := by
  have hnonce : p.allowsScriptNonce request.nonce = q.allowsScriptNonce request.nonce := by
    unfold allowsScriptNonce
    rw [h]
  unfold allowsScriptRequest
  rw [h, hnonce]
  simp only [allowsUrl_congr h]

/-- A policy allows a request by the sources of the directive that governs it. -/
theorem allows_congr {baseUrl : Option Url} {request : Request}
    (h : request.chain.findSome? p.directives.get = request.chain.findSome? q.directives.get) :
    p.allows crate hashes baseUrl request = q.allows crate hashes baseUrl request := by
  cases request with
  | inline resourceType => exact allowsInline_congr h
  | inlineSource kind source nonce => exact allowsInlineSource_congr hashes kind h (some source) nonce
  | inlineAttribute resourceType => exact allowsInline_congr h
  | url resourceType url redirects => exact allowsUrl_congr h _ _ _
  | reference resourceType reference redirects =>
    unfold allows
    simp only [allowsUrl_congr h]
  | script reference redirects request =>
    have hsources : p.sourcesFor .script false = q.sourcesFor .script false := h
    unfold allows CspPolicy.violates
    dsimp only
    simp only [hsources, allowsScriptRequest_congr hsources, allowsInline_congr hsources,
      Option.isNone_some, Bool.false_and,
      show (ResourceType.script == ResourceType.style) = false from rfl]
  | unblocked resourceType reference redirects =>
    unfold allows CspPolicy.violates
    dsimp only
    by_cases hattribute : (resourceType == .style &&
        Text.startsWith reference "style-attribute:".toList) = true
    · -- a style attribute is inline, and no URL is looked at
      have hinline : isInlineReference reference = true := by
        unfold isInlineReference
        rw [(Bool.and_eq_true_iff.mp hattribute).2, Bool.or_true]
      have hsources : p.sourcesFor resourceType true = q.sourcesFor resourceType true := by
        unfold Request.chain at h
        dsimp only at h
        rw [hattribute] at h
        exact h
      simp only [hattribute, hinline, hsources, allowsInline_congr hsources]
      rfl
    · rw [Bool.not_eq_true] at hattribute
      have hsources : p.sourcesFor resourceType false = q.sourcesFor resourceType false := by
        unfold Request.chain at h
        dsimp only at h
        rw [hattribute] at h
        exact h
      simp only [hattribute, hsources, allowsInline_congr hsources, allowsUrl_congr hsources]

/-- A request that is governed as before, or not at all, is allowed as before. -/
theorem findSome?_eq_of_governing {request : Request}
    (hkept : ∀ name sources, p.directives.get name = some sources →
      q.directives.get name = some sources)
    (hold : ∀ name, q.governing request = some name → (p.directives.get name).isSome) :
    request.chain.findSome? p.directives.get = request.chain.findSome? q.directives.get := by
  unfold governing at hold
  generalize request.chain = chain at hold ⊢
  induction chain with
  | nil => rfl
  | cons name chain ih =>
    rw [List.findSome?_cons, List.findSome?_cons]
    cases hp : p.directives.get name with
    | some sources => rw [hkept name sources hp]
    | none =>
      cases hq : q.directives.get name with
      | some sources =>
        have hsome : (q.directives.get name).isSome = true := by
          rw [hq]
          rfl
        have hfound := hold name (List.find?_cons_of_pos hsome)
        rw [hp] at hfound
        cases hfound
      | none =>
        have hnone : ¬ (q.directives.get name).isSome = true := by
          rw [hq]
          exact Bool.false_ne_true
        refine ih fun other hother => hold other ?_
        have hskip : (name :: chain).find? (fun name => (q.directives.get name).isSome) =
            chain.find? fun name => (q.directives.get name).isSome :=
          List.find?_cons_of_neg hnone
        exact hskip.trans hother

end ParsedPolicy

/-! ## Appended directives -/

theorem get_parseDirective_of_some {policy : ParsedPolicy} {name : Text}
    {sources : List SourceExpression} (h : policy.directives.get name = some sources)
    (directive : Text) : (parseDirective policy directive).directives.get name = some sources := by
  unfold parseDirective
  split
  · exact h
  next first values hwords =>
    dsimp only
    split
    · exact h
    next hnew =>
      have hne : name ≠ Text.toAsciiLowercase first := by
        rintro rfl
        rw [h] at hnew
        exact hnew rfl
      exact (Table.get_insert_of_ne _ hne _).trans h

/-- Further directives leave those before them. -/
theorem get_foldl_parseDirective {policy : ParsedPolicy} {name : Text}
    {sources : List SourceExpression} (h : policy.directives.get name = some sources)
    (directives : List Text) :
    (directives.foldl parseDirective policy).directives.get name = some sources := by
  induction directives generalizing policy with
  | nil => exact h
  | cons directive directives ih => exact ih (get_parseDirective_of_some h directive)

/-- The directives do not depend on the text they are serialized as. -/
theorem directives_foldl_congr {p q : ParsedPolicy} (h : p.directives = q.directives)
    (directives : List Text) :
    (directives.foldl parseDirective p).directives =
      (directives.foldl parseDirective q).directives := by
  induction directives generalizing p q with
  | nil => exact h
  | cons directive directives ih =>
    refine ih ?_
    unfold parseDirective
    split
    · exact h
    · dsimp only
      rw [h]
      split
      · exact h
      · rfl

/-- The directives of a policy stand in the longer one. -/
theorem get_parsePolicy_append {input added : Text} {parsed parsed' : ParsedPolicy}
    (h : parsePolicy input = some parsed)
    (h' : parsePolicy (input ++ ';' :: added) = some parsed') {name : Text}
    {sources : List SourceExpression} (hget : parsed.directives.get name = some sources) :
    parsed'.directives.get name = some sources := by
  unfold parsePolicy at h h'
  dsimp only at h h'
  split at h
  · cases h
  split at h'
  · cases h'
  cases h
  cases h'
  have hstart : (emptyPolicy (input ++ ';' :: added)).directives = (emptyPolicy input).directives :=
    rfl
  rw [Text.split_append, List.foldl_append]
  refine get_foldl_parseDirective ?_ _
  rw [directives_foldl_congr hstart]
  exact hget

/-- A policy is still one with more directives. -/
theorem parsePolicy_append_of_some {input : Text} {parsed : ParsedPolicy}
    (h : parsePolicy input = some parsed) (added : Text) :
    ∃ parsed', parsePolicy (input ++ ';' :: added) = some parsed' := by
  unfold parsePolicy at h ⊢
  dsimp only at h ⊢
  split at h
  next => cases h
  next hne =>
    cases h
    cases hdirectives : ((Text.split ';' input).foldl parseDirective (emptyPolicy input)).directives with
    | nil =>
      rw [hdirectives] at hne
      exact absurd rfl hne
    | cons entry rest =>
      have hget : ((Text.split ';' input).foldl parseDirective
          (emptyPolicy (input ++ ';' :: added))).directives.get entry.1 = some entry.2 := by
        have hstart : (emptyPolicy (input ++ ';' :: added)).directives =
            (emptyPolicy input).directives := rfl
        rw [directives_foldl_congr hstart, hdirectives, Table.get_cons, if_pos rfl]
      rw [Text.split_append, List.foldl_append]
      split
      next hempty =>
        have hget' := get_foldl_parseDirective hget (Text.split ';' added)
        rw [List.isEmpty_iff.mp hempty] at hget'
        cases hget'
      next => exact ⟨_, rfl⟩

/-- With more directives a policy allows what it allowed, or a new directive governs. -/
theorem allows_append (hashes : HashCrates) {input : Text} {parsed : ParsedPolicy} (h : parsePolicy input = some parsed)
    (added : Text) (baseUrl : Option Url) (request : Request) :
    ∃ parsed', parsePolicy (input ++ ';' :: added) = some parsed' ∧
      (parsed'.allows crate hashes baseUrl request = parsed.allows crate hashes baseUrl request ∨
        ∃ name, parsed'.governing request = some name ∧ parsed.directives.get name = none) := by
  obtain ⟨parsed', h'⟩ := parsePolicy_append_of_some h added
  refine ⟨parsed', h', ?_⟩
  by_cases hold : ∀ name, parsed'.governing request = some name →
      (parsed.directives.get name).isSome
  · have hkept : ∀ name sources, parsed.directives.get name = some sources →
        parsed'.directives.get name = some sources := fun _ _ => get_parsePolicy_append h h'
    exact .inl (ParsedPolicy.allows_congr
      (ParsedPolicy.findSome?_eq_of_governing hkept hold)).symm
  · obtain ⟨name, hname⟩ := Classical.not_forall.mp hold
    obtain ⟨hgoverns, hnew⟩ := Classical.not_imp.mp hname
    exact .inr ⟨name, hgoverns, Option.not_isSome_iff_eq_none.mp hnew⟩

namespace CspPolicy

/-- Crates that are not asked for a hash. -/
def noHashes : HashCrates where
  digest := fun _ bytes => bytes
  encode := fun _ => []

/-- A document without policies of its own. -/
def plainDocument : Node := .node 0 none [] []

end CspPolicy

end Omoikane.Js.Csp
