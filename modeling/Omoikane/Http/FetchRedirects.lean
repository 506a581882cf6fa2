import Omoikane.Http.FetchHops
import Omoikane.Http.Redirects

/-!
# Redirects of a fetch

The hops of a fetch are confined as those of the client are, and their preflights
with them (`redirects_confined`).
-/

namespace Omoikane.Http

open Base

/-! ## Preparing a request -/

/-- The names of the automatic headers. -/
def automaticNames : List String :=
  ["host", "user-agent", "accept-language", "accept-encoding", "content-length", "origin"]

/-- Headers are removed, but no automatic ones. -/
structure Removes (request removed : HttpRequest) : Prop where
  rest : removed = { request with headers := removed.headers }
  sublist : removed.headers.Sublist request.headers
  automatic : ∀ name, isNamed name automaticNames = true →
    headersNamed removed.headers name = headersNamed request.headers name

theorem Removes.foldl {names : List Text} (h : ∀ name ∈ names, isNamed name automaticNames = false)
    (request : HttpRequest) : Removes request (names.foldl HttpRequest.removeHeader request) := by
  induction names generalizing request with
  | nil => exact ⟨rfl, List.Sublist.refl _, fun _ _ => rfl⟩
  | cons removed names ih =>
    have hrest := ih (fun name hname => h name (List.mem_cons_of_mem _ hname))
      (request.removeHeader removed)
    rw [List.foldl_cons]
    refine ⟨hrest.rest, hrest.sublist.trans List.filter_sublist, fun name hname => ?_⟩
    rw [hrest.automatic name hname]
    refine headersNamed_withoutHeader_of_ne request.headers ?_
    rw [Bool.eq_false_iff]
    intro hsame
    have hremoved := h removed (List.mem_cons_self ..)
    rw [isNamed_congr hsame, hname] at hremoved
    cases hremoved

theorem isNamed_of_mem_corsUnsafeHeaderNames {request : HttpRequest} {name : Text}
    (h : name ∈ corsUnsafeHeaderNames request) : isNamed name automaticNames = false := by
  obtain ⟨header, -, hother, rfl⟩ := mem_corsUnsafeHeaderNames.mp h
  have hautomatic : isNamed header.1 automaticNames = false := by
    have hnot := (Bool.and_eq_true_iff.mp hother).1
    simpa [isAutomaticHeader, automaticNames] using hnot
  rw [← hautomatic]
  exact isNamed_congr (by simp [Text.eqIgnoreAsciiCase]) automaticNames

/-- What `prepare` leaves of a request. -/
structure PreparedRequest (request : HttpRequest) (corsOrigin : Origin) (prepared : HttpRequest) :
    Prop where
  url : prepared.url = request.url
  body : prepared.body = request.body
  carries : Carries request prepared
  automatic : ∀ name, isNamed name automaticNames = true →
    Text.eqIgnoreAsciiCase "origin".toList name = false →
      headersNamed prepared.headers name = headersNamed request.headers name
  cookie : headersNamed request.headers "cookie".toList = [] →
    headersNamed prepared.headers "cookie".toList = []
  origin : headersNamed prepared.headers "origin".toList =
      headersNamed request.headers "origin".toList ∨
    headersNamed prepared.headers "origin".toList = [("Origin".toList, corsOrigin.serialize)]

theorem Removes.prepared {request removed : HttpRequest} (h : Removes request removed)
    (corsOrigin : Origin) : PreparedRequest request corsOrigin removed where
  url := by rw [h.rest]
  body := by rw [h.rest]
  carries := by
    have hsubset : ∀ header ∈ removed.credentialHeaders, header ∈ request.credentialHeaders := by
      have hsublist : removed.credentialHeaders.Sublist request.credentialHeaders :=
        (h.sublist.filter _).append (h.sublist.filter _)
      exact fun header hheader => hsublist.subset hheader
    have hrest := h.rest
    refine ⟨fun header hheader => ⟨hsubset header hheader, ?_⟩, ?_, ?_, ?_⟩
    · rw [hrest]
    · rw [hrest]
      exact id
    · rw [hrest]
      exact fun heligible => ⟨heligible, rfl⟩
    · rw [hrest]
      exact fun _ hbody => ⟨hbody, rfl⟩
  automatic name hname _ := h.automatic name hname
  cookie hnone := by
    have hsublist : (headersNamed removed.headers "cookie".toList).Sublist
        (headersNamed request.headers "cookie".toList) := h.sublist.filter _
    rw [hnone] at hsublist
    exact List.sublist_nil.mp hsublist
  origin := Or.inl (h.automatic _ (by decide))

theorem PreparedRequest.setOrigin {request removed : HttpRequest} {corsOrigin : Origin}
    (h : PreparedRequest request corsOrigin removed) :
    PreparedRequest request corsOrigin (removed.setHeader "Origin".toList corsOrigin.serialize) := by
  have hedits : Edits ["Origin"] removed
      (removed.setHeader "Origin".toList corsOrigin.serialize) := Edits.setHeader (by decide) _ _
  refine ⟨hedits.url.trans h.url, hedits.body.trans h.body, h.carries.trans (hedits.carries (by decide) (by decide)).1,
    fun name hname hother => ?_, fun hnone => ?_, Or.inr ?_⟩
  · rw [hedits.headers name ?_, h.automatic name hname hother]
    rw [isNamed, List.any_cons, List.any_nil, Bool.or_false, ← hother, Text.eqIgnoreAsciiCase_comm]
    exact Text.eqIgnoreAsciiCase_congr_left (by decide) name
  · rw [hedits.headers _ (by decide)]
    exact h.cookie hnone
  · exact HttpRequest.headersNamed_setHeader removed (by decide) corsOrigin.isValidHeader_serialize

theorem FetchPolicy.prepare_prepared (policy : FetchPolicy) (crossOriginSeen : Bool)
    (corsOrigin : Origin) (request : HttpRequest) :
    PreparedRequest request corsOrigin (policy.prepare crossOriginSeen corsOrigin request) := by
  have hremoved : PreparedRequest request corsOrigin
      (if !policy.origin.isSameOrigin request.url && policy.mode = .noCors then
        (corsUnsafeHeaderNames request).foldl HttpRequest.removeHeader request
      else request) := by
    split
    · exact (Removes.foldl (fun _ => isNamed_of_mem_corsUnsafeHeaderNames) request).prepared _
    · exact (⟨rfl, List.Sublist.refl _, fun _ _ => rfl⟩ : Removes request request).prepared _
  unfold FetchPolicy.prepare
  revert hremoved
  generalize (if !policy.origin.isSameOrigin request.url && policy.mode = .noCors then
    (corsUnsafeHeaderNames request).foldl HttpRequest.removeHeader request else request) = removed
  intro hremoved
  dsimp only
  split
  · exact hremoved.setOrigin
  · exact hremoved

/-! ## Preflights -/

/-- The exchange of a preflight, if there was one. -/
def Clearance.dispatch : Clearance → Option Dispatch
  | .approved _ dispatch => some dispatch
  | .refused dispatch => some dispatch
  | .notNeeded | .cached _ _ => none

/-- What is sent for a preflight: no credentials, under the address policy of the request. -/
structure PreflightFor (request sent : HttpRequest) : Prop where
  url : sent.url = request.url
  requirePublicIp : sent.requirePublicIp = request.requirePublicIp
  credentials : sent.credentialHeaders = []

/-- The fields of a preflight request. -/
def preflightFields : List String :=
  ["Origin", "Access-Control-Request-Method", "Access-Control-Request-Headers"]

theorem preflightRequest_edits (env : Environment) (request : HttpRequest)
    (key : PreflightCacheKey) :
    Edits preflightFields
      { HttpRequest.new env.platform .options request.url with
        requirePublicIp := request.requirePublicIp }
      (preflightRequest env request key) := by
  have horigin : isNamed "Origin".toList preflightFields = true := by decide
  have hmethod : isNamed "Access-Control-Request-Method".toList preflightFields = true := by decide
  have hheaders : isNamed "Access-Control-Request-Headers".toList preflightFields = true := by
    decide
  have hfirst := (Edits.setHeader horigin { HttpRequest.new env.platform .options request.url with
    requirePublicIp := request.requirePublicIp } key.requestOrigin.serialize).trans
      (Edits.setHeader hmethod _ key.method)
  unfold preflightRequest
  dsimp only
  split
  · exact hfirst
  · exact hfirst.trans (Edits.setHeader hheaders _ _)

theorem preflightRequest_sent {env : Environment} {request sent : HttpRequest}
    {key : PreflightCacheKey} (h : Edits clientFields (preflightRequest env request key) sent) :
    PreflightFor request sent := by
  have hedits := preflightRequest_edits env request key
  refine ⟨h.url.trans hedits.url, h.requirePublicIp.trans hedits.requirePublicIp, ?_⟩
  unfold HttpRequest.credentialHeaders
  rw [h.headers _ (by decide), h.headers _ (by decide), hedits.headers _ (by decide),
    hedits.headers _ (by decide)]
  rfl

theorem ensurePreflight_dispatch {env : Environment} {request : HttpRequest} {origin : Origin}
    {credentials : CredentialsMode} {cache : PreflightCache} {preflighted : Preflighted}
    (hresult : PreflightResult env request origin credentials cache preflighted)
    {dispatch : Dispatch} (h : preflighted.clearance.dispatch = some dispatch) :
    PreflightFor request dispatch.sent := by
  cases hresult with
  | notNeeded => cases h
  | cached => cases h
  | refused error now world =>
    cases h
    exact preflightRequest_sent (world.sendOnce_dispatch env _ false).1
  | approved approval world key reply =>
    cases h
    exact preflightRequest_sent (world.sendOnce_dispatch env _ false).1

/-! ## Hops -/

/-- What is sent for a hop. -/
structure HopOf (policy : FetchPolicy) (state : FetchState) (hop : Hop) : Prop where
  request : hop.request = (policy.enter state).request
  sent : ∀ dispatch, hop.dispatch = some dispatch →
    Edits clientFields hop.request dispatch.sent ∧
      headersNamed dispatch.sent.headers "cookie".toList = cookieFields dispatch.cookieHeader
  preflight : ∀ dispatch, hop.clearance.dispatch = some dispatch →
    PreflightFor hop.request dispatch.sent

namespace FetchPolicy

theorem cleared_dispatch (env : Environment) (policy : FetchPolicy) (state : FetchState)
    {dispatch : Dispatch} (h : (policy.cleared env state).clearance.dispatch = some dispatch) :
    PreflightFor (policy.enter state).request dispatch.sent := by
  unfold cleared clear at h
  split at h
  · exact ensurePreflight_dispatch (ensurePreflight_result _) h
  · cases h

theorem sentHop_hopOf (env : Environment) (policy : FetchPolicy) (state : FetchState) :
    HopOf policy state (policy.sentHop env state) where
  request := rfl
  sent dispatch h := by
    cases h
    exact World.sendOnce_dispatch env _ _ _
  preflight _ h := cleared_dispatch env policy state h

theorem unsentHop_hopOf (env : Environment) (policy : FetchPolicy) (state : FetchState) :
    HopOf policy state (policy.unsentHop env state) where
  request := rfl
  sent _ h := by cases h
  preflight _ h := cleared_dispatch env policy state h

end FetchPolicy

/-! ## Runs -/

/-- The origins a fetch may send. -/
def FetchPolicy.origins (policy : FetchPolicy) : List Origin := [policy.origin, .opaqueOrigin]

/-- A request that stays under the address policy outside an origin. -/
def Restricted (unrestrictedOrigin : Option Origin) (request : HttpRequest) : Prop :=
  ∀ initial, unrestrictedOrigin = some initial → initial ≠ Origin.fromUrl request.url →
    request.requirePublicIp = true

/-- What a hop sends has only generated fields. -/
def Hop.IsGenerated (policy : FetchPolicy) (hop : Hop) : Prop :=
  ∀ dispatch, hop.dispatch = some dispatch →
    Generated dispatch.sent dispatch.cookieHeader policy.origins

/-- A redirect of a fetch. -/
theorem redirectedRequest_rebuilt (env : Environment) (request : HttpRequest) (status : Nat)
    (nextUrl : Url) (unrestrictedOrigin : Option Origin) :
    Rebuilt request nextUrl
      (request.requirePublicIp ||
        unrestrictedOrigin.any fun initial => initial ≠ Origin.fromUrl nextUrl)
      (redirectedRequest env request status nextUrl unrestrictedOrigin) := by
  refine rebuilt (fun _ => id) (fun hsame => beq_iff_eq.mp hsame) (fun hbefore => ?_)
    (Edits.refl _ _)
  rw [hbefore]
  rfl

theorem redirectedRequest_restricted (env : Environment) (request : HttpRequest) (status : Nat)
    (nextUrl : Url) (unrestrictedOrigin : Option Origin) :
    Restricted unrestrictedOrigin
      (redirectedRequest env request status nextUrl unrestrictedOrigin) := by
  have hnext := redirectedRequest_rebuilt env request status nextUrl unrestrictedOrigin
  intro initial hinitial hne
  rw [hnext.url_eq] at hne
  rw [hnext.requirePublicIp_eq, hinitial, Option.any_some, decide_eq_true hne, Bool.or_true]

theorem PreparedRequest.restricted {unrestrictedOrigin : Option Origin}
    {request prepared : HttpRequest} {corsOrigin : Origin}
    (h : PreparedRequest request corsOrigin prepared)
    (hrequest : Restricted unrestrictedOrigin request) :
    Restricted unrestrictedOrigin prepared := by
  intro initial hinitial hne
  rw [h.url] at hne
  exact h.carries.requirePublicIp (hrequest initial hinitial hne)

/-- What holds of the hops of a fetch from a state on. -/
structure FetchConfined (policy : FetchPolicy) (unrestrictedOrigin : Option Origin)
    (remaining : Nat) (state : FetchState) (run : FetchRun) : Prop where
  length_le : run.hops.length ≤ remaining + 1
  sound : ∀ hop ∈ run.hops, ∃ state, HopOf policy state hop
  carried : ∀ hop ∈ run.hops, Carries state.request hop.request
  pairwise : run.hops.Pairwise fun earlier later => Carries earlier.request later.request
  restricted : Restricted unrestrictedOrigin state.request →
    ∀ hop ∈ run.hops, Restricted unrestrictedOrigin hop.request
  generated : state.corsOrigin ∈ policy.origins → ∀ hop ∈ run.hops.tail, hop.IsGenerated policy
  fresh : state.corsOrigin ∈ policy.origins → Fresh state.request →
    ∀ hop ∈ run.hops, hop.IsGenerated policy

theorem HopOf.prepared {policy : FetchPolicy} {state : FetchState} {hop : Hop}
    (h : HopOf policy state hop) : PreparedRequest state.request state.corsOrigin hop.request := by
  rw [h.request]
  exact policy.prepare_prepared _ _ _

/-- A fresh request is sent with generated fields only. -/
theorem HopOf.isGenerated {policy : FetchPolicy} {state : FetchState} {hop : Hop}
    (h : HopOf policy state hop) (horigin : state.corsOrigin ∈ policy.origins)
    (hfresh : Fresh state.request) : hop.IsGenerated policy := by
  intro dispatch hdispatch
  obtain ⟨hedits, hcookie⟩ := h.sent dispatch hdispatch
  have hprepared := h.prepared
  refine ⟨?_, ?_, hcookie, ?_⟩
  · rw [hedits.headers _ (by decide), hedits.url, hprepared.url,
      hprepared.automatic _ (by decide) (by decide)]
    exact hfresh.host
  · rw [hedits.headers _ (by decide), hedits.body, hprepared.body,
      hprepared.automatic _ (by decide) (by decide)]
    exact hfresh.contentLength
  · intro header hheader
    rw [hedits.headers _ (by decide)] at hheader
    rcases hprepared.origin with hsame | hset
    · rw [hsame, hfresh.origin] at hheader
      cases hheader
    · rw [hset, List.mem_singleton] at hheader
      exact ⟨state.corsOrigin, horigin, hheader⟩

namespace FetchConfined

variable {policy : FetchPolicy} {unrestrictedOrigin : Option Origin} {remaining : Nat}
  {state : FetchState} {run : FetchRun} {hop : Hop}

theorem nil (h : run.hops = []) : FetchConfined policy unrestrictedOrigin remaining state run := by
  have hnone : ∀ hop : Hop, hop ∉ run.hops := by
    rw [h]
    exact fun _ => List.not_mem_nil
  refine ⟨?_, fun hop hm => absurd hm (hnone hop), fun hop hm => absurd hm (hnone hop), ?_,
    fun _ hop hm => absurd hm (hnone hop), ?_, fun _ _ hop hm => absurd hm (hnone hop)⟩
  · rw [h]
    exact Nat.zero_le _
  · rw [h]
    exact List.Pairwise.nil
  · intro _ hop hm
    exact absurd (List.mem_of_mem_tail hm) (hnone hop)

/-- A hop before those of the rest. -/
theorem cons {next : FetchState}
    (h : FetchConfined policy unrestrictedOrigin remaining next run)
    (hhop : HopOf policy state hop) (hnext : Carries hop.request next.request)
    (hfresh : Fresh next.request) (hrestricted : Restricted unrestrictedOrigin next.request)
    (horigin : next.corsOrigin = state.corsOrigin ∨ next.corsOrigin = .opaqueOrigin) :
    FetchConfined policy unrestrictedOrigin (remaining + 1) state
      { run with hops := hop :: run.hops } := by
  have hcarries : Carries state.request hop.request := hhop.prepared.carries
  have hlater : ∀ later ∈ run.hops, Carries hop.request later.request :=
    fun later hm => hnext.trans (h.carried later hm)
  have horigins : state.corsOrigin ∈ policy.origins → next.corsOrigin ∈ policy.origins := by
    intro hstate
    rcases horigin with heq | heq
    · rw [heq]
      exact hstate
    · rw [heq]
      exact List.mem_cons_of_mem _ (List.mem_singleton_self _)
  refine ⟨Nat.succ_le_succ h.length_le, ?_, ?_, List.pairwise_cons.mpr ⟨hlater, h.pairwise⟩, ?_,
    fun hstate => h.fresh (horigins hstate) hfresh, ?_⟩
  · intro other hother
    rcases List.mem_cons.mp hother with rfl | hm
    · exact ⟨state, hhop⟩
    · exact h.sound other hm
  · intro other hother
    rcases List.mem_cons.mp hother with rfl | hm
    · exact hcarries
    · exact hcarries.trans (hlater other hm)
  · intro hstate other hother
    rcases List.mem_cons.mp hother with rfl | hm
    · exact hhop.prepared.restricted hstate
    · exact h.restricted hrestricted other hm
  · intro hstate hrequest other hother
    rcases List.mem_cons.mp hother with rfl | hm
    · exact hhop.isGenerated hstate hrequest
    · exact h.fresh (horigins hstate) hfresh other hm

/-- The only hop of a run. -/
theorem single (hhop : HopOf policy state hop) (h : run.hops = [hop]) :
    FetchConfined policy unrestrictedOrigin remaining state run := by
  refine ⟨?_, ?_, ?_, ?_, ?_, ?_, ?_⟩
  · rw [h, List.length_singleton]
    exact Nat.le_add_left 1 remaining
  · intro other hother
    rw [h, List.mem_singleton] at hother
    exact ⟨state, hother ▸ hhop⟩
  · intro other hother
    rw [h, List.mem_singleton] at hother
    rw [hother]
    exact hhop.prepared.carries
  · rw [h]
    exact List.pairwise_singleton _ _
  · intro hstate other hother
    rw [h, List.mem_singleton] at hother
    rw [hother]
    exact hhop.prepared.restricted hstate
  · intro _ other hother
    rw [h] at hother
    cases hother
  · intro hstate hrequest other hother
    rw [h, List.mem_singleton] at hother
    rw [hother]
    exact hhop.isGenerated hstate hrequest

end FetchConfined

/-- Every run of the loop of a fetch is confined. -/
theorem FetchPolicy.loop_confined (env : Environment) (policy : FetchPolicy)
    (unrestrictedOrigin : Option Origin) (initialUrl : Text) (remaining : Nat)
    (state : FetchState) :
    FetchConfined policy unrestrictedOrigin remaining state
      (policy.loop env unrestrictedOrigin initialUrl remaining state) := by
  refine FetchPolicy.loop_induct ?_ ?_ ?_ remaining state
  · intro remaining state run hresult
    cases hresult with
    | refused error => exact .nil rfl
    | uncleared error clear => exact .single (policy.unsentHop_hopOf env state) rfl
    | failed clear error violations => exact .single (policy.sentHop_hopOf env state) rfl
    | fetched clear response passes violations fetched responseType =>
      exact .single (policy.sentHop_hopOf env state) rfl
  · intro remaining state hop response state' error hresult
    cases hresult with
    | redirect clear response passes violations =>
      exact .single (policy.sentHop_hopOf env state) rfl
  · intro remaining state hop response state' url rest hresult hrest
    cases hresult with
    | redirect clear response passes violations =>
      have hnext := redirectedRequest_rebuilt env (policy.enter state).request
        response.statusCode url unrestrictedOrigin
      refine hrest.cons (policy.sentHop_hopOf env state) hnext.carries hnext.fresh
        (redirectedRequest_restricted env _ _ _ _) ?_
      unfold FetchPolicy.follow
      dsimp only
      split
      · exact Or.inr rfl
      · exact Or.inl rfl

/-! ## Confinement -/

/-- All requests of a hop, its preflight among them. -/
def Hop.sentRequests (hop : Hop) : List HttpRequest :=
  (hop.clearance.dispatch.toList ++ hop.dispatch.toList).map Dispatch.sent

/-- What a later hop has from an earlier one. -/
structure Hop.CarriesTo (earlier later : Hop) : Prop where
  sent : ∀ first, earlier.dispatch = some first → ∀ second, later.dispatch = some second →
    Carries first.sent second.sent
  /-- The preflight of a later hop is under the address policy too. -/
  preflight : ∀ first, earlier.dispatch = some first → first.sent.requirePublicIp = true →
    ∀ request ∈ later.sentRequests, request.requirePublicIp = true

/-- The preflight of a hop is under its address policy, and has no credentials. -/
def Hop.PreflightAgrees (hop : Hop) : Prop :=
  ∀ preflight, hop.clearance.dispatch = some preflight →
    preflight.sent.credentialHeaders = [] ∧
    ∀ dispatch, hop.dispatch = some dispatch →
      preflight.sent.requirePublicIp = dispatch.sent.requirePublicIp

namespace HopOf

variable {policy : FetchPolicy} {state : FetchState} {hop : Hop}

/-- A hop is sent with what its request carries. -/
theorem carries (h : HopOf policy state hop) {dispatch : Dispatch}
    (hdispatch : hop.dispatch = some dispatch) :
    Carries hop.request dispatch.sent ∧ Carries dispatch.sent hop.request :=
  (h.sent dispatch hdispatch).1.carries (by decide) (by decide)

/-- All requests of a hop have its URL and its address policy. -/
theorem of_mem_sentRequests (h : HopOf policy state hop) {request : HttpRequest}
    (hrequest : request ∈ hop.sentRequests) :
    request.url = hop.request.url ∧ request.requirePublicIp = hop.request.requirePublicIp := by
  obtain ⟨dispatch, hdispatch, rfl⟩ := List.mem_map.mp hrequest
  rcases List.mem_append.mp hdispatch with hm | hm
  · have hpreflight := h.preflight dispatch (Option.mem_toList.mp hm)
    exact ⟨hpreflight.url, hpreflight.requirePublicIp⟩
  · have hedits := (h.sent dispatch (Option.mem_toList.mp hm)).1
    exact ⟨hedits.url, hedits.requirePublicIp⟩

theorem preflightAgrees (h : HopOf policy state hop) : hop.PreflightAgrees := by
  intro preflight hpreflight
  have hfor := h.preflight preflight hpreflight
  refine ⟨hfor.credentials, fun dispatch hdispatch => ?_⟩
  rw [hfor.requirePublicIp, (h.sent dispatch hdispatch).1.requirePublicIp]

theorem carriesTo {later : Hop} {state' : FetchState} (h : HopOf policy state hop)
    (hlater : HopOf policy state' later) (hcarries : Carries hop.request later.request) :
    hop.CarriesTo later where
  sent _ hfirst _ hsecond := ((h.carries hfirst).2.trans hcarries).trans (hlater.carries hsecond).1
  preflight _ hfirst hpublic _ hrequest := by
    rw [(hlater.of_mem_sentRequests hrequest).2]
    exact ((h.carries hfirst).2.trans hcarries).requirePublicIp hpublic

end HopOf

end Omoikane.Http
