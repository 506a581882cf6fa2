import Omoikane.Base.Run
import Omoikane.Http.FetchRedirects
import Omoikane.Http.PreflightApprovals

/-!
# The CORS gate

Once a fetch in CORS mode has left the origin of its document, it sends what
needs a preflight only after one, and returns a response only if the responses
since then allow the origin that was sent (`cors_gate`).

The hops before a hop decide what is asked of it, so the properties of a run are
stated of each hop and the hops before it (`Run.Along` over `past ++ [hop]`).
-/

namespace Omoikane.Http

open Base

/-! ## Taint -/

/-- A hop was at another origin than that of the document. -/
def CrossOriginSeen (origin : Origin) (hops : List Hop) : Prop :=
  ∃ hop ∈ hops, origin.isSameOrigin hop.request.url = false

/-- The URLs of hops. -/
def urlsOf (hops : List Hop) : List Url := hops.map fun hop => hop.request.url

namespace FetchPolicy

/-- A redirect from a URL that is not of the document's origin to another origin. -/
def leaves (policy : FetchPolicy) (url next : Url) : Bool :=
  !policy.origin.isSameOrigin url && Origin.fromUrl url ≠ Origin.fromUrl next

/-- Some redirect on the way left an origin that is not the document's. -/
def taints (policy : FetchPolicy) : List Url → Bool
  | url :: next :: urls => policy.leaves url next || policy.taints (next :: urls)
  | _ => false

/-- The origin that is sent to the last of some URLs. -/
def sentOrigin (policy : FetchPolicy) (urls : List Url) : Origin :=
  if policy.taints urls then .opaqueOrigin else policy.origin

theorem taints_append (policy : FetchPolicy) (urls : List Url) (url next : Url) :
    policy.taints (urls ++ [url, next]) =
      (policy.taints (urls ++ [url]) || policy.leaves url next) := by
  induction urls with
  | nil => simp [taints]
  | cons first urls ih =>
    cases urls with
    | nil => simp [taints]
    | cons second urls =>
      have hfirst : ∀ more, policy.taints (first :: second :: urls ++ more) =
          (policy.leaves first second || policy.taints (second :: urls ++ more)) :=
        fun _ => rfl
      rw [hfirst, hfirst, ih, Bool.or_assoc]

theorem sentOrigin_append (policy : FetchPolicy) (urls : List Url) (url next : Url) :
    policy.sentOrigin (urls ++ [url, next]) =
      if policy.leaves url next then .opaqueOrigin else policy.sentOrigin (urls ++ [url]) := by
  unfold sentOrigin
  rw [taints_append]
  cases policy.taints (urls ++ [url]) <;> cases policy.leaves url next <;> rfl

end FetchPolicy

/-! ## The gate -/

/-- A hop whose request was cleared for a key: by its own preflight, or by an
earlier approval that is still valid. -/
inductive Hop.ClearedBy (env : Environment) (approvals : List Approval) (key : PreflightCacheKey)
    (hop : Hop) : Prop where
  | preflight (approval : Approval) (dispatch : Dispatch)
      (clearance : hop.clearance = .approved approval dispatch)
      (given : dispatch.given = preflightRequest env hop.request key)
      (reply : dispatch.reply = .ok approval.response) (key_eq : approval.key = key)
  | cached (now : Nat) (approval : Approval) (clearance : hop.clearance = .cached key now)
      (mem : approval ∈ approvals) (key_eq : approval.key = key) (fresh : now < approval.expires)

/-- What is sent has the method, the URL and the unsafe headers of a request; the
client may add its cookies. -/
structure SentFor (request sent : HttpRequest) : Prop where
  url : sent.url = request.url
  method : sent.method = request.method
  headers : ∀ header ∈ sent.headers, isCorsUnsafeHeader header = true →
    header ∈ request.headers ∨ Text.eqIgnoreAsciiCase header.1 "cookie".toList = true

/-- What is sent after the origin of the document was left: it names the origin,
and a request that needs a preflight was cleared for it. -/
def Gated (env : Environment) (policy : FetchPolicy) (approvals : List Approval)
    (past : List Hop) (hop : Hop) : Prop :=
  policy.mode = .cors → CrossOriginSeen policy.origin (past ++ [hop]) →
  ∀ dispatch, hop.dispatch = some dispatch →
    let origin := policy.sentOrigin (urlsOf (past ++ [hop]))
    SentFor hop.request dispatch.sent ∧
    headersNamed dispatch.sent.headers "origin".toList = [("Origin".toList, origin.serialize)] ∧
    (NeedsPreflight hop.request → hop.ClearedBy env (approvals ++ approvalsOf past)
      (preflightKey hop.request origin policy.credentials))

/-- The response of a hop after the origin of the document was left allows the
origin that was sent. -/
def Allowed (policy : FetchPolicy) (past : List Hop) (hop : Hop) : Prop :=
  CrossOriginSeen policy.origin (past ++ [hop]) →
  ∃ dispatch response, hop.dispatch = some dispatch ∧ dispatch.reply = .ok response ∧
    corsCheck response (policy.sentOrigin (urlsOf (past ++ [hop]))) policy.credentials = .ok ()

/-- The unsafe headers are not among those the client sets, but for the cookies. -/
theorem isNamed_clientFields {header : Text × Text} (hother : isCorsUnsafeHeader header = true)
    (hcookie : Text.eqIgnoreAsciiCase header.1 "cookie".toList = false) :
    isNamed header.1 clientFields = false := by
  have hagent : Text.eqIgnoreAsciiCase header.1 "user-agent".toList = false := by
    have hautomatic : isAutomaticHeader header.1 = false := by
      simpa using (Bool.and_eq_true_iff.mp hother).1
    simp only [isAutomaticHeader, isNamed, List.any_cons, Bool.or_eq_false_iff] at hautomatic
    exact hautomatic.2.1
  have hcase : ∀ {listed other : Text}, Text.eqIgnoreAsciiCase listed other = true →
      Text.eqIgnoreAsciiCase header.1 other = false →
        Text.eqIgnoreAsciiCase header.1 listed = false := by
    intro listed other hsame hother
    rw [Text.eqIgnoreAsciiCase_comm, Text.eqIgnoreAsciiCase_congr_left hsame,
      Text.eqIgnoreAsciiCase_comm]
    exact hother
  have hagentField : Text.eqIgnoreAsciiCase header.1 "User-Agent".toList = false :=
    hcase (by decide) hagent
  have hcookieField : Text.eqIgnoreAsciiCase header.1 "Cookie".toList = false :=
    hcase (by decide) hcookie
  rw [isNamed, clientFields, List.any_cons, List.any_cons, List.any_nil, hagentField,
    hcookieField]
  rfl

theorem Edits.sentFor {request sent : HttpRequest} (h : Edits clientFields request sent) :
    SentFor request sent := by
  refine ⟨h.url, h.method, fun header hheader hother => ?_⟩
  cases hcookie : Text.eqIgnoreAsciiCase header.1 "cookie".toList with
  | true => exact Or.inr rfl
  | false =>
    left
    have hmem : header ∈ headersNamed sent.headers header.1 :=
      mem_headersNamed.mpr ⟨hheader, Text.eqIgnoreAsciiCase_refl _⟩
    rw [h.headers _ (isNamed_clientFields hother hcookie)] at hmem
    exact (mem_headersNamed.mp hmem).1

/-- A tainted hop in CORS mode names the origin. -/
theorem FetchPolicy.headersNamed_prepare {policy : FetchPolicy} (hmode : policy.mode = .cors)
    (corsOrigin : Origin) (request : HttpRequest) :
    headersNamed (policy.prepare true corsOrigin request).headers "origin".toList =
      [("Origin".toList, corsOrigin.serialize)] := by
  have hset : policy.prepare true corsOrigin request =
      request.setHeader "Origin".toList corsOrigin.serialize := by
    unfold FetchPolicy.prepare
    rw [hmode]
    simp
  rw [hset]
  exact HttpRequest.headersNamed_setHeader request (by decide) corsOrigin.isValidHeader_serialize

/-- A preflight that does not fail clears the request. -/
theorem PreflightResult.clearedBy {env : Environment} {request : HttpRequest} {origin : Origin}
    {credentials : CredentialsMode} {cache : PreflightCache} {preflighted : Preflighted}
    (hresult : PreflightResult env request origin credentials cache preflighted)
    (hok : preflighted.result = .ok ()) (hneeded : NeedsPreflight request)
    {approvals : List Approval} (h : Justified cache approvals) {hop : Hop}
    (hrequest : hop.request = request) (hclearance : hop.clearance = preflighted.clearance) :
    hop.ClearedBy env approvals (preflightKey request origin credentials) := by
  cases hresult with
  | notNeeded unneeded => exact absurd hneeded unneeded
  | cached now expires mem fresh =>
    obtain ⟨approval, happroval, hkey, hexpires⟩ := h _ mem
    refine .cached now approval hclearance happroval hkey ?_
    rw [hexpires]
    exact fresh
  | refused => cases hok
  | approved approval world key reply =>
    refine .preflight approval _ hclearance ?_ reply key
    rw [hrequest]
    rfl

/-! ## Runs -/

/-- What the state of a fetch says of the hops before it. -/
structure Tracks (policy : FetchPolicy) (approvals : List Approval) (past : List Hop)
    (state : FetchState) : Prop where
  seen : state.crossOriginSeen = true ↔ CrossOriginSeen policy.origin past
  origin : state.corsOrigin = policy.sentOrigin (urlsOf past ++ [state.request.url])
  cache : Justified state.cache (approvals ++ approvalsOf past)
  mode : policy.mode = .sameOrigin → state.crossOriginSeen = false

namespace Tracks

variable {env : Environment} {policy : FetchPolicy} {approvals : List Approval} {past : List Hop}
  {state : FetchState} {hop : Hop}

theorem enter_url (policy : FetchPolicy) (state : FetchState) :
    (policy.enter state).request.url = state.request.url :=
  (policy.prepare_prepared _ _ _).url

/-- A hop is tainted if it or one before it is at another origin. -/
theorem enter_seen (h : Tracks policy approvals past state)
    (hurl : hop.request.url = state.request.url) :
    (policy.enter state).crossOriginSeen = true ↔ CrossOriginSeen policy.origin (past ++ [hop]) := by
  show (state.crossOriginSeen || !policy.origin.isSameOrigin state.request.url) = true ↔ _
  rw [Bool.or_eq_true, h.seen, Bool.not_eq_true', ← hurl]
  constructor
  · rintro (⟨earlier, hearlier, hcross⟩ | hcross)
    · exact ⟨earlier, List.mem_append_left _ hearlier, hcross⟩
    · exact ⟨hop, List.mem_append_right _ (List.mem_singleton_self _), hcross⟩
  · rintro ⟨earlier, hearlier, hcross⟩
    rcases List.mem_append.mp hearlier with hm | hm
    · exact Or.inl ⟨earlier, hm, hcross⟩
    · rw [List.mem_singleton.mp hm] at hcross
      exact Or.inr hcross

/-- The origin the state holds is the one sent to the hop. -/
theorem sentOrigin_eq (h : Tracks policy approvals past state)
    (hurl : hop.request.url = state.request.url) :
    policy.sentOrigin (urlsOf (past ++ [hop])) = state.corsOrigin := by
  rw [h.origin, urlsOf, List.map_append, List.map_cons, List.map_nil, hurl]
  rfl

theorem gated (h : Tracks policy approvals past state)
    (hclear : (policy.cleared env state).result = .ok ()) :
    Gated env policy approvals past (policy.sentHop env state) := by
  intro hmode hcross dispatch hdispatch
  have hurl : (policy.sentHop env state).request.url = state.request.url := enter_url policy state
  have hseen := (h.enter_seen hurl).mpr hcross
  have hedits := ((policy.sentHop_hopOf env state).sent dispatch hdispatch).1
  dsimp only
  rw [h.sentOrigin_eq hurl]
  refine ⟨hedits.sentFor, ?_, fun hneeded => ?_⟩
  · rw [hedits.headers _ (by decide)]
    show headersNamed (policy.prepare (policy.enter state).crossOriginSeen state.corsOrigin
      state.request).headers _ = _
    rw [hseen]
    exact FetchPolicy.headersNamed_prepare hmode state.corsOrigin state.request
  · have hcors : ((policy.enter state).crossOriginSeen && decide (policy.mode = .cors)) = true := by
      rw [hseen, hmode]
      rfl
    have hcleared : policy.cleared env state = ensurePreflight env (policy.enter state).world
        (policy.enter state).request state.corsOrigin policy.credentials state.cache := if_pos hcors
    have hresult : PreflightResult env (policy.enter state).request state.corsOrigin
        policy.credentials state.cache (policy.cleared env state) := by
      rw [hcleared]
      exact ensurePreflight_result _
    exact hresult.clearedBy hclear hneeded h.cache rfl rfl

theorem allowed (h : Tracks policy approvals past state) (hmode : policy.mode = .cors)
    {response : HttpResponse} (passes : policy.Passes env state response) :
    Allowed policy past (policy.sentHop env state) := by
  intro hcross
  have hurl : (policy.sentHop env state).request.url = state.request.url := enter_url policy state
  refine ⟨_, response, rfl, passes.reply, ?_⟩
  rw [h.sentOrigin_eq hurl]
  exact passes.check ((h.enter_seen hurl).mpr hcross) hmode

/-- In same-origin mode no hop is tainted. -/
theorem enter_mode (h : Tracks policy approvals past state) {response : HttpResponse}
    (passes : policy.Passes env state response) (hmode : policy.mode = .sameOrigin) :
    (policy.enter state).crossOriginSeen = false := by
  show (state.crossOriginSeen || !policy.origin.isSameOrigin state.request.url) = false
  rw [h.mode hmode, passes.mode hmode]
  rfl

theorem follow (h : Tracks policy approvals past state) {response : HttpResponse}
    (passes : policy.Passes env state response) (violations : List CorpViolation)
    (unrestrictedOrigin : Option Origin) (url : Url) :
    Tracks policy approvals (past ++ [policy.sentHop env state])
      (policy.follow env unrestrictedOrigin (policy.afterHop env state violations) response
        url) where
  seen := h.enter_seen (enter_url policy state)
  origin := by
    have hurl : (policy.sentHop env state).request.url = state.request.url := enter_url policy state
    have hnext : (policy.follow env unrestrictedOrigin (policy.afterHop env state violations)
        response url).request.url = url := (redirectedRequest_rebuilt ..).url_eq
    have hurls : urlsOf (past ++ [policy.sentHop env state]) ++ [url] =
        urlsOf past ++ [state.request.url, url] := by
      rw [urlsOf, List.map_append, List.append_assoc, List.map_cons, List.map_nil, hurl]
      rfl
    rw [hnext, hurls, FetchPolicy.sentOrigin_append, ← h.origin, ← enter_url policy state]
    rfl
  cache := by
    have hclearance : (policy.sentHop env state).clearance =
        (policy.cleared env state).clearance := rfl
    have hcache := FetchPolicy.cleared_justified h.cache hclearance
    rw [List.append_assoc, ← approvalsOf_append] at hcache
    exact hcache
  mode := h.enter_mode passes

end Tracks

/-- What holds of the hops of a fetch after others. -/
structure GatedRun (env : Environment) (policy : FetchPolicy) (approvals : List Approval)
    (past : List Hop) (run : FetchRun) : Prop where
  gated : Run.Along (fun past hop => past ++ [hop]) (Gated env policy approvals) past run.hops
  allowed : policy.mode = .cors → ∀ fetched, run.result = .ok fetched →
    Run.Along (fun past hop => past ++ [hop]) (Allowed policy) past run.hops
  cors : ∀ fetched, run.result = .ok fetched → fetched.responseType = .cors → policy.mode = .cors
  basic : ∀ fetched, run.result = .ok fetched → fetched.responseType = .basic →
    ¬ CrossOriginSeen policy.origin (past ++ run.hops)

namespace FetchPolicy

variable {env : Environment} {policy : FetchPolicy} {approvals : List Approval} {past : List Hop}

/-- A run without a response of which only the hops are known. -/
theorem gatedRun_error {run : FetchRun} {error : CorsError} (hresult : run.result = .error error)
    (hgated : Run.Along (fun past hop => past ++ [hop]) (Gated env policy approvals) past
      run.hops) : GatedRun env policy approvals past run := by
  refine ⟨hgated, fun _ fetched hok => ?_, fun fetched hok => ?_, fun fetched hok => ?_⟩ <;>
  · rw [hresult] at hok
    cases hok

theorem responseType_cors {seen : Bool} (h : policy.responseType seen = .cors) :
    policy.mode = .cors := by
  unfold responseType at h
  split at h
  · cases h
  · split at h
    next hcors =>
      rw [Bool.and_eq_true, decide_eq_true_eq] at hcors
      exact hcors.2
    next => cases h

/-- A basic response of a tainted fetch would be one in same-origin mode. -/
theorem responseType_basic (h : policy.responseType true = .basic) :
    policy.mode = .sameOrigin := by
  unfold responseType at h
  cases hmode : policy.mode with
  | sameOrigin => rfl
  | cors =>
    rw [hmode] at h
    cases h
  | noCors =>
    rw [hmode] at h
    cases h

theorem loop_gated {unrestrictedOrigin : Option Origin} {initialUrl : Text} (remaining : Nat)
    (state : FetchState) : ∀ past, Tracks policy approvals past state →
      GatedRun env policy approvals past
        (policy.loop env unrestrictedOrigin initialUrl remaining state) := by
  refine FetchPolicy.loop_induct (P := fun _ state run => ∀ past,
    Tracks policy approvals past state → GatedRun env policy approvals past run)
    ?_ ?_ ?_ remaining state
  · intro remaining state run hresult past h
    cases hresult with
    | refused error => exact gatedRun_error rfl trivial
    | uncleared error clear =>
      refine gatedRun_error rfl ⟨?_, trivial⟩
      intro _ _ dispatch hdispatch
      cases hdispatch
    | failed clear error violations => exact gatedRun_error rfl ⟨h.gated clear, trivial⟩
    | fetched clear response passes violations fetched responseType =>
      have htype : ∀ other : FetchResponse, (Except.ok fetched : Except CorsError _) = .ok other →
          other.responseType ≠ .opaqueRedirect →
            other.responseType = policy.responseType (policy.enter state).crossOriginSeen := by
        intro other hother hne
        cases hother
        exact responseType.resolve_left hne
      refine ⟨⟨h.gated clear, trivial⟩, fun hmode _ _ => ⟨h.allowed hmode passes, trivial⟩,
        fun other hother hcors => ?_, fun other hother hbasic => ?_⟩
      · have heq := htype other hother (by rw [hcors]; exact ResponseType.noConfusion)
        exact responseType_cors (heq.symm.trans hcors)
      · intro hcross
        have heq := htype other hother (by rw [hbasic]; exact ResponseType.noConfusion)
        have hseen := (h.enter_seen (Tracks.enter_url policy state)).mpr hcross
        rw [hseen] at heq
        have hsame := h.enter_mode passes (responseType_basic (heq.symm.trans hbasic))
        rw [hseen] at hsame
        cases hsame
  · intro remaining state hop response state' error hresult past h
    cases hresult with
    | redirect clear response passes violations =>
      exact gatedRun_error rfl ⟨h.gated clear, trivial⟩
  · intro remaining state hop response state' url rest hresult hrest past h
    cases hresult with
    | redirect clear response passes violations =>
      have hnext := hrest _ (h.follow passes violations unrestrictedOrigin url)
      refine ⟨⟨h.gated clear, hnext.gated⟩, fun hmode fetched hfetched => ?_, hnext.cors, ?_⟩
      · exact ⟨h.allowed hmode passes, hnext.allowed hmode fetched hfetched⟩
      · intro fetched hfetched hbasic
        have hnone := hnext.basic fetched hfetched hbasic
        rw [List.append_assoc] at hnone
        exact hnone

end FetchPolicy

/-- A fetch in CORS mode that has left the origin of its document sends a request
that needs a preflight only after a successful one for its key, or under an
approval that is still valid.  A CORS response is returned only if every response
since then allowed the origin that was sent, and a basic one only if the origin
was never left. -/
theorem cors_gate (env : Environment) (policy : FetchPolicy) (world : World)
    (request : HttpRequest) (built : BuiltCache) (violations : List CorpViolation) :
    let run := fetchWithPolicy env policy world request built.cache violations
    (∀ before hop after, run.hops = before ++ hop :: after →
      Gated env policy built.approvals before hop) ∧
    (∀ fetched, run.result = .ok fetched → fetched.responseType = .cors →
      ∀ before hop after, run.hops = before ++ hop :: after → Allowed policy before hop) ∧
    (∀ fetched, run.result = .ok fetched → fetched.responseType = .basic →
      ∀ hop ∈ run.hops, policy.origin.isSameOrigin hop.request.url = true) := by
  intro run
  have hrun : GatedRun env policy built.approvals [] run := by
    refine FetchPolicy.loop_gated _ _ [] ⟨?_, rfl, ?_, fun _ => rfl⟩
    · constructor
      · intro hseen
        cases hseen
      · rintro ⟨hop, hhop, -⟩
        cases hhop
    · have hjustified := built.built.justified
      exact hjustified.mono (List.subset_append_left ..)
  refine ⟨fun before hop after heq => ?_, fun fetched hfetched hcors before hop after heq => ?_,
    fun fetched hfetched hbasic hop hhop => ?_⟩
  · have hgated := hrun.gated
    rw [heq] at hgated
    exact hgated.at_prefix
  · have hallowed := hrun.allowed (hrun.cors fetched hfetched hcors) fetched hfetched
    rw [heq] at hallowed
    exact hallowed.at_prefix
  · rw [← Bool.not_eq_false]
    intro hcross
    exact hrun.basic fetched hfetched hbasic ⟨hop, hhop, hcross⟩

end Omoikane.Http
