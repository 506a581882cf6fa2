import Omoikane.Http.HeaderEdits

/-!
# Redirects

Both redirect loops rebuild the request for every hop.  `Carries` says what a
request may take over from an earlier one: it is transitive, each step of the
loops respects it, and so it holds between any two hops of a run of the client
(`sendLoop_confined`).  The fields the client generates are never taken over.
-/

namespace Omoikane.Http

open Base

/-! ## What is carried -/

/-- The headers that hold credentials of the caller. -/
def HttpRequest.credentialHeaders (request : HttpRequest) : List (Text × Text) :=
  headersNamed request.headers "authorization".toList ++
    headersNamed request.headers "proxy-authorization".toList

/-- What a later request has from an earlier one. -/
structure Carries (previous next : HttpRequest) : Prop where
  /-- Credentials are those of before, and the origin has not changed. -/
  credentials : ∀ header ∈ next.credentialHeaders, header ∈ previous.credentialHeaders ∧
    Origin.fromUrl previous.url = Origin.fromUrl next.url
  requirePublicIp : previous.requirePublicIp = true → next.requirePublicIp = true
  storageAccess : next.storageAccessEligible = true → previous.storageAccessEligible = true ∧
    Origin.fromUrl previous.url = Origin.fromUrl next.url
  /-- A body is that of before, and the method has not changed. -/
  body : ∀ body, next.body = some body → previous.body = some body ∧ previous.method = next.method

/-- The fields that the client generates for a request: those of its URL and
body, of the cookie store, and some origins. -/
structure Generated (request : HttpRequest) (cookieHeader : Option Text) (origins : List Origin) :
    Prop where
  host : headersNamed request.headers "host".toList = [("Host".toList, request.url.authority)]
  contentLength : headersNamed request.headers "content-length".toList =
    (request.body.map fun body => ("Content-Length".toList, Text.ofNat body.length)).toList
  cookie : headersNamed request.headers "cookie".toList = cookieFields cookieHeader
  origin : ∀ header ∈ headersNamed request.headers "origin".toList,
    ∃ origin ∈ origins, header = ("Origin".toList, origin.serialize)

theorem Carries.trans {first second third : HttpRequest} (h : Carries first second)
    (h' : Carries second third) : Carries first third where
  credentials header hheader :=
    have hsecond := h'.credentials header hheader
    have hfirst := h.credentials header hsecond.1
    ⟨hfirst.1, hfirst.2.trans hsecond.2⟩
  requirePublicIp hfirst := h'.requirePublicIp (h.requirePublicIp hfirst)
  storageAccess hthird :=
    have hsecond := h'.storageAccess hthird
    have hfirst := h.storageAccess hsecond.1
    ⟨hfirst.1, hfirst.2.trans hsecond.2⟩
  body body hthird :=
    have hsecond := h'.body body hthird
    have hfirst := h.body body hsecond.1
    ⟨hfirst.1, hfirst.2.trans hsecond.2⟩

/-- An edit of other fields carries everything, both ways. -/
theorem Edits.carries {names : List String} {request edited : HttpRequest}
    (h : Edits names request edited) (hauthorization : isNamed "authorization".toList names = false)
    (hproxy : isNamed "proxy-authorization".toList names = false) :
    Carries request edited ∧ Carries edited request := by
  have hcredentials : edited.credentialHeaders = request.credentialHeaders := by
    unfold HttpRequest.credentialHeaders
    rw [h.headers _ hauthorization, h.headers _ hproxy]
  constructor
  · refine ⟨fun header hheader => ⟨hcredentials ▸ hheader, by rw [h.url]⟩, ?_, ?_, ?_⟩
    · rw [h.requirePublicIp]
      exact id
    · rw [h.storageAccessEligible, h.url]
      exact fun heligible => ⟨heligible, rfl⟩
    · rw [h.body, h.method]
      exact fun _ hbody => ⟨hbody, rfl⟩
  · refine ⟨fun header hheader => ⟨hcredentials ▸ hheader, by rw [h.url]⟩, ?_, ?_, ?_⟩
    · rw [h.requirePublicIp]
      exact id
    · rw [h.storageAccessEligible, h.url]
      exact fun heligible => ⟨heligible, rfl⟩
    · rw [h.body, h.method]
      exact fun _ hbody => ⟨hbody, rfl⟩

/-! ## The request of a redirect -/

/-- The headers that `add_header` accepts. -/
def validHeaders (headers : List (Text × Text)) : List (Text × Text) :=
  headers.filter fun header => isValidHeader header.1 header.2

theorem HttpRequest.copyHeaders_eq (next : HttpRequest) (headers : List (Text × Text))
    (copies : Text → Bool) :
    next.copyHeaders headers copies = { next with
      headers := next.headers ++ validHeaders (headers.filter fun header => copies header.1) } := by
  unfold copyHeaders
  generalize headers.filter (fun header => copies header.1) = copied
  induction copied generalizing next with
  | nil =>
    show next = { next with headers := next.headers ++ [] }
    rw [List.append_nil]
  | cons header copied ih =>
    have hvalidHeaders : validHeaders (header :: copied) =
        if isValidHeader header.1 header.2 then header :: validHeaders copied
        else validHeaders copied := List.filter_cons
    rw [List.foldl_cons, ih, addHeader, hvalidHeaders]
    split
    · simp only [List.append_assoc, List.singleton_append]
    · rfl

/-- The request to another URL, with the fields of `new` and the copied ones. -/
structure RedirectedTo (env : Environment) (request : HttpRequest) (method : Method) (url : Url)
    (requirePublicIp sameOrigin : Bool) (copies : Text → Bool) (next : HttpRequest) : Prop where
  url_eq : next.url = url
  method_eq : next.method = method
  body_eq : next.body = none
  requirePublicIp_eq : next.requirePublicIp = requirePublicIp
  storageAccess_eq : next.storageAccessEligible = (sameOrigin && request.storageAccessEligible)
  headers_eq : next.headers = (HttpRequest.new env.platform method url).headers ++
    validHeaders (request.headers.filter fun header => copies header.1)

theorem redirectedTo_spec (env : Environment) (request : HttpRequest) (method : Method) (url : Url)
    (requirePublicIp sameOrigin : Bool) (copies : Text → Bool) :
    RedirectedTo env request method url requirePublicIp sameOrigin copies
      (request.redirectedTo env method url requirePublicIp sameOrigin copies) := by
  unfold HttpRequest.redirectedTo
  dsimp only
  rw [HttpRequest.copyHeaders_eq]
  unfold HttpRequest.copyCookieContext
  cases request.siteForCookies with
  | none => exact ⟨rfl, rfl, rfl, rfl, rfl, rfl⟩
  | some site => exact ⟨rfl, rfl, rfl, rfl, rfl, rfl⟩

/-- A request whose generated fields are those of `new` and of its body. -/
structure Fresh (request : HttpRequest) : Prop where
  host : headersNamed request.headers "host".toList = [("Host".toList, request.url.authority)]
  contentLength : headersNamed request.headers "content-length".toList =
    (request.body.map fun body => ("Content-Length".toList, Text.ofNat body.length)).toList
  cookie : headersNamed request.headers "cookie".toList = []
  origin : headersNamed request.headers "origin".toList = []

/-- The names of the fields that a client generates for every request. -/
def internalNames : List String := ["host", "cookie", "content-length", "origin"]

theorem mem_headersNamed {headers : List (Text × Text)} {name : Text} {header : Text × Text} :
    header ∈ headersNamed headers name ↔
      header ∈ headers ∧ Text.eqIgnoreAsciiCase header.1 name = true := List.mem_filter

theorem mem_validHeaders {headers : List (Text × Text)} {header : Text × Text}
    (h : header ∈ validHeaders headers) : header ∈ headers := List.mem_of_mem_filter h

/-- No internal field is copied. -/
theorem headersNamed_copied_internal {request : HttpRequest} {copies : Text → Bool}
    {preserveBody sameOrigin : Bool}
    (hcopies : ∀ name, copies name = true → copyHeaderOnRedirect name preserveBody sameOrigin = true)
    {name : Text} (hname : isNamed name internalNames = true) :
    headersNamed (validHeaders (request.headers.filter fun header => copies header.1)) name = [] := by
  rw [List.eq_nil_iff_forall_not_mem]
  intro header hheader
  obtain ⟨hvalid, hnamed⟩ := mem_headersNamed.mp hheader
  have hcopied := hcopies header.1 (List.mem_filter.mp (mem_validHeaders hvalid)).2
  have hinternal : isNamed header.1 ["host", "cookie", "content-length", "origin"] = true :=
    (isNamed_congr hnamed internalNames).trans hname
  unfold copyHeaderOnRedirect at hcopied
  rw [if_pos hinternal] at hcopied
  cases hcopied

/-- Credentials are copied within an origin only. -/
theorem mem_credentialHeaders_copied {request : HttpRequest} {copies : Text → Bool}
    {preserveBody sameOrigin : Bool}
    (hcopies : ∀ name, copies name = true → copyHeaderOnRedirect name preserveBody sameOrigin = true)
    {name : Text} (hname : isNamed name ["authorization", "proxy-authorization"] = true)
    {header : Text × Text}
    (h : header ∈ headersNamed
      (validHeaders (request.headers.filter fun header => copies header.1)) name) :
    header ∈ headersNamed request.headers name ∧ sameOrigin = true := by
  obtain ⟨hvalid, hnamed⟩ := mem_headersNamed.mp h
  obtain ⟨hheader, hcopy⟩ := List.mem_filter.mp (mem_validHeaders hvalid)
  refine ⟨mem_headersNamed.mpr ⟨hheader, hnamed⟩, ?_⟩
  have hcopied := hcopies header.1 hcopy
  have hcredential : isNamed header.1 ["authorization", "proxy-authorization"] = true :=
    (isNamed_congr hnamed _).trans hname
  unfold copyHeaderOnRedirect at hcopied
  split at hcopied
  · cases hcopied
  · split at hcopied
    · exact hcopied
    · rw [hcredential, Bool.and_true] at hcopied
      cases sameOrigin with
      | true => rfl
      | false => exact absurd hcopied (by simp)

/-- A request with the body of another one, or without a body. -/
structure BodyCopied (next request : HttpRequest) (preserveBody : Bool) (last : HttpRequest) :
    Prop where
  url_eq : last.url = next.url
  method_eq : last.method = next.method
  requirePublicIp_eq : last.requirePublicIp = next.requirePublicIp
  storageAccess_eq : last.storageAccessEligible = next.storageAccessEligible
  body_eq : last.body = if preserveBody then request.body else none
  headers : ∀ name, Text.eqIgnoreAsciiCase "content-length".toList name = false →
    headersNamed last.headers name = headersNamed next.headers name
  contentLength : headersNamed next.headers "content-length".toList = [] →
    headersNamed last.headers "content-length".toList =
      (last.body.map fun body => ("Content-Length".toList, Text.ofNat body.length)).toList

theorem copyBody_spec {next : HttpRequest} (hbody : next.body = none) (request : HttpRequest)
    (preserveBody : Bool) :
    BodyCopied next request preserveBody (next.copyBody request preserveBody) := by
  unfold HttpRequest.copyBody
  cases hrequest : request.body with
  | none =>
    refine ⟨rfl, rfl, rfl, rfl, ?_, fun _ _ => rfl, fun hnone => ?_⟩
    · rw [hbody, hrequest, ite_self]
    · rw [hnone, hbody]
      rfl
  | some body =>
    cases preserveBody with
    | false =>
      refine ⟨rfl, rfl, rfl, rfl, hbody, fun _ _ => rfl, fun hnone => ?_⟩
      show headersNamed next.headers _ = (next.body.map _).toList
      rw [hnone, hbody]
      rfl
    | true =>
      refine ⟨rfl, rfl, rfl, rfl, hrequest.symm, fun name hname => ?_, fun _ => ?_⟩
      · show headersNamed (withoutHeader next.headers _ ++ _) name = _
        rw [headersNamed_append, headersNamed_withoutHeader_of_ne _ hname,
          headersNamed_singleton_of_ne, List.append_nil]
        rw [← hname]
        exact Text.eqIgnoreAsciiCase_congr_left (by decide) name
      · show headersNamed (withoutHeader next.headers _ ++ _) _ = _
        rw [headersNamed_append, headersNamed_withoutHeader_self _ (by decide)]
        rfl

/-- A request rebuilt for another URL carries no more than it may, and its
generated fields are fresh. -/
structure Rebuilt (request : HttpRequest) (url : Url) (requirePublicIp : Bool)
    (next : HttpRequest) : Prop where
  carries : Carries request next
  fresh : Fresh next
  url_eq : next.url = url
  requirePublicIp_eq : next.requirePublicIp = requirePublicIp

/-- What both loops do on a redirect. -/
theorem rebuilt {env : Environment} {request : HttpRequest} {method : Method} {url : Url}
    {requirePublicIp sameOrigin : Bool} {copies : Text → Bool} {edited : HttpRequest}
    (hcopies : ∀ name, copies name = true →
      copyHeaderOnRedirect name (method == request.method) sameOrigin = true)
    (hsame : sameOrigin = true → Origin.fromUrl request.url = Origin.fromUrl url)
    (hpublic : request.requirePublicIp = true → requirePublicIp = true)
    (hedits : Edits ["Referer"]
      (request.redirectedTo env method url requirePublicIp sameOrigin copies) edited) :
    Rebuilt request url requirePublicIp (edited.copyBody request (method == request.method)) := by
  have hnext := redirectedTo_spec env request method url requirePublicIp sameOrigin copies
  have hlast := copyBody_spec (hedits.body.trans hnext.body_eq) request (method == request.method)
  have hurl : (edited.copyBody request (method == request.method)).url = url := by
    rw [hlast.url_eq, hedits.url, hnext.url_eq]
  have hinternal : ∀ name, isNamed name internalNames = true →
      isNamed name ["Referer"] = false →
        headersNamed edited.headers name =
          headersNamed (HttpRequest.new env.platform method url).headers name := by
    intro name hname hreferer
    rw [hedits.headers name hreferer, hnext.headers_eq, headersNamed_append,
      headersNamed_copied_internal hcopies hname, List.append_nil]
  have hcredential : ∀ name, isNamed name ["authorization", "proxy-authorization"] = true →
      Text.eqIgnoreAsciiCase "content-length".toList name = false →
      isNamed name ["Referer"] = false →
      headersNamed (HttpRequest.new env.platform method url).headers name = [] →
      ∀ header ∈ headersNamed (edited.copyBody request (method == request.method)).headers name,
        header ∈ headersNamed request.headers name ∧ sameOrigin = true := by
    intro name hname hlength hreferer hnew header hheader
    rw [hlast.headers name hlength, hedits.headers name hreferer, hnext.headers_eq,
      headersNamed_append, hnew, List.nil_append] at hheader
    exact mem_credentialHeaders_copied hcopies hname hheader
  refine ⟨?_, ?_, hurl, ?_⟩
  · refine ⟨fun header hheader => ?_, fun hbefore => ?_, fun heligible => ?_, fun body hbody => ?_⟩
    · have hfrom : (header ∈ headersNamed request.headers "authorization".toList ∨
          header ∈ headersNamed request.headers "proxy-authorization".toList) ∧
            sameOrigin = true := by
        rcases List.mem_append.mp hheader with hm | hm
        · have h := hcredential _ (by decide) (by decide) (by decide) rfl header hm
          exact ⟨Or.inl h.1, h.2⟩
        · have h := hcredential _ (by decide) (by decide) (by decide) rfl header hm
          exact ⟨Or.inr h.1, h.2⟩
      rw [hurl]
      exact ⟨List.mem_append.mpr hfrom.1, hsame hfrom.2⟩
    · rw [hlast.requirePublicIp_eq, hedits.requirePublicIp, hnext.requirePublicIp_eq]
      exact hpublic hbefore
    · rw [hlast.storageAccess_eq, hedits.storageAccessEligible, hnext.storageAccess_eq,
        Bool.and_eq_true] at heligible
      rw [hurl]
      exact ⟨heligible.2, hsame heligible.1⟩
    · rw [hlast.body_eq] at hbody
      rw [hlast.method_eq, hedits.method, hnext.method_eq]
      split at hbody
      next hpreserve => exact ⟨hbody, (beq_iff_eq.mp hpreserve).symm⟩
      next => cases hbody
  · refine ⟨?_, hlast.contentLength ?_, ?_, ?_⟩
    · rw [hlast.headers _ (by decide), hinternal _ (by decide) (by decide), hurl]
      rfl
    · rw [hinternal _ (by decide) (by decide)]
      rfl
    · rw [hlast.headers _ (by decide), hinternal _ (by decide) (by decide)]
      rfl
    · rw [hlast.headers _ (by decide), hinternal _ (by decide) (by decide)]
      rfl
  · rw [hlast.requirePublicIp_eq, hedits.requirePublicIp, hnext.requirePublicIp_eq]

theorem Edits.applyReferrerSource (crate : UrlCrate) (request : HttpRequest)
    (source : Option (Option Text × ReferrerPolicy)) :
    Edits ["Referer"] request (request.applyReferrerSource crate source) := by
  unfold HttpRequest.applyReferrerSource
  split
  next _ referer policy =>
    have hremoved : Edits ["Referer"] request
        ({ request with referrerSource := some (referer, policy) }.removeHeader
          "Referer".toList) := by
      have hedits : Edits ["Referer"] { request with referrerSource := some (referer, policy) }
          ({ request with referrerSource := some (referer, policy) }.removeHeader
            "Referer".toList) := Edits.removeHeader (by decide) _
      exact ⟨hedits.url, hedits.method, hedits.body, hedits.requirePublicIp,
        hedits.storageAccessEligible, hedits.headers⟩
    unfold HttpRequest.setReferrerSource
    dsimp only
    split
    · exact hremoved
    · have hreferer : isNamed "Referer".toList ["Referer"] = true := by decide
      exact hremoved.trans (Edits.setHeader hreferer _ _)
  next => exact Edits.refl _ request

/-- A redirect of the client. -/
theorem followRedirect_rebuilt (env : Environment) (request : HttpRequest)
    (response : HttpResponse) (newUrl : Url) :
    Rebuilt request newUrl request.requirePublicIp
      (followRedirect env request response newUrl) := by
  refine rebuilt (fun name hname => ?_) (fun hsame => ?_) id
    (Edits.applyReferrerSource env.crate _ _)
  · exact (Bool.and_eq_true_iff.mp hname).2
  · simp only [Bool.and_eq_true, beq_iff_eq] at hsame
    exact Origin.fromUrl_eq_iff.mpr ⟨hsame.1.1, hsame.1.2, hsame.2⟩

/-! ## The runs of a client -/

/-- The fields a client generates for a fresh request. -/
theorem Fresh.generated {request sent : HttpRequest} (h : Fresh request)
    (hedits : Edits clientFields request sent) {cookieHeader : Option Text}
    (hcookie : headersNamed sent.headers "cookie".toList = cookieFields cookieHeader) :
    Generated sent cookieHeader [] where
  host := by
    rw [hedits.headers _ (by decide), hedits.url]
    exact h.host
  contentLength := by
    rw [hedits.headers _ (by decide), hedits.body]
    exact h.contentLength
  cookie := hcookie
  origin := by
    intro header hheader
    rw [hedits.headers _ (by decide), h.origin] at hheader
    cases hheader

/-- What holds of the hops of a run from a request on. -/
structure SendConfined (redirectsRemaining : Nat) (request : HttpRequest) (run : SendRun) :
    Prop where
  length_le : run.hops.length ≤ redirectsRemaining + 1
  carried : ∀ hop ∈ run.hops, Carries request hop.sent
  pairwise : run.hops.Pairwise fun earlier later => Carries earlier.sent later.sent
  generated : ∀ hop ∈ run.hops.tail, Generated hop.sent hop.cookieHeader []
  fresh : Fresh request → ∀ hop ∈ run.hops, Generated hop.sent hop.cookieHeader []

/-- A run of one hop. -/
theorem SendConfined.single (env : Environment) (redirectsRemaining : Nat) (world : World)
    (request : HttpRequest) {run : SendRun} (h : run.hops = [(world.sendHop env request).1]) :
    SendConfined redirectsRemaining request run := by
  obtain ⟨hedits, hcookie⟩ := world.sendHop_dispatch env request
  have hcarries := (hedits.carries (by decide) (by decide)).1
  refine ⟨?_, ?_, ?_, ?_, ?_⟩
  · rw [h, List.length_singleton]
    exact Nat.le_add_left 1 redirectsRemaining
  · intro hop hhop
    rw [h, List.mem_singleton] at hhop
    rw [hhop]
    exact hcarries
  · rw [h]
    exact List.pairwise_singleton _ _
  · intro hop hhop
    rw [h] at hhop
    cases hhop
  · intro hfresh hop hhop
    rw [h, List.mem_singleton] at hhop
    rw [hhop]
    exact hfresh.generated hedits (hcookie hfresh.cookie)

/-- A run that follows a redirect. -/
theorem SendConfined.cons {env : Environment} {redirectsRemaining : Nat} {world : World}
    {request : HttpRequest} {response : HttpResponse} {newUrl : Url} {rest : SendRun}
    (h : SendConfined redirectsRemaining
      (followRedirect env (world.sendHop env request).1.sent response newUrl) rest) :
    SendConfined (redirectsRemaining + 1) request
      { rest with hops := (world.sendHop env request).1 :: rest.hops } := by
  obtain ⟨hedits, hcookie⟩ := world.sendHop_dispatch env request
  obtain ⟨hnext, hfresh, -, -⟩ :=
    followRedirect_rebuilt env (world.sendHop env request).1.sent response newUrl
  have hcarries := (hedits.carries (by decide) (by decide)).1
  have hlater : ∀ hop ∈ rest.hops, Carries (world.sendHop env request).1.sent hop.sent :=
    fun hop hhop => hnext.trans (h.carried hop hhop)
  refine ⟨Nat.succ_le_succ h.length_le, ?_, List.pairwise_cons.mpr ⟨hlater, h.pairwise⟩,
    h.fresh hfresh, ?_⟩
  · intro hop hhop
    rcases List.mem_cons.mp hhop with rfl | hm
    · exact hcarries
    · exact hcarries.trans (hlater hop hm)
  · intro hrequest hop hhop
    rcases List.mem_cons.mp hhop with rfl | hm
    · exact hrequest.generated hedits (hcookie hrequest.cookie)
    · exact h.fresh hfresh hop hm

/-- Every run of the loop is confined, by induction on the redirects remaining. -/
theorem sendLoop_confined (env : Environment) (observe : Option NavigationObserver)
    (redirectsRemaining : Nat) : ∀ (world : World) (request : HttpRequest),
    SendConfined redirectsRemaining request
      (world.sendLoop env observe redirectsRemaining request) := by
  induction redirectsRemaining with
  | zero =>
    intro world request
    unfold World.sendLoop
    dsimp only
    split
    · exact .single env 0 world request rfl
    · split
      · exact .single env 0 world request rfl
      · split
        · exact .single env 0 world request rfl
        · exact .single env 0 world request rfl
  | succ redirectsRemaining ih =>
    intro world request
    unfold World.sendLoop
    dsimp only
    split
    · exact .single env _ world request rfl
    · split
      · exact .single env _ world request rfl
      · split
        · exact .single env _ world request rfl
        · split
          · exact .single env _ world request rfl
          · exact (ih _ _).cons

end Omoikane.Http
