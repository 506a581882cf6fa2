import Omoikane.Http.CookieIntegrity

/-!
# The scope of a cookie

A cookie goes back only where it was set for.  Every cookie in a reachable jar
has a write in the history that put it there (`Stored`), and whatever a later
read returns is confined to the scope that write gave it (`Confined`).

The invariant is `Prepared`, on the cookie and the context of its write.  A read
adds the filter of `CookieQuery.selects`, and `Confined` follows from the two.

The names and values of stored cookies have no separators, so the reader of a
cookie text finds the selected cookies in it, in order (`cookies_read_back`).
-/

namespace Omoikane.Http

open Base

/-! ## Where a cookie comes from -/

/-- One of the operations stored the cookie: it was not in the jar before that
operation, and it was afterwards. -/
def Stored (psl : Psl) (ops : List JarOp) (cookie : Cookie) (context : StoreContext) : Prop :=
  ∃ before op after submission,
    ops = before ++ op :: after ∧ op.submission psl = some submission ∧
      submission.context = context ∧
      cookie ∉ (reachableJar psl before).cookies.map Prod.fst ∧
      cookie ∈ (reachableJar psl (before ++ [op])).cookies.map Prod.fst

/-- What holds of a stored cookie and the context it was stored in. -/
structure Provenance (psl : Psl) (ops : List JarOp) (cookie : Cookie) (context : StoreContext) :
    Prop where
  stored : Stored psl ops cookie context
  prepared : Prepared psl context cookie
  name_noEquals : '=' ∉ cookie.name
  name_noSemicolon : ';' ∉ cookie.name
  value_noSemicolon : ';' ∉ cookie.value

/-- Every cookie of a reachable jar has a provenance. -/
theorem provenance_of_mem {psl : Psl} {ops : List JarOp} {cookie : Cookie}
    (h : cookie ∈ (reachableJar psl ops).cookies.map Prod.fst) :
    ∃ context, Provenance psl ops cookie context := by
  obtain ⟨before, op, after, hops, hbefore, hafter⟩ :=
    Run.first_step (P := fun jar : CookieJar => cookie ∈ jar.cookies.map Prod.fst) ops
      (by simp [CookieJar.new]) h
  obtain ⟨entry, hentry, hcookie⟩ := List.mem_map.mp hafter
  rcases JarOp.mem_apply_cookies hentry with hold | ⟨s, prepared, createdAt, hs, hprep, heq⟩
  · exact absurd (List.mem_map.mpr ⟨entry, hold, hcookie⟩) hbefore
  · obtain ⟨hfixed, -, hprepared⟩ := prepareCookieForStorage_some hprep
    obtain ⟨-, hname, hsemi, hvalue⟩ := JarOp.submission_cookie hs
    have hcookie' : cookie = { prepared with createdAt } := hcookie.symm.trans heq
    have hn : cookie.name = s.cookie.name := by rw [hcookie', hfixed]
    have hv : cookie.value = s.cookie.value := by rw [hcookie', hfixed]
    refine ⟨s.context, ⟨before, op, after, s, hops, hs, rfl, hbefore, ?_⟩, ?_, ?_, ?_, ?_⟩
    · rw [reachableJar, Run.run_append]
      exact hafter
    · rw [hcookie']
      exact hprepared.withCreatedAt createdAt
    · rwa [hn]
    · rwa [hn]
    · rwa [hv]

/-! ## Confinement -/

/-- A read with `query` may see a cookie that was stored in `context`. -/
structure Confined (psl : Psl) (query : CookieQuery) (cookie : Cookie) (context : StoreContext) :
    Prop where
  host : Text.eqIgnoreAsciiCase query.url.host context.originUrl.host = true ∨
    ∃ domain, cookie.domain = some domain ∧ isPublicSuffix psl domain = false ∧
      DomainMatch context.originUrl.host domain ∧ DomainMatch query.url.host domain
  path : ∃ path, cookie.path = some path ∧ PathMatch query.url.path path
  secure : cookie.secure = true → SecureTransport query.url
  partitioned : cookie.partitioned = true →
    query.access.topLevelSite.isSome ∧ query.access.topLevelSite = context.access.topLevelSite
  script : query.nonHttp = true → cookie.httpOnly = false

/-- What the filter of a read says, one question at a time. -/
theorem CookieQuery.selects_true {psl : Psl} {query : CookieQuery} {cookie : Cookie}
    (h : query.selects psl cookie = true) :
    query.access.permits cookie = true ∧ cookie.isExpired query.now = false ∧
      cookie.matchesUrl query.url = true ∧ (query.nonHttp = true → cookie.httpOnly = false) := by
  unfold selects at h
  simp only [Bool.and_eq_true, Bool.not_eq_true'] at h
  obtain ⟨⟨⟨⟨hpermits, hexpired⟩, hmatches⟩, hscript⟩, -⟩ := h
  refine ⟨hpermits, hexpired, hmatches, fun hq => ?_⟩
  simpa [hq] using hscript

/-- The host part of `matches_url`, for a cookie that was prepared. -/
theorem Prepared.host_confined {psl : Psl} {context : StoreContext} {cookie : Cookie} {url : Url}
    (hp : Prepared psl context cookie) (hm : cookie.matchesUrl url = true) :
    Text.eqIgnoreAsciiCase url.host context.originUrl.host = true ∨
      ∃ domain, cookie.domain = some domain ∧ isPublicSuffix psl domain = false ∧
        DomainMatch context.originUrl.host domain ∧ DomainMatch url.host domain := by
  simp only [Cookie.matchesUrl, Bool.and_eq_true] at hm
  obtain ⟨⟨hhost, -⟩, -⟩ := hm
  rcases hp.domain with ⟨honly, hdomain⟩ | ⟨honly, domain, hdomain, hsuffix, horigin⟩
  · left
    rw [hdomain] at hhost
    simp only [honly, if_true] at hhost
    rw [Text.eqIgnoreAsciiCase_iff] at hhost ⊢
    rwa [Text.toAsciiLowercase_idem] at hhost
  · right
    rw [hdomain] at hhost
    simp only [honly, Bool.false_eq_true, if_false] at hhost
    exact ⟨domain, hdomain, hsuffix, domainMatches_iff.mp horigin, domainMatches_iff.mp hhost⟩

/-- The path part of `matches_url`, for a cookie that was prepared. -/
theorem Prepared.path_confined {psl : Psl} {context : StoreContext} {cookie : Cookie} {url : Url}
    (hp : Prepared psl context cookie) (hm : cookie.matchesUrl url = true) :
    ∃ path, cookie.path = some path ∧ PathMatch url.path path := by
  simp only [Cookie.matchesUrl, Bool.and_eq_true] at hm
  obtain ⟨⟨-, hpath⟩, -⟩ := hm
  obtain ⟨path, hsome⟩ := hp.path
  rw [hsome] at hpath
  exact ⟨path, hsome, pathMatches_iff.mp hpath⟩

/-- A selected cookie is confined to the scope of its write. -/
theorem Prepared.confined {psl : Psl} {context : StoreContext} {cookie : Cookie}
    {query : CookieQuery} (hp : Prepared psl context cookie)
    (hq : query.selects psl cookie = true) : Confined psl query cookie context := by
  obtain ⟨hpermits, -, hmatches, hscript⟩ := CookieQuery.selects_true hq
  refine ⟨hp.host_confined hmatches, hp.path_confined hmatches, ?_, ?_, hscript⟩
  · intro hs
    rw [← secureCookieTransport_iff]
    simp only [Cookie.matchesUrl, Bool.and_eq_true] at hmatches
    simpa [hs] using hmatches.2
  · intro hpart
    obtain ⟨-, -, hkey⟩ := hp.partitioned hpart
    simp only [CookieAccessContext.permits, hpart, if_true, Bool.and_eq_true, beq_iff_eq]
      at hpermits
    exact ⟨hpermits.1, hpermits.2.symm.trans hkey⟩

/-! ## The three reads -/

/-- A pair of a cookie text, which can be told apart from its neighbours, that
belongs to a confined cookie. -/
def ConfinedPair (psl : Psl) (ops : List JarOp) (query : CookieQuery) (pair : Text × Text) : Prop :=
  '=' ∉ pair.1 ∧ ';' ∉ pair.1 ∧ ';' ∉ pair.2 ∧
    ∃ cookie context, pair = (cookie.name, cookie.value) ∧ Stored psl ops cookie context ∧
      Confined psl query cookie context

theorem confinedPair_of_mem {psl : Psl} {ops : List JarOp} {query : CookieQuery}
    {pair : Text × Text} (h : pair ∈ (reachableJar psl ops).matchingPairs psl query) :
    ConfinedPair psl ops query pair := by
  obtain ⟨cookie, hmem, rfl⟩ := List.mem_map.mp h
  obtain ⟨hjar, hselects⟩ := CookieJar.mem_matchingCookies.mp hmem
  obtain ⟨context, hprov⟩ := provenance_of_mem hjar
  exact ⟨hprov.name_noEquals, hprov.name_noSemicolon, hprov.value_noSemicolon, cookie, context,
    rfl, hprov.stored, hprov.prepared.confined hselects⟩

/-- The text of a list of pairs; `none` for no pairs. -/
def pairsText (pairs : List (Text × Text)) : Option Text :=
  if pairs = [] then none else some (Text.join "; ".toList (pairs.map CookieJar.pairText))

theorem CookieJar.cookieString_eq (psl : Psl) (jar : CookieJar) (query : CookieQuery) :
    jar.cookieString psl query = pairsText (jar.matchingPairs psl query) := by
  simp [cookieString, pairsText]

/-- Whatever the jar has been through, each of its reads returns pairs that were
stored by a write whose scope covers the read. -/
theorem reads_confined (psl : Psl) (ops : List JarOp) (url siteForCookies : Url)
    (topLevelNavigation : Bool) (method : Method) (access : CookieAccessContext)
    (now : SystemTime) :
    (∃ pairs, (reachableJar psl ops).cookieHeaderForRequestWithAccess psl url siteForCookies
        topLevelNavigation method access now = pairsText pairs ∧
      ∀ pair ∈ pairs, ConfinedPair psl ops
        { url, siteForCookies, topLevelNavigation, method, nonHttp := false, access, now } pair) ∧
    (∃ pairs, (reachableJar psl ops).documentCookieWithAccess psl url siteForCookies access now =
        (pairsText pairs).getD [] ∧
      ∀ pair ∈ pairs, ConfinedPair psl ops (.script url siteForCookies access now) pair) ∧
    (∀ pair ∈ (reachableJar psl ops).scriptVisibleCookiePairsWithAccess psl url siteForCookies
        access now,
      ConfinedPair psl ops (.script url siteForCookies access now) pair) := by
  refine ⟨⟨_, CookieJar.cookieString_eq .., fun pair h => confinedPair_of_mem h⟩,
    ⟨_, ?_, fun pair h => confinedPair_of_mem h⟩, fun pair h => confinedPair_of_mem h⟩
  rw [CookieJar.documentCookieWithAccess, CookieJar.cookieString_eq]

/-! ## A cookie text read back -/

/-- The pairs of a cookie text, as its reader tells them apart: at each `;` with a space behind
it, and each at its first `=`. -/
def pairsOfText (text : Text) : List (Text × Text) :=
  let pieces := Text.split ';' text
  (pieces.take 1 ++ (pieces.drop 1).map (List.drop 1)).map fun piece =>
    (Text.splitOnce '=' piece).getD (piece, [])

theorem split_join : ∀ {pieces : List Text}, pieces ≠ [] → (∀ piece ∈ pieces, ';' ∉ piece) →
    Text.split ';' (Text.join "; ".toList pieces) =
      pieces.take 1 ++ (pieces.drop 1).map (' ' :: ·)
  | [piece], _, h => Text.split_eq_singleton (h piece (List.mem_singleton_self _))
  | piece :: next :: rest, _, h => by
    obtain ⟨hpiece, hrest⟩ := List.forall_mem_cons.mp h
    have ih := split_join (List.cons_ne_nil next rest) hrest
    have hspace : Text.split ';' (' ' :: Text.join "; ".toList (next :: rest)) =
        (' ' :: next) :: rest.map (' ' :: ·) := by
      rw [Text.split, List.splitOnP_cons_eq_if_modifyHead, if_neg (by decide)]
      exact congrArg (List.modifyHead (' ' :: ·)) ih
    rw [Text.join, List.append_assoc]
    show Text.split ';' (piece ++ ';' :: ' ' :: Text.join "; ".toList (next :: rest)) = _
    rw [Text.split_append, Text.split_eq_singleton hpiece, hspace]
    rfl

/-- Pairs that can be told apart are. -/
theorem pairsOfText_join {pairs : List (Text × Text)} (hne : pairs ≠ [])
    (h : ∀ pair ∈ pairs, '=' ∉ pair.1 ∧ ';' ∉ pair.1 ∧ ';' ∉ pair.2) :
    pairsOfText (Text.join "; ".toList (pairs.map CookieJar.pairText)) = pairs := by
  have hpieces : ∀ piece ∈ pairs.map CookieJar.pairText, ';' ∉ piece := by
    intro piece hpiece
    obtain ⟨pair, hpair, rfl⟩ := List.mem_map.mp hpiece
    obtain ⟨-, hname, hvalue⟩ := h pair hpair
    simp [CookieJar.pairText, hname, hvalue]
  have hread : ∀ pair ∈ pairs,
      (Text.splitOnce '=' (CookieJar.pairText pair)).getD (CookieJar.pairText pair, []) = pair := by
    intro pair hpair
    have hsplit : Text.splitOnce '=' (CookieJar.pairText pair) = some pair :=
      Text.splitOnce_eq_some.mpr ⟨by simp [CookieJar.pairText], (h pair hpair).1⟩
    rw [hsplit, Option.getD_some]
  rw [pairsOfText, split_join (by simpa using hne) hpieces]
  cases pairs with
  | nil => exact absurd rfl hne
  | cons pair pairs =>
    obtain ⟨hfirst, hrest⟩ := List.forall_mem_cons.mp hread
    simpa [Function.comp_def, hfirst] using List.map_congr_left hrest

/-- Longer paths come first, then older cookies. -/
theorem pairwise_matchingCookies (psl : Psl) (jar : CookieJar) (query : CookieQuery) :
    (jar.matchingCookies psl query).Pairwise Cookie.sentBefore := by
  have htotal : Std.Total Cookie.sentBefore := by
    refine ⟨fun a b => ?_⟩
    rcases Nat.lt_trichotomy a.pathLength b.pathLength with hlt | heq | hlt
    · exact .inr (.inl hlt)
    · exact (le_total a.createdAt b.createdAt).imp (fun h => .inr ⟨heq.symm, h⟩)
        fun h => .inr ⟨heq, h⟩
    · exact .inl (.inl hlt)
  have htrans : IsTrans Cookie Cookie.sentBefore := by
    refine ⟨fun a b c hab hbc => ?_⟩
    rcases hab with hab | ⟨hab, hold⟩ <;> rcases hbc with hbc | ⟨hbc, hold'⟩
    · exact .inl (hbc.trans hab)
    · exact .inl (hbc ▸ hab)
    · exact .inl (hab ▸ hbc)
    · exact .inr ⟨hbc.trans hab, hold.trans hold'⟩
  exact List.pairwise_insertionSort ..

end Omoikane.Http
