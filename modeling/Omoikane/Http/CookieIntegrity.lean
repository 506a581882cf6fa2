import Omoikane.Http.CookieStoring

/-!
# The integrity of stored cookies

A weak writer cannot touch a strong cookie.  A script leaves the HttpOnly
cookies alone and an insecure origin the Secure ones: neither removes such a
cookie, and neither adds one beside it that a server could take for it.  And no
two stored cookies ever have the same identity.

`storeCookie` compares cookies in three ways, `overlaysSecure`, `sameCookie` and
`replaces`.  What makes them fit is that `replaces` implies `sameCookie`, and on
a prepared cookie, which has a domain and a path, implies `overlaysSecure` of a
secure cookie; so a cookie that was not blocked replaces no protected one.
-/

namespace Omoikane.Http

open Base

/-! ## The writer -/

/-- Who writes, and when the jar is changed. -/
structure Writer where
  originUrl : Url
  fromHttp : Bool
  now : SystemTime

/-- The writer of an operation; `none` for evictions and deletions. -/
def JarOp.writer : JarOp → Option Writer
  | .header _ originUrl _ _ _ clock => some { originUrl, fromHttp := true, now := clock.stored }
  | .document _ documentUrl _ _ clock =>
    some { originUrl := documentUrl, fromHttp := false, now := clock.stored }
  | .cookieStore _ url _ _ clock =>
    some { originUrl := url, fromHttp := false, now := clock.stored }
  | .evict _ => none
  | .delete _ _ => none

theorem JarOp.isWrite_of_writer {op : JarOp} {writer : Writer} (h : op.writer = some writer) :
    op.isWrite = true := by
  cases op with
  | evict now => cases h
  | delete url now => cases h
  | _ => rfl

/-- The submission of an operation carries its writer. -/
theorem JarOp.submission_writer {psl : Psl} {op : JarOp} {writer : Writer} {s : Submission}
    (hw : op.writer = some writer) (hs : op.submission psl = some s) :
    s.context.originUrl = writer.originUrl ∧ s.context.fromHttp = writer.fromHttp ∧
      s.now = writer.now := by
  cases op with
  | header value originUrl siteForCookies topLevelNavigation access clock =>
    cases hw
    obtain ⟨cookie, -, rfl⟩ := Option.map_eq_some_iff.mp hs
    exact ⟨rfl, rfl, rfl⟩
  | document value documentUrl siteForCookies access clock =>
    cases hw
    obtain ⟨cookie, -, rfl⟩ := Option.map_eq_some_iff.mp hs
    exact ⟨rfl, rfl, rfl⟩
  | cookieStore options url siteForCookies access clock =>
    cases hw
    obtain ⟨cookie, -, rfl⟩ := Option.map_eq_some_iff.mp hs
    exact ⟨rfl, rfl, rfl⟩
  | evict now => cases hw
  | delete url now => cases hw

/-! ## The three comparisons -/

/-- Partition key, name, domain, path and host-only flag. -/
abbrev CookieIdentity := Option SchemefulSite × Text × Option Text × Option Text × Bool

/-- What tells stored cookies apart. -/
def Cookie.identity (cookie : Cookie) : CookieIdentity :=
  (cookie.partitionKey, cookie.name, cookie.domain, cookie.path, cookie.hostOnly)

/-- A cookie a server could take for another: same partition and name, domains
that match in some direction, and a path under the other's. -/
structure Overlays (cookie old : Cookie) : Prop where
  partitionKey : old.partitionKey = cookie.partitionKey
  name : old.name = cookie.name
  domain : ∃ a b, old.domain = some a ∧ cookie.domain = some b ∧
    (DomainMatch a b ∨ DomainMatch b a)
  path : ∃ a b, old.path = some a ∧ cookie.path = some b ∧ PathMatch b a

theorem replaces_iff {cookie old : Cookie} :
    replaces cookie old = true ↔ old.identity = cookie.identity := by
  simp [replaces, sameCookie, Cookie.identity, and_assoc]

theorem sameCookie_of_replaces {cookie old : Cookie} (h : replaces cookie old = true) :
    sameCookie cookie old = true := by
  rw [replaces, Bool.and_eq_true] at h
  exact h.1

theorem overlaysSecure_iff {cookie old : Cookie} :
    overlaysSecure cookie old = true ↔ old.secure = true ∧ Overlays cookie old := by
  unfold overlaysSecure
  simp only [Bool.and_eq_true, beq_iff_eq]
  constructor
  · rintro ⟨⟨⟨⟨hkey, hsecure⟩, hname⟩, hdomain⟩, hpath⟩
    refine ⟨hsecure, hkey, hname, ?_, ?_⟩
    · cases hold : old.domain with
      | none => simp [hold] at hdomain
      | some a =>
        cases hnew : cookie.domain with
        | none => simp [hold, hnew] at hdomain
        | some b =>
          simp only [hold, hnew, Bool.or_eq_true, domainMatches_iff] at hdomain
          exact ⟨a, b, rfl, rfl, hdomain⟩
    · cases hold : old.path with
      | none => simp [hold] at hpath
      | some a =>
        cases hnew : cookie.path with
        | none => simp [hold, hnew] at hpath
        | some b =>
          simp only [hold, hnew, pathMatches_iff] at hpath
          exact ⟨a, b, rfl, rfl, hpath⟩
  · rintro ⟨hsecure, hkey, hname, ⟨a, b, ha, hb, hdomain⟩, ⟨c, d, hc, hd, hpath⟩⟩
    refine ⟨⟨⟨⟨hkey, hsecure⟩, hname⟩, ?_⟩, ?_⟩
    · simpa only [ha, hb, Bool.or_eq_true, domainMatches_iff] using hdomain
    · simpa only [hc, hd, pathMatches_iff] using hpath

/-- A prepared cookie overlays every secure cookie it replaces. -/
theorem overlaysSecure_of_replaces {psl : Psl} {context : StoreContext} {cookie old : Cookie}
    (hp : Prepared psl context cookie) (hr : replaces cookie old = true)
    (hs : old.secure = true) : overlaysSecure cookie old = true := by
  rw [replaces_iff, Cookie.identity, Cookie.identity] at hr
  simp only [Prod.mk.injEq] at hr
  obtain ⟨hkey, hname, hdomain, hpath, -⟩ := hr
  obtain ⟨path, hpath'⟩ := hp.path
  have hdomain' : ∃ domain, cookie.domain = some domain := by
    rcases hp.domain with ⟨-, h⟩ | ⟨-, domain, h, -⟩
    · exact ⟨_, h⟩
    · exact ⟨domain, h⟩
  obtain ⟨domain, hdomain'⟩ := hdomain'
  refine overlaysSecure_iff.mpr ⟨hs, hkey, hname, ?_, ?_⟩
  · exact ⟨domain, domain, hdomain.trans hdomain', hdomain', Or.inl (Or.inl rfl)⟩
  · exact ⟨path, path, hpath.trans hpath', hpath', Or.inl rfl⟩

/-! ## One write -/

/-- What a writer must leave alone in the jar. -/
def Writer.MustKeep (writer : Writer) (old : Cookie) : Prop :=
  old.isExpired writer.now = false ∧
    ((writer.fromHttp = false ∧ old.httpOnly = true) ∨
      (¬ SecureTransport writer.originUrl ∧ old.secure = true))

/-- What a writer must not add beside an old cookie. -/
def Writer.MustNotAdd (writer : Writer) (old cookie : Cookie) : Prop :=
  old.isExpired writer.now = false ∧
    ((writer.fromHttp = false ∧ old.httpOnly = true ∧ old.partitionKey = cookie.partitionKey ∧
        old.name = cookie.name ∧ old.domain = cookie.domain ∧ old.path = cookie.path) ∨
      (¬ SecureTransport writer.originUrl ∧ old.secure = true ∧ Overlays cookie old))

/-- A write keeps some of the old entries and adds new ones at the end.  It
keeps what the writer must leave alone and adds nothing the writer must not. -/
def Preserves (writer : Writer) (jar jar' : CookieJar) : Prop :=
  ∃ kept added, jar'.cookies = kept ++ added ∧ kept.Sublist jar.cookies ∧
    (∀ entry ∈ jar.cookies, writer.MustKeep entry.1 → entry ∈ kept) ∧
    (∀ entry ∈ jar.cookies, ∀ new ∈ added, ¬ writer.MustNotAdd entry.1 new.1)

/-- Keeping every unexpired entry and adding none is harmless. -/
theorem preserves_of_evict (writer : Writer) (jar : CookieJar) :
    Preserves writer jar (jar.evictExpiredAt writer.now) := by
  refine ⟨_, [], (List.append_nil _).symm, ?_, ?_, fun _ _ new hnew => absurd hnew (by simp)⟩
  · rw [CookieJar.evictExpiredAt_cookies]
    exact List.filter_sublist
  · intro entry hentry hkeep
    rw [CookieJar.evictExpiredAt_cookies]
    exact List.mem_filter.mpr ⟨hentry, by simp [hkeep.1]⟩

theorem preserves_refl (writer : Writer) (jar : CookieJar) : Preserves writer jar jar :=
  ⟨jar.cookies, [], (List.append_nil _).symm, List.Sublist.refl _, fun _ h _ => h,
    fun _ _ _ hnew => absurd hnew (by simp)⟩

/-- A prepared cookie that is not blocked conflicts with no unexpired cookie
that its writer must respect. -/
theorem not_conflict_of_not_blocked {psl : Psl} {context : StoreContext} {cookie : Cookie}
    {jar : CookieJar} (hp : Prepared psl context cookie) (hb : jar.blocks cookie context = false)
    {entry : Cookie × Text} (hentry : entry ∈ jar.cookies) :
    (context.fromHttp = false → entry.1.httpOnly = true → sameCookie cookie entry.1 = false) ∧
      (¬ SecureTransport context.originUrl → overlaysSecure cookie entry.1 = false) := by
  simp only [CookieJar.blocks, Bool.or_eq_false_iff, Bool.and_eq_false_iff, Bool.not_eq_false',
    List.any_eq_false, Bool.and_eq_true, not_and, Bool.not_eq_true] at hb
  obtain ⟨hinsecure, hscript⟩ := hb
  constructor
  · intro hhttp honly
    rcases hscript with h | h
    · rw [hhttp] at h
      cases h
    · exact h entry hentry honly
  · intro htransport
    have hnot : cookie.secure ≠ true := fun h =>
      htransport (secureCookieTransport_iff.mp (hp.secure h))
    rcases hinsecure with (h | h) | h
    · exact absurd (secureCookieTransport_iff.mp h) htransport
    · exact absurd h hnot
    · exact h entry hentry

/-- The replacing part of a store respects what the writer must leave alone. -/
theorem preserves_of_replace {psl : Psl} {context : StoreContext} {cookie : Cookie}
    {jar : CookieJar} {writer : Writer} (horigin : context.originUrl = writer.originUrl)
    (hhttp : context.fromHttp = writer.fromHttp) (hp : Prepared psl context cookie)
    (hb : (jar.evictExpiredAt writer.now).blocks cookie context = false) (replaced : Option Cookie)
    (originDomain : Text) (individualEvent : Bool) :
    Preserves writer jar ((jar.evictExpiredAt writer.now).replaceCookie (cookie.inheriting replaced)
      originDomain replaced individualEvent writer.now) := by
  -- an unexpired entry survives the eviction, so the new cookie was compared with it
  have hclear : ∀ entry ∈ jar.cookies, entry.1.isExpired writer.now = false →
      (writer.fromHttp = false → entry.1.httpOnly = true → sameCookie cookie entry.1 = false) ∧
        (¬ SecureTransport writer.originUrl → overlaysSecure cookie entry.1 = false) := by
    intro entry hentry hexpired
    rw [← horigin, ← hhttp]
    refine not_conflict_of_not_blocked hp hb ?_
    rw [CookieJar.evictExpiredAt_cookies]
    exact List.mem_filter.mpr ⟨hentry, by simp [hexpired]⟩
  refine ⟨_, _, CookieJar.replaceCookie_cookies .., ?_, ?_, ?_⟩
  · rw [CookieJar.evictExpiredAt_cookies]
    exact List.filter_sublist.trans List.filter_sublist
  · intro entry hentry hkeep
    obtain ⟨hexpired, hkeep⟩ := hkeep
    obtain ⟨hscript, hinsecure⟩ := hclear entry hentry hexpired
    rw [CookieJar.evictExpiredAt_cookies, replaces_inheriting]
    refine List.mem_filter.mpr ⟨List.mem_filter.mpr ⟨hentry, by simp [hexpired]⟩, ?_⟩
    rw [Bool.not_eq_true', Bool.eq_false_iff]
    intro hr
    rcases hkeep with ⟨hh, honly⟩ | ⟨hs, hsecure⟩
    · exact Bool.eq_false_iff.mp (hscript hh honly) (sameCookie_of_replaces hr)
    · exact Bool.eq_false_iff.mp (hinsecure hs) (overlaysSecure_of_replaces hp hr hsecure)
  · rintro entry hentry new hnew ⟨hexpired, hbad⟩
    obtain ⟨hscript, hinsecure⟩ := hclear entry hentry hexpired
    split at hnew
    · cases hnew
    · obtain rfl := List.mem_singleton.mp hnew
      rcases hbad with ⟨hh, honly, hkey, hname, hdomain, hpath⟩ | ⟨hs, hsecure, hover⟩
      · refine Bool.eq_false_iff.mp (hscript hh honly) ?_
        simp only [sameCookie, Bool.and_eq_true, beq_iff_eq]
        exact ⟨⟨⟨hkey, hname⟩, hdomain⟩, hpath⟩
      · refine Bool.eq_false_iff.mp (hinsecure hs) ?_
        exact overlaysSecure_iff.mpr ⟨hsecure, ⟨hover.partitionKey, hover.name, hover.domain,
          hover.path⟩⟩

/-- Every write respects what its writer must leave alone, in any jar. -/
theorem preserves_apply (psl : Psl) (jar : CookieJar) {op : JarOp} {writer : Writer}
    (hw : op.writer = some writer) : Preserves writer jar (op.apply psl jar) := by
  rw [JarOp.apply_write psl jar (JarOp.isWrite_of_writer hw)]
  cases hs : op.submission psl with
  | none => exact preserves_refl writer jar
  | some s =>
    obtain ⟨horigin, hhttp, hnow⟩ := JarOp.submission_writer hw hs
    simp only [hnow]
    rcases jar.storeCookie_cases psl s.cookie s.context writer.now with
      ⟨-, heq⟩ | ⟨cookie, hprep, ⟨-, heq⟩ | ⟨hb, heq⟩⟩
    · rw [heq]
      exact preserves_refl writer jar
    · rw [heq]
      exact preserves_of_evict writer jar
    · rw [heq]
      exact preserves_of_replace horigin hhttp (prepareCookieForStorage_some hprep).2.2 hb _ _ _

/-! ## Identities -/

/-- No two stored cookies have one identity. -/
def CookieJar.DistinctIdentities (jar : CookieJar) : Prop :=
  (jar.cookies.map fun entry => entry.1.identity).Nodup

theorem CookieJar.DistinctIdentities.filter {jar jar' : CookieJar} (h : jar.DistinctIdentities)
    (hsub : jar'.cookies.Sublist jar.cookies) : jar'.DistinctIdentities :=
  (hsub.map _).nodup h

/-- The new cookie enters after every cookie of its identity has left. -/
theorem CookieJar.DistinctIdentities.replace {jar : CookieJar} (h : jar.DistinctIdentities)
    (cookie : Cookie) (originDomain : Text) (replaced : Option Cookie) (individualEvent : Bool)
    (now : SystemTime) :
    (jar.replaceCookie cookie originDomain replaced individualEvent now).DistinctIdentities := by
  have hrest : ((jar.cookies.filter fun entry => !replaces cookie entry.1).map
      fun entry => entry.1.identity).Nodup := (List.filter_sublist.map _).nodup h
  unfold DistinctIdentities
  rw [replaceCookie_cookies]
  split
  · simpa using hrest
  · rw [List.map_append, List.nodup_append]
    refine ⟨hrest, by simp, ?_⟩
    intro identity hold new hnew heq
    obtain ⟨entry, hentry, rfl⟩ := List.mem_map.mp hold
    obtain rfl : new = cookie.identity := by simpa using hnew
    have hkeep := (List.mem_filter.mp hentry).2
    rw [Bool.not_eq_true', Bool.eq_false_iff] at hkeep
    exact hkeep (replaces_iff.mpr heq)

/-- Every operation keeps the identities distinct. -/
theorem CookieJar.DistinctIdentities.apply {psl : Psl} {jar : CookieJar}
    (h : jar.DistinctIdentities) (op : JarOp) : (op.apply psl jar).DistinctIdentities := by
  cases hw : op.isWrite with
  | false =>
    cases op with
    | evict now =>
      refine h.filter ?_
      rw [JarOp.apply, CookieJar.evictExpiredAt_cookies]
      exact List.filter_sublist
    | delete url now =>
      refine h.filter ?_
      rw [JarOp.apply, CookieJar.deleteAssociatedCookies, CookieJar.recordDeletions_cookies]
      exact List.filter_sublist
    | _ => cases hw
  | true =>
    rw [JarOp.apply_write psl jar hw]
    cases op.submission psl with
    | none => exact h
    | some s =>
      have hevict : (jar.evictExpiredAt s.now).DistinctIdentities := by
        refine h.filter ?_
        rw [CookieJar.evictExpiredAt_cookies]
        exact List.filter_sublist
      simp only
      rcases jar.storeCookie_cases psl s.cookie s.context s.now with
        ⟨-, heq⟩ | ⟨cookie, -, ⟨-, heq⟩ | ⟨-, heq⟩⟩
      · rw [heq]
        exact h
      · rw [heq]
        exact hevict
      · rw [heq]
        exact hevict.replace _ _ _ _ _

/-! ## Integrity -/

/-- In every reachable jar the identities are distinct, and every write to it
respects what its writer must leave alone. -/
theorem reachable_integrity (psl : Psl) (ops : List JarOp) :
    (reachableJar psl ops).DistinctIdentities ∧
      ∀ (op : JarOp) (writer : Writer), op.writer = some writer →
        Preserves writer (reachableJar psl ops) (op.apply psl (reachableJar psl ops)) :=
  ⟨Run.invariant (I := CookieJar.DistinctIdentities) (fun _ op h => h.apply op) ops List.nodup_nil,
    fun _ _ hw => preserves_apply psl _ hw⟩

/-- A script on an HTTPS page assigns a cookie that a header has set HttpOnly. -/
theorem reachable_integrity_script :
    let access := CookieAccessContext.firstParty examplePsl exampleRoot
    let clock : WriteClock := { created := 0, received := 0, stored := 0 }
    let jar := reachableJar examplePsl
      [.header "sid=1; HttpOnly".toList exampleRoot exampleRoot false access clock]
    let op := JarOp.document "sid=2".toList exampleRoot exampleRoot access clock
    Preserves { originUrl := exampleRoot, fromHttp := false, now := 0 } jar
      (op.apply examplePsl jar) :=
  (reachable_integrity _ _).2 _ _ rfl

end Omoikane.Http
