import Omoikane.Http.CookieRead

/-!
# What one operation does to the jar

`Prepared` lists what `prepareCookieForStorage` guarantees of the cookie it
lets through.  `storeCookie_cases` says once what `storeCookie` can do: leave the
jar alone, evict only, or evict and replace.  `JarOp.apply_eq` reduces every
writing operation to `storeCookie` on its `submission`.  The invariants of the
jar are derived from these and never unfold the store again.
-/

namespace Omoikane.Http

open Base

/-! ## Preparation -/

/-- What is known of a cookie that may be stored. -/
structure Prepared (psl : Psl) (context : StoreContext) (cookie : Cookie) : Prop where
  /-- A partitioned cookie is secure and filed under the top-level site. -/
  partitioned : cookie.partitioned = true → cookie.secure = true ∧
    context.access.topLevelSite.isSome ∧ cookie.partitionKey = context.access.topLevelSite
  /-- The domain is the origin host, or a non-public suffix of it. -/
  domain : (cookie.hostOnly = true ∧
      cookie.domain = some (Text.toAsciiLowercase context.originUrl.host)) ∨
    (cookie.hostOnly = false ∧ ∃ domain, cookie.domain = some domain ∧
      isPublicSuffix psl domain = false ∧ domainMatches context.originUrl.host domain = true)
  path : ∃ path, cookie.path = some path
  secure : cookie.secure = true → secureCookieTransport context.originUrl = true
  script : context.fromHttp = false → cookie.httpOnly = false

/-- The creation time is no part of the preparation. -/
theorem Prepared.withCreatedAt {psl : Psl} {context : StoreContext} {cookie : Cookie}
    (h : Prepared psl context cookie) (createdAt : SystemTime) :
    Prepared psl context { cookie with createdAt } :=
  ⟨h.partitioned, h.domain, h.path, h.secure, h.script⟩

namespace Cookie

theorem withPartition_some {cookie result : Cookie} {access : CookieAccessContext}
    (h : cookie.withPartition access = some result) :
    result = { cookie with partitionKey := result.partitionKey } ∧
      (cookie.partitioned = true → cookie.secure = true ∧ access.topLevelSite.isSome ∧
        result.partitionKey = access.topLevelSite) ∧
      (cookie.partitioned = false → result.partitionKey = cookie.partitionKey) := by
  unfold withPartition at h
  by_cases hp : cookie.partitioned = true
  · rw [if_pos hp] at h
    by_cases hs : (!cookie.secure || access.topLevelSite.isNone) = true
    · rw [if_pos hs] at h
      cases h
    · rw [if_neg hs] at h
      cases h
      simp only [Bool.or_eq_true, Bool.not_eq_true', Option.isNone_iff_eq_none, not_or,
        Bool.not_eq_false] at hs
      exact ⟨rfl, fun _ => ⟨hs.1, Option.isSome_iff_ne_none.mpr hs.2, rfl⟩, by simp [hp]⟩
  · rw [if_neg hp] at h
    split at h
    · cases h
    · cases h
      exact ⟨rfl, fun hq => absurd hq hp, fun _ => rfl⟩

theorem withDomain_some {psl : Psl} {cookie result : Cookie} {originDomain : Text}
    (h : cookie.withDomain psl originDomain = some result) :
    result = { cookie with hostOnly := result.hostOnly, domain := result.domain } ∧
      ((result.hostOnly = true ∧ result.domain = some originDomain) ∨
        (result.hostOnly = false ∧ ∃ domain, result.domain = some domain ∧
          isPublicSuffix psl domain = false ∧ domainMatches originDomain domain = true)) := by
  unfold withDomain at h
  cases hd : cookie.domain with
  | none =>
    simp only [hd] at h
    cases h
    exact ⟨rfl, Or.inl ⟨rfl, rfl⟩⟩
  | some domain =>
    simp only [hd] at h
    by_cases hbad : (decide (domain = []) || !domainMatches originDomain domain) = true
    · rw [if_pos hbad] at h
      cases h
    · rw [if_neg hbad] at h
      simp only [Bool.or_eq_true, decide_eq_true_eq, Bool.not_eq_true', not_or,
        Bool.not_eq_false] at hbad
      by_cases hps : isPublicSuffix psl domain = true
      · rw [if_pos hps] at h
        split at h
        · cases h
        · cases h
          exact ⟨rfl, Or.inl ⟨rfl, rfl⟩⟩
      · rw [if_neg hps] at h
        cases h
        exact ⟨rfl, Or.inr ⟨rfl, domain, rfl, by simpa using hps, hbad.2⟩⟩

theorem withPath_eq (cookie : Cookie) (originUrl : Url) :
    cookie.withPath originUrl = { cookie with path := (cookie.withPath originUrl).path } ∧
      ∃ path, (cookie.withPath originUrl).path = some path := by
  unfold withPath
  split
  next => exact ⟨rfl, _, rfl⟩
  next h =>
    refine ⟨rfl, ?_⟩
    cases hp : cookie.path with
    | none => simp [hp] at h
    | some path => exact ⟨path, rfl⟩

theorem mayBeCreated_true {psl : Psl} {cookie : Cookie} {context : StoreContext}
    (h : cookie.mayBeCreated psl context = true) :
    (cookie.secure = true → secureCookieTransport context.originUrl = true) ∧
      (context.fromHttp = false → cookie.httpOnly = false) := by
  unfold mayBeCreated at h
  simp only at h
  split at h
  · cases h
  next hsecure =>
    split at h
    · cases h
    next hscript =>
      constructor
      · intro hs
        simpa [hs] using hsecure
      · intro hf
        simpa [hf] using hscript

end Cookie

/-- Preparation only sets the partition, the domain with its flag and the path. -/
theorem prepareCookieForStorage_some {psl : Psl} {submitted cookie : Cookie}
    {context : StoreContext} (h : prepareCookieForStorage psl submitted context = some cookie) :
    cookie = { submitted with
        partitionKey := cookie.partitionKey
        domain := cookie.domain
        hostOnly := cookie.hostOnly
        path := cookie.path } ∧
      (submitted.partitioned = false → cookie.partitionKey = submitted.partitionKey) ∧
      Prepared psl context cookie := by
  unfold prepareCookieForStorage at h
  simp only [Option.bind_eq_bind, Option.bind_eq_some_iff] at h
  obtain ⟨keyed, hkeyed, placed, hplaced, h⟩ := h
  split at h
  next hcreated =>
    cases h
    obtain ⟨heq₁, hpart, hunpart⟩ := Cookie.withPartition_some hkeyed
    obtain ⟨heq₂, hdomain⟩ := Cookie.withDomain_some hplaced
    obtain ⟨heq₃, hpath⟩ := Cookie.withPath_eq placed context.originUrl
    obtain ⟨hsecure, hscript⟩ := Cookie.mayBeCreated_true hcreated
    generalize hresult : placed.withPath context.originUrl = result at *
    have heq : result = { submitted with
        partitionKey := result.partitionKey
        domain := result.domain
        hostOnly := result.hostOnly
        path := result.path } := by
      rw [heq₃, heq₂, heq₁]
    have hkey : result.partitionKey = keyed.partitionKey := by rw [heq₃, heq₂]
    have hhost : result.hostOnly = placed.hostOnly := by rw [heq₃]
    have hdom : result.domain = placed.domain := by rw [heq₃]
    refine ⟨heq, fun hp => hkey.trans (hunpart hp), ?_⟩
    refine ⟨?_, ?_, hpath, hsecure, hscript⟩
    · intro hp
      rw [heq] at hp ⊢
      obtain ⟨h₁, h₂, h₃⟩ := hpart hp
      exact ⟨h₁, h₂, hkey.trans h₃⟩
    · rw [hhost, hdom]
      simpa using hdomain
  next => cases h

/-! ## The history of changes does not touch the cookies -/

namespace CookieJar

@[simp] theorem recordChange_cookies (jar : CookieJar) (cookie : Cookie)
    (deleted individualEvent : Bool) :
    (jar.recordChange cookie deleted individualEvent).cookies = jar.cookies := by
  unfold recordChange
  split <;> rfl

@[simp] theorem recordDeletions_cookies : ∀ (cookies : List Cookie) (jar : CookieJar),
    (jar.recordDeletions cookies).cookies = jar.cookies
  | [], _ => rfl
  | cookie :: cookies, jar => by
    have ih := recordDeletions_cookies cookies (jar.recordChange cookie true false)
    rw [recordChange_cookies] at ih
    exact ih

@[simp] theorem evictExpiredAt_cookies (jar : CookieJar) (now : SystemTime) :
    (jar.evictExpiredAt now).cookies = jar.cookies.filter fun entry => !entry.1.isExpired now := by
  simp [evictExpiredAt]

theorem replaceCookie_cookies (jar : CookieJar) (cookie : Cookie) (originDomain : Text)
    (replaced : Option Cookie) (individualEvent : Bool) (now : SystemTime) :
    (jar.replaceCookie cookie originDomain replaced individualEvent now).cookies =
      jar.cookies.filter (fun entry => !replaces cookie entry.1) ++
        if cookie.isExpired now then [] else [(cookie, originDomain)] := by
  unfold replaceCookie
  by_cases he : cookie.isExpired now = true
  · simp [he]
  · simp only [he, Bool.false_eq_true, if_false]
    cases replaced.filter (fun old => !old.isExpired now) with
    | none => split <;> simp
    | some old =>
      simp only
      split <;> split <;> simp

/-! ## The cases of a store -/

/-- A prepared cookie that is dropped because of a stored one. -/
def blocks (jar : CookieJar) (cookie : Cookie) (context : StoreContext) : Bool :=
  (!secureCookieTransport context.originUrl && !cookie.secure &&
      jar.cookies.any fun entry => overlaysSecure cookie entry.1) ||
    (!context.fromHttp &&
      jar.cookies.any fun entry => entry.1.httpOnly && sameCookie cookie entry.1)

/-- The stored cookie a new one replaces. -/
def replacedBy (jar : CookieJar) (cookie : Cookie) : Option Cookie :=
  (jar.cookies.find? fun entry => replaces cookie entry.1).map Prod.fst

end CookieJar

/-- The new cookie keeps the creation time of the one it replaces. -/
def Cookie.inheriting (cookie : Cookie) (replaced : Option Cookie) : Cookie :=
  { cookie with createdAt := (replaced.map Cookie.createdAt).getD cookie.createdAt }

namespace CookieJar

/-- Either the cookie is refused and the jar stays, or a stored cookie blocks it
and only the eviction happened, or it takes the place of the one it replaces. -/
theorem storeCookie_cases (psl : Psl) (jar : CookieJar) (submitted : Cookie)
    (context : StoreContext) (now : SystemTime) :
    (prepareCookieForStorage psl submitted context = none ∧
      jar.storeCookie psl submitted context now = jar) ∨
    ∃ cookie, prepareCookieForStorage psl submitted context = some cookie ∧
      (((jar.evictExpiredAt now).blocks cookie context = true ∧
          jar.storeCookie psl submitted context now = jar.evictExpiredAt now) ∨
        ((jar.evictExpiredAt now).blocks cookie context = false ∧
          jar.storeCookie psl submitted context now =
            (jar.evictExpiredAt now).replaceCookie
              (cookie.inheriting ((jar.evictExpiredAt now).replacedBy cookie))
              (Text.toAsciiLowercase context.originUrl.host)
              ((jar.evictExpiredAt now).replacedBy cookie) context.individualEvent now)) := by
  unfold storeCookie
  cases hprep : prepareCookieForStorage psl submitted context with
  | none => exact Or.inl ⟨rfl, rfl⟩
  | some cookie =>
    refine Or.inr ⟨cookie, rfl, ?_⟩
    simp only
    generalize jar.evictExpiredAt now = jar
    by_cases hinsecure : (!secureCookieTransport context.originUrl && !cookie.secure &&
        jar.cookies.any fun entry => overlaysSecure cookie entry.1) = true
    · exact Or.inl ⟨by simp [blocks, hinsecure], if_pos hinsecure⟩
    · rw [if_neg hinsecure]
      by_cases hscript : (!context.fromHttp &&
          jar.cookies.any fun entry => entry.1.httpOnly && sameCookie cookie entry.1) = true
      · exact Or.inl ⟨by simp only [blocks, hscript, Bool.or_true], if_pos hscript⟩
      · rw [if_neg hscript]
        refine Or.inr ⟨?_, ?_⟩
        · rw [blocks, Bool.or_eq_false_iff]
          exact ⟨by simpa using hinsecure, by simpa using hscript⟩
        · unfold replacedBy
          cases hfind : jar.cookies.find? fun entry => replaces cookie entry.1 with
          | none => rfl
          | some entry =>
            -- a replaced HttpOnly cookie is a twin, which was excluded above
            have hrep : replaces cookie entry.1 = true :=
              by simpa using List.find?_some hfind
            have hmem : entry ∈ jar.cookies := List.mem_of_find?_eq_some hfind
            have htwin : ¬ ((!context.fromHttp && entry.1.httpOnly) = true) := by
              intro hh
              apply hscript
              rw [Bool.and_eq_true] at hh ⊢
              refine ⟨hh.1, List.any_eq_true.mpr ⟨entry, hmem, ?_⟩⟩
              rw [replaces, Bool.and_eq_true] at hrep
              rw [Bool.and_eq_true]
              exact ⟨hh.2, hrep.1⟩
            simp only [Option.map_some, if_neg htwin]
            rfl

end CookieJar

@[simp] theorem replaces_inheriting (cookie : Cookie) (replaced : Option Cookie) :
    replaces (cookie.inheriting replaced) = replaces cookie := rfl

/-! ## The writing operations as submissions -/

/-- A cookie handed to `storeCookie`, with its context and the instant. -/
structure Submission where
  cookie : Cookie
  context : StoreContext
  now : SystemTime

namespace JarOp

/-- What an operation hands to `storeCookie`, if its input is well formed. -/
def submission (psl : Psl) : JarOp → Option Submission
  | .header value originUrl siteForCookies topLevelNavigation access clock =>
    (Cookie.parse clock.created clock.received value).map fun cookie =>
      { cookie
        now := clock.stored
        context := {
          originUrl, siteForCookies, topLevelNavigation, access
          fromHttp := true
          explicitRootPath := hasExplicitRootPath value
          individualEvent := false } }
  | .document value documentUrl siteForCookies access clock =>
    (Cookie.parse clock.created clock.received value).map fun cookie =>
      { cookie
        now := clock.stored
        context := {
          originUrl := documentUrl
          siteForCookies, access
          topLevelNavigation := false
          fromHttp := false
          explicitRootPath := hasExplicitRootPath value
          individualEvent := true } }
  | .cookieStore options url siteForCookies access clock =>
    (cookieOfStoreWrite psl options url clock.created).toOption.map fun cookie =>
      { cookie
        now := clock.stored
        context := {
          originUrl := url
          siteForCookies, access
          topLevelNavigation := false
          fromHttp := false
          explicitRootPath := cookie.path == some "/".toList
          individualEvent := true } }
  | .evict _ => none
  | .delete _ _ => none

/-- An operation that writes: it may store a cookie. -/
def isWrite : JarOp → Bool
  | .evict _ => false
  | .delete _ _ => false
  | _ => true

/-- A write stores its submission, if it has one. -/
theorem apply_write (psl : Psl) (jar : CookieJar) {op : JarOp} (hw : op.isWrite = true) :
    op.apply psl jar = match op.submission psl with
      | some s => jar.storeCookie psl s.cookie s.context s.now
      | none => jar := by
  cases op with
  | header value originUrl siteForCookies topLevelNavigation access clock =>
    simp only [apply, submission, CookieJar.addFromHeaderForRequestWithAccess,
      CookieJar.addWithContext]
    cases Cookie.parse clock.created clock.received value <;> rfl
  | document value documentUrl siteForCookies access clock =>
    simp only [apply, submission, CookieJar.addFromDocumentWithAccess, CookieJar.addWithContext]
    cases Cookie.parse clock.created clock.received value <;> rfl
  | cookieStore options url siteForCookies access clock =>
    simp only [apply, submission, CookieJar.setFromCookieStoreWithAccess]
    cases cookieOfStoreWrite psl options url clock.created <;> rfl
  | evict now => cases hw
  | delete url now => cases hw

/-- A submitted cookie has no partition key yet, and a name and a value that
can be told apart in a cookie header. -/
theorem submission_cookie {psl : Psl} {op : JarOp} {s : Submission}
    (h : op.submission psl = some s) :
    s.cookie.partitionKey = none ∧ '=' ∉ s.cookie.name ∧ ';' ∉ s.cookie.name ∧
      ';' ∉ s.cookie.value := by
  cases op with
  | header value originUrl siteForCookies topLevelNavigation access clock =>
    obtain ⟨cookie, hparse, rfl⟩ := Option.map_eq_some_iff.mp h
    exact Cookie.parse_some hparse
  | document value documentUrl siteForCookies access clock =>
    obtain ⟨cookie, hparse, rfl⟩ := Option.map_eq_some_iff.mp h
    exact Cookie.parse_some hparse
  | cookieStore options url siteForCookies access clock =>
    obtain ⟨cookie, hwrite, rfl⟩ := Option.map_eq_some_iff.mp h
    cases hc : cookieOfStoreWrite psl options url clock.created with
    | error error =>
      rw [hc] at hwrite
      cases hwrite
    | ok made =>
      rw [hc] at hwrite
      cases hwrite
      exact cookieOfStoreWrite_ok hc
  | evict now => cases h
  | delete url now => cases h

/-- Every cookie after an operation was there before, or is the prepared
submission of the operation up to its creation time. -/
theorem mem_apply_cookies {psl : Psl} {jar : CookieJar} {op : JarOp} {entry : Cookie × Text}
    (h : entry ∈ (op.apply psl jar).cookies) :
    entry ∈ jar.cookies ∨ ∃ s cookie createdAt, op.submission psl = some s ∧
      prepareCookieForStorage psl s.cookie s.context = some cookie ∧
      entry.1 = { cookie with createdAt } := by
  cases hw : op.isWrite with
  | false =>
    cases op with
    | evict now =>
      rw [apply, CookieJar.evictExpiredAt_cookies] at h
      exact Or.inl (List.mem_of_mem_filter h)
    | delete url now =>
      rw [apply, CookieJar.deleteAssociatedCookies, CookieJar.recordDeletions_cookies] at h
      exact Or.inl (List.mem_of_mem_filter h)
    | _ => cases hw
  | true =>
    rw [apply_write psl jar hw] at h
    cases hs : op.submission psl with
    | none =>
      rw [hs] at h
      exact Or.inl h
    | some s =>
      simp only [hs] at h
      rcases jar.storeCookie_cases psl s.cookie s.context s.now with
        ⟨_, heq⟩ | ⟨cookie, hprep, ⟨_, heq⟩ | ⟨_, heq⟩⟩
      · rw [heq] at h
        exact Or.inl h
      · rw [heq, CookieJar.evictExpiredAt_cookies] at h
        exact Or.inl (List.mem_of_mem_filter h)
      · rw [heq, CookieJar.replaceCookie_cookies, CookieJar.evictExpiredAt_cookies,
          List.mem_append] at h
        rcases h with h | h
        · exact Or.inl (List.mem_of_mem_filter (List.mem_of_mem_filter h))
        · split at h
          · cases h
          · obtain rfl := List.mem_singleton.mp h
            exact Or.inr ⟨s, cookie, _, rfl, hprep, rfl⟩

end JarOp

end Omoikane.Http
