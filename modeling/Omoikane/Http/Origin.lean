import Omoikane.Http.CookieJar
import Omoikane.Http.Request

/-!
# Origins

The tuple origins of the Fetch checks, and the opaque origin.  An origin is made
from a URL or is opaque, so its parts are those of a URL in lower case, and its
serialization is a valid header value (`Origin.isValidHeader_serialize`).

The Cross-Origin-Resource-Policy check of an opaque response is here too.
-/

namespace Omoikane.Http

open Base

/-- The scheme, host and port of a URL, in lower case. -/
@[ext] structure OriginTuple where
  scheme : Text
  host : Text
  port : UInt16
  scheme_http : scheme = "http".toList ∨ scheme = "https".toList
  host_visible : host.all isVisibleAscii = true

instance : DecidableEq OriginTuple := fun _ _ => decidable_of_iff' _ OriginTuple.ext_iff

/-- An origin; the opaque origin has no tuple. -/
structure Origin where
  tuple : Option OriginTuple
deriving DecidableEq

theorem isVisibleAscii_toLower {c : Char} (h : isVisibleAscii c = true) :
    isVisibleAscii c.toLower = true := by
  unfold Char.toLower
  split
  · rename_i hupper
    have hlow := UInt32.le_iff_toNat_le.mp (show 'A'.val ≤ c.val from hupper.1)
    have hhigh := UInt32.le_iff_toNat_le.mp (show c.val ≤ 'Z'.val from hupper.2)
    have hval : (c.val + ('a'.val - 'A'.val)).toNat = c.val.toNat + 32 := by
      rw [UInt32.toNat_add]
      simp at hlow hhigh ⊢
      omega
    simp only [isVisibleAscii, Bool.and_eq_true, decide_eq_true_eq, Char.le_def,
      UInt32.le_iff_toNat_le]
    simp at hlow hhigh hval ⊢
    omega
  · exact h

namespace Origin

/-- `from_url`. -/
def fromUrl (url : Url) : Origin where
  tuple := some {
    scheme := Text.toAsciiLowercase url.scheme
    host := Text.toAsciiLowercase url.host
    port := url.port
    scheme_http := by
      rcases url.scheme_http with h | h
      · exact Or.inl (by rw [h]; decide)
      · exact Or.inr (by rw [h]; decide)
    host_visible := by
      have h := url.host_visible
      rw [List.all_eq_true] at h ⊢
      intro c hc
      obtain ⟨d, hd, rfl⟩ := List.mem_map.mp hc
      exact isVisibleAscii_toLower (h d hd) }

/-- `opaque`. -/
def opaqueOrigin : Origin := { tuple := none }

/-- `serialize`. -/
def serialize (origin : Origin) : Text :=
  match origin.tuple with
  | none => "null".toList
  | some { scheme, host, port, .. } =>
    if port = Url.defaultPortFor scheme then scheme ++ "://".toList ++ host
    else scheme ++ "://".toList ++ host ++ ":".toList ++ Text.ofNat port.toNat

/-- `is_same_origin`. -/
def isSameOrigin (origin : Origin) (url : Url) : Bool :=
  origin.tuple.isSome && origin == fromUrl url

/-- `is_same_site_for_corp`. -/
def isSameSiteForCorp (psl : Psl) (origin : Origin) (url : Url) : Bool :=
  match origin.tuple with
  | none => false
  | some { scheme, host, .. } =>
    (SchemefulSite.fromParts psl scheme host).isSchemelesslySameSite
        (SchemefulSite.fromUrl psl url) &&
      (scheme == "https".toList || url.scheme != "https".toList)

/-- Two URLs have one origin if they agree on scheme, host up to ASCII case, and port. -/
theorem fromUrl_eq_iff {url other : Url} :
    fromUrl url = fromUrl other ↔
      url.scheme = other.scheme ∧ Text.eqIgnoreAsciiCase url.host other.host = true ∧
        url.port = other.port := by
  have hlower : ∀ u : Url, Text.toAsciiLowercase u.scheme = u.scheme := by
    intro u
    rcases u.scheme_http with h | h <;> rw [h] <;> decide
  simp only [fromUrl, Origin.mk.injEq, Option.some.injEq, OriginTuple.mk.injEq, hlower,
    Text.eqIgnoreAsciiCase_iff]

theorem isHeaderValueChar_of_isVisibleAscii {c : Char} (h : isVisibleAscii c = true) :
    isHeaderValueChar c = true := by
  simp only [isVisibleAscii, Bool.and_eq_true, decide_eq_true_eq, Char.le_def,
    UInt32.le_iff_toNat_le] at h
  have hval : c.val.toNat = c.toNat := rfl
  simp only [isHeaderValueChar, Bool.or_eq_true, Bool.and_eq_true, decide_eq_true_eq, bne_iff_ne,
    Char.le_def, UInt32.le_iff_toNat_le]
  right
  simp at h ⊢
  omega

theorem isHeaderValueChar_of_isDigit {c : Char} (h : c.isDigit = true) :
    isHeaderValueChar c = true := by
  apply isHeaderValueChar_of_isVisibleAscii
  simp only [Char.isDigit, isVisibleAscii, Bool.and_eq_true, decide_eq_true_eq, Char.le_def,
    UInt32.le_iff_toNat_le, ge_iff_le] at h ⊢
  simp at h ⊢
  omega

/-- The serialization of an origin can be sent in a header. -/
theorem isValidHeader_serialize (origin : Origin) :
    isValidHeader "Origin".toList origin.serialize = true := by
  have htoken : isHttpToken "Origin".toList = true := by decide
  rw [isValidHeader, htoken, Bool.true_and]
  unfold serialize
  obtain ⟨tuple⟩ := origin
  cases tuple with
  | none => decide
  | some tuple =>
    obtain ⟨scheme, host, port, hscheme, hhost⟩ := tuple
    have hschemeChars : scheme.all isHeaderValueChar = true := by
      rcases hscheme with rfl | rfl <;> decide
    have hhostChars : host.all isHeaderValueChar = true := by
      rw [List.all_eq_true] at hhost ⊢
      exact fun c hc => isHeaderValueChar_of_isVisibleAscii (hhost c hc)
    have hportChars : (Text.ofNat port.toNat).all isHeaderValueChar = true := by
      rw [List.all_eq_true]
      intro c hc
      exact isHeaderValueChar_of_isDigit
        (Nat.isDigit_of_mem_toDigits (by decide) (by decide) hc)
    dsimp only
    split
    · rw [List.all_append, List.all_append, hschemeChars, hhostChars]
      decide
    · rw [List.all_append, List.all_append, List.all_append, List.all_append, hschemeChars,
        hhostChars, hportChars]
      decide

end Origin

/-! ## Cross-Origin-Resource-Policy -/

/-- The COEP value supplied by the requesting environment. -/
inductive EmbedderPolicyValue where
  | unsafeNone
  | requireCorp
  | credentialless
deriving DecidableEq, Repr

/-- The combined CORP and COEP decision for one response. -/
structure PolicyCheck where
  blocked : Bool
  reportOnlyViolation : Bool
  enforcedViolation : Bool
deriving DecidableEq, Repr

/-- An explicit CORP value. -/
inductive ResourcePolicy where
  | sameOrigin
  | sameSite
  | crossOrigin
deriving DecidableEq, Repr

/-- `resource_policy`: repeated fields name no policy. -/
def resourcePolicy (headers : List (Text × Text)) : Option ResourcePolicy :=
  match (headersNamed headers "cross-origin-resource-policy".toList).map fun header =>
      Text.trimMatches isBlank header.2 with
  | [value] =>
    if value = "same-origin".toList then some .sameOrigin
    else if value = "same-site".toList then some .sameSite
    else if value = "cross-origin".toList then some .crossOrigin
    else none
  | _ => none

/-- `allows_response`. -/
def allowsResponse (psl : Psl) (origin : Origin) (responseUrl : Url)
    (headers : List (Text × Text)) (embedderPolicy : EmbedderPolicyValue)
    (requestIncludesCredentials forNavigation : Bool) : Bool :=
  if forNavigation && embedderPolicy = .unsafeNone then true
  else
    let effectivePolicy :=
      match resourcePolicy headers, embedderPolicy with
      | some policy, _ => some policy
      | none, .unsafeNone => none
      | none, .requireCorp => some .sameOrigin
      | none, .credentialless =>
        if requestIncludesCredentials || forNavigation then some .sameOrigin else none
    match effectivePolicy with
    | none | some .crossOrigin => true
    | some .sameOrigin => origin.isSameOrigin responseUrl
    | some .sameSite => origin.isSameSiteForCorp psl responseUrl

/-- `check_response`: an explicit denial is no violation of COEP. -/
def checkResponse (psl : Psl) (origin : Origin) (responseUrl : Url)
    (headers : List (Text × Text)) (enforced reportOnly : EmbedderPolicyValue)
    (requestIncludesCredentials forNavigation : Bool) : PolicyCheck :=
  let allows := fun policy => allowsResponse psl origin responseUrl headers policy
    requestIncludesCredentials forNavigation
  if !allows .unsafeNone then
    { blocked := true, reportOnlyViolation := false, enforcedViolation := false }
  else
    { blocked := !allows enforced
      reportOnlyViolation := !allows reportOnly
      enforcedViolation := !allows enforced }

end Omoikane.Http
