import Omoikane.Http.Fetch

/-!
# Edits of requests

The functions that prepare a request change some of its header fields and leave
the rest alone.  `Edits names` is the frame of such a function: the fields of
other names, and what the redirect policy carries beside the headers, stay.
-/

namespace Omoikane.Http

open Base

/-! ## Fields of a name -/

@[simp] theorem headersNamed_append (headers more : List (Text × Text)) (name : Text) :
    headersNamed (headers ++ more) name = headersNamed headers name ++ headersNamed more name :=
  List.filter_append ..

theorem headersNamed_singleton_of_ne {name other value : Text}
    (h : Text.eqIgnoreAsciiCase name other = false) : headersNamed [(name, value)] other = [] := by
  simp [headersNamed, h]

theorem headersNamed_withoutHeader_of_ne (headers : List (Text × Text)) {name other : Text}
    (h : Text.eqIgnoreAsciiCase name other = false) :
    headersNamed (withoutHeader headers name) other = headersNamed headers other := by
  unfold headersNamed withoutHeader
  rw [List.filter_filter]
  refine List.filter_congr fun header _ => ?_
  cases hother : Text.eqIgnoreAsciiCase header.1 other with
  | false => rfl
  | true =>
    have hname : Text.eqIgnoreAsciiCase header.1 name = false := by
      rw [Text.eqIgnoreAsciiCase_congr_left hother, Text.eqIgnoreAsciiCase_comm]
      exact h
    rw [hname]
    rfl

theorem headersNamed_withoutHeader_self (headers : List (Text × Text)) {name other : Text}
    (h : Text.eqIgnoreAsciiCase name other = true) :
    headersNamed (withoutHeader headers name) other = [] := by
  unfold headersNamed withoutHeader
  rw [List.filter_filter, List.filter_eq_nil_iff]
  intro header _
  rw [Text.eqIgnoreAsciiCase_comm header.1 other, Text.eqIgnoreAsciiCase_comm header.1 name,
    Text.eqIgnoreAsciiCase_congr_left h]
  simp

/-- Names that agree up to ASCII case are among the same names. -/
theorem isNamed_congr {name other : Text} (h : Text.eqIgnoreAsciiCase name other = true)
    (names : List String) : isNamed name names = isNamed other names := by
  unfold isNamed
  congr 1
  funext listed
  exact Text.eqIgnoreAsciiCase_congr_left h listed.toList

/-! ## Frames -/

/-- The request is edited in the fields of some names only. -/
structure Edits (names : List String) (request edited : HttpRequest) : Prop where
  url : edited.url = request.url
  method : edited.method = request.method
  body : edited.body = request.body
  requirePublicIp : edited.requirePublicIp = request.requirePublicIp
  storageAccessEligible : edited.storageAccessEligible = request.storageAccessEligible
  headers : ∀ name, isNamed name names = false →
    headersNamed edited.headers name = headersNamed request.headers name

namespace Edits

theorem refl (names : List String) (request : HttpRequest) : Edits names request request :=
  ⟨rfl, rfl, rfl, rfl, rfl, fun _ _ => rfl⟩

theorem trans {names : List String} {request edited last : HttpRequest}
    (h : Edits names request edited) (h' : Edits names edited last) : Edits names request last :=
  ⟨h'.url.trans h.url, h'.method.trans h.method, h'.body.trans h.body,
    h'.requirePublicIp.trans h.requirePublicIp,
    h'.storageAccessEligible.trans h.storageAccessEligible,
    fun name hname => (h'.headers name hname).trans (h.headers name hname)⟩

/-- Fields are changed so that those of other names stay. -/
theorem ofHeaders {names : List String} {edited : Text} (hedited : isNamed edited names = true)
    {request : HttpRequest} {headers : List (Text × Text)}
    (h : ∀ name, Text.eqIgnoreAsciiCase edited name = false →
      headersNamed headers name = headersNamed request.headers name) :
    Edits names request { request with headers } := by
  refine ⟨rfl, rfl, rfl, rfl, rfl, fun name hname => h name ?_⟩
  rw [Bool.eq_false_iff]
  intro hsame
  rw [← isNamed_congr hsame, hedited] at hname
  cases hname

variable {names : List String} {name : Text}

theorem addHeader (hname : isNamed name names = true) (request : HttpRequest) (value : Text) :
    Edits names request (request.addHeader name value) := by
  unfold HttpRequest.addHeader
  split
  · refine ofHeaders hname fun other hother => ?_
    rw [headersNamed_append, headersNamed_singleton_of_ne hother, List.append_nil]
  · exact refl names request

theorem setHeader (hname : isNamed name names = true) (request : HttpRequest) (value : Text) :
    Edits names request (request.setHeader name value) := by
  unfold HttpRequest.setHeader
  split
  · refine ofHeaders hname fun other hother => ?_
    rw [headersNamed_append, headersNamed_singleton_of_ne hother, List.append_nil,
      headersNamed_withoutHeader_of_ne request.headers hother]
  · exact refl names request

theorem removeHeader (hname : isNamed name names = true) (request : HttpRequest) :
    Edits names request (request.removeHeader name) :=
  ofHeaders hname fun _ hother => headersNamed_withoutHeader_of_ne request.headers hother

end Edits

/-! ## What the edits do to their own fields -/

namespace HttpRequest

variable (request : HttpRequest) {name other : Text}

theorem headersNamed_setHeader (h : Text.eqIgnoreAsciiCase name other = true) {value : Text}
    (hvalid : isValidHeader name value = true) :
    headersNamed (request.setHeader name value).headers other = [(name, value)] := by
  unfold setHeader
  rw [if_pos hvalid, headersNamed_append, headersNamed_withoutHeader_self _ h]
  simp [headersNamed, h]

theorem headersNamed_removeHeader (h : Text.eqIgnoreAsciiCase name other = true) :
    headersNamed (request.removeHeader name).headers other = [] :=
  headersNamed_withoutHeader_self request.headers h

end HttpRequest

/-- The fields a client adds for the value of its cookie store. -/
def cookieFields (cookieHeader : Option Text) : List (Text × Text) :=
  ((cookieHeader.filter fun value => isValidHeader "Cookie".toList value).map fun value =>
    ("Cookie".toList, value)).toList

theorem HttpRequest.headersNamed_addCookie (request : HttpRequest) (cookieHeader : Option Text) :
    headersNamed (request.addCookie cookieHeader).headers "cookie".toList =
      headersNamed request.headers "cookie".toList ++ cookieFields cookieHeader := by
  cases cookieHeader with
  | none => exact (List.append_nil _).symm
  | some value =>
    unfold addCookie addHeader cookieFields
    dsimp only
    by_cases hvalid : isValidHeader "Cookie".toList value = true
    · rw [if_pos hvalid, headersNamed_append, Option.filter_some, if_pos hvalid]
      rfl
    · rw [if_neg hvalid, Option.filter_some, if_neg hvalid]
      exact (List.append_nil _).symm

/-! ## Sending -/

/-- The fields a client edits before it sends a request. -/
def clientFields : List String := ["User-Agent", "Cookie"]

theorem Edits.applyUserAgent (env : Environment) (client : Client) (request : HttpRequest) :
    Edits clientFields request (request.applyUserAgent env client) := by
  unfold HttpRequest.applyUserAgent
  split
  · exact Edits.setHeader (by decide) request client.userAgent
  · exact Edits.refl _ request

theorem Edits.addCookie (request : HttpRequest) (cookieHeader : Option Text) :
    Edits clientFields request (request.addCookie cookieHeader) := by
  cases cookieHeader with
  | none => exact Edits.refl _ request
  | some value => exact Edits.addHeader (by decide) request value

/-- What `sendOnce` sends: the request it is given, with its cookies replaced. -/
theorem World.sendOnce_dispatch (env : Environment) (world : World) (request : HttpRequest)
    (credentials : Bool) :
    Edits clientFields request (world.sendOnce env request credentials).1.sent ∧
      headersNamed (world.sendOnce env request credentials).1.sent.headers "cookie".toList =
        cookieFields (world.sendOnce env request credentials).1.cookieHeader := by
  have hsent : (world.sendOnce env request credentials).1.sent =
      ((request.applyUserAgent env world.client).removeHeader "cookie".toList).addCookie
        (world.sendOnce env request credentials).1.cookieHeader := rfl
  have hremoved : headersNamed
      ((request.applyUserAgent env world.client).removeHeader "cookie".toList).headers
        "cookie".toList = [] := HttpRequest.headersNamed_removeHeader _ (by decide)
  rw [hsent]
  constructor
  · exact ((Edits.applyUserAgent env world.client request).trans
      (Edits.removeHeader (by decide) _)).trans (Edits.addCookie _ _)
  · rw [HttpRequest.headersNamed_addCookie, hremoved, List.nil_append]

/-- What a hop of `sendLoop` sends: the request it is given, with cookies added. -/
theorem World.sendHop_dispatch (env : Environment) (world : World) (request : HttpRequest) :
    Edits clientFields request (world.sendHop env request).1.sent ∧
      (headersNamed request.headers "cookie".toList = [] →
        headersNamed (world.sendHop env request).1.sent.headers "cookie".toList =
          cookieFields (world.sendHop env request).1.cookieHeader) := by
  have hagent := Edits.applyUserAgent env world.client request
  have hagentCookie : headersNamed (request.applyUserAgent env world.client).headers
      "cookie".toList = headersNamed request.headers "cookie".toList := by
    unfold HttpRequest.applyUserAgent
    split
    · have hedits : Edits ["User-Agent"] request (request.setHeader "User-Agent".toList _) :=
        Edits.setHeader (by decide) request world.client.userAgent
      exact hedits.headers "cookie".toList (by decide)
    · rfl
  obtain ⟨prepared, hsent, hprepared, hcookie⟩ : ∃ prepared,
      (world.sendHop env request).1.sent =
        prepared.addCookie (world.sendHop env request).1.cookieHeader ∧
      Edits clientFields request prepared ∧
      (headersNamed request.headers "cookie".toList = [] →
        headersNamed prepared.headers "cookie".toList = []) := by
    refine ⟨_, rfl, ?_, ?_⟩
    · split
      · exact hagent
      · exact hagent.trans (Edits.removeHeader (by decide) _)
    · intro hnone
      split
      · rw [hagentCookie, hnone]
      · exact HttpRequest.headersNamed_removeHeader _ (by decide)
  rw [hsent]
  refine ⟨hprepared.trans (Edits.addCookie _ _), fun hnone => ?_⟩
  rw [HttpRequest.headersNamed_addCookie, hcookie hnone, List.nil_append]

end Omoikane.Http
