import Omoikane.Http.HeaderEdits

/-!
# The hops of a fetch

What a preflight can come to (`PreflightResult`) and one turn of the loop of
`fetchWithPolicy` (`FetchPolicy.HopResult`), and the induction over the turns
(`FetchPolicy.loop_induct`).
-/

namespace Omoikane.Http

open Base

/-! ## One preflight -/

section Preflight

variable (env : Environment) (request : HttpRequest) (origin : Origin)
  (credentials : CredentialsMode) (cache : PreflightCache)

/-- The exchange of the preflight of a request, in a world. -/
def preflighting (world : World) : Dispatch × World :=
  world.sendOnce env (preflightRequest env request (preflightKey request origin credentials)) false

/-- What `ensure_preflight` can come to. -/
inductive PreflightResult : Preflighted → Prop where
  | notNeeded (unneeded : ¬ NeedsPreflight request) (world : World) :
      PreflightResult { result := .ok (), clearance := .notNeeded, cache, world }
  | cached (now expires : Nat)
      (mem : (preflightKey request origin credentials, expires) ∈ cache.entries)
      (fresh : now < expires) (world : World) :
      PreflightResult {
        result := .ok ()
        clearance := .cached (preflightKey request origin credentials) now
        cache := cache.retainFresh now
        world }
  | refused (error : CorsError) (now : Nat) (world : World) :
      PreflightResult {
        result := .error error
        clearance := .refused (preflighting env request origin credentials world).1
        cache := cache.retainFresh now
        world := (preflighting env request origin credentials world).2 }
  | approved (approval : Approval) (world : World)
      (key : approval.key = preflightKey request origin credentials)
      (reply : (preflighting env request origin credentials world).1.reply =
        .ok approval.response) :
      PreflightResult {
        result := .ok ()
        clearance := .approved approval (preflighting env request origin credentials world).1
        cache := (cache.retainFresh approval.now).insert approval.key approval.expires
        world := (preflighting env request origin credentials world).2 }

variable {env request origin credentials cache}

theorem judgePreflight_result (now : Nat) (world : World) :
    PreflightResult env request origin credentials cache
      (judgePreflight (preflightKey request origin credentials) credentials rfl now
        (preflighting env request origin credentials world).1 (cache.retainFresh now)
        (preflighting env request origin credentials world).2) := by
  unfold judgePreflight
  split
  · exact .refused _ now world
  next response hreply =>
    split
    · exact .refused _ now world
    · exact .approved _ world rfl hreply

/-- Every call of `ensure_preflight` comes to one of these. -/
theorem ensurePreflight_result (world : World) :
    PreflightResult env request origin credentials cache
      (ensurePreflight env world request origin credentials cache) := by
  unfold ensurePreflight
  dsimp only
  split
  next hsafe =>
    refine .notNeeded ?_ world
    rw [needsPreflight_iff]
    intro hneeded
    rw [show (isCorsSafelistedMethod request.method && corsUnsafeHeaderNames request = []) = true
      from hsafe] at hneeded
    cases hneeded
  next =>
    split
    next hfresh =>
      have hsome : ((cache.retainFresh (env.instants world.turn)).entries.get
          (preflightKey request origin credentials)).isSome = true := hfresh
      obtain ⟨expires, hget⟩ := Option.isSome_iff_exists.mp hsome
      obtain ⟨entry, hentry, hkey, -⟩ := Table.exists_mem_of_get_eq_some hget
      obtain ⟨hmem, hlt⟩ := List.mem_filter.mp hentry
      refine .cached _ entry.2 ?_ (of_decide_eq_true hlt) _
      rw [← hkey]
      exact hmem
    next => exact judgePreflight_result _ _

end Preflight

namespace FetchPolicy

variable (env : Environment) (policy : FetchPolicy) (state : FetchState)

/-! ## One turn -/

/-- The preflight of the hop of a state. -/
def cleared : Preflighted := policy.clear env (policy.enter state)

/-- The exchange of the hop of a state. -/
def sending : Dispatch × World :=
  (policy.cleared env state).world.sendOnce env (policy.enter state).request
    (policy.sendCredentials (policy.enter state).crossOriginSeen)

/-- The hop of a state whose preflight was refused. -/
def unsentHop : Hop where
  request := (policy.enter state).request
  clearance := (policy.cleared env state).clearance
  dispatch := none

/-- The hop of a state that is sent. -/
def sentHop : Hop where
  request := (policy.enter state).request
  clearance := (policy.cleared env state).clearance
  dispatch := some (policy.sending env state).1

/-- The state after the exchange. -/
def afterHop (violations : List CorpViolation) : FetchState where
  request := (policy.enter state).request
  redirected := state.redirected
  crossOriginSeen := (policy.enter state).crossOriginSeen
  corsOrigin := state.corsOrigin
  cache := (policy.cleared env state).cache
  violations
  world := (policy.sending env state).2

/-- A response that may be used: its CORS check passes, where there is one. -/
structure Passes (response : HttpResponse) : Prop where
  mode : policy.mode = .sameOrigin → policy.origin.isSameOrigin state.request.url = true
  reply : (policy.sending env state).1.reply = .ok response
  check : (policy.enter state).crossOriginSeen = true → policy.mode = .cors →
    corsCheck response state.corsOrigin policy.credentials = .ok ()

/-- What a turn of the loop can come to. -/
inductive HopResult : HopOutcome → Prop where
  /-- Nothing is sent. -/
  | refused (error : CorsError) : HopResult (.done (state.finish [] (.error error)))
  /-- The preflight fails. -/
  | uncleared (error : CorsError) (clear : (policy.cleared env state).result = .error error) :
      HopResult (.done {
        result := .error error
        hops := [policy.unsentHop env state]
        cache := (policy.cleared env state).cache
        violations := state.violations
        world := (policy.cleared env state).world })
  /-- The exchange fails, or a check of its response. -/
  | failed (clear : (policy.cleared env state).result = .ok ()) (error : CorsError)
      (violations : List CorpViolation) :
      HopResult (.done ((policy.afterHop env state violations).finish
        [policy.sentHop env state] (.error error)))
  | fetched (clear : (policy.cleared env state).result = .ok ()) (response : HttpResponse)
      (passes : policy.Passes env state response) (violations : List CorpViolation)
      (fetched : FetchResponse)
      (responseType : fetched.responseType = .opaqueRedirect ∨
        fetched.responseType = policy.responseType (policy.enter state).crossOriginSeen) :
      HopResult (.done ((policy.afterHop env state violations).finish
        [policy.sentHop env state] (.ok fetched)))
  | redirect (clear : (policy.cleared env state).result = .ok ()) (response : HttpResponse)
      (passes : policy.Passes env state response) (violations : List CorpViolation) :
      HopResult (.redirect (policy.sentHop env state) response
        (policy.afterHop env state violations))

variable {env policy state}

theorem judge_result
    (mode : policy.mode = .sameOrigin → policy.origin.isSameOrigin state.request.url = true)
    (clear : (policy.cleared env state).result = .ok ()) (redirectCount : Nat)
    {response : HttpResponse} (hreply : (policy.sending env state).1.reply = .ok response)
    (violations : List CorpViolation) :
    HopResult env policy state (policy.judge redirectCount (policy.sentHop env state)
      (policy.afterHop env state violations) response) := by
  unfold judge
  dsimp only
  split
  · exact .failed clear _ violations
  next hchecked =>
    have passes : policy.Passes env state response := by
      refine ⟨mode, hreply, fun hseen hmode => ?_⟩
      have hcors : ((policy.afterHop env state violations).crossOriginSeen &&
          decide (policy.mode = .cors)) = true := by
        rw [hmode]
        exact (Bool.and_true _).trans hseen
      rw [if_pos hcors] at hchecked
      exact hchecked
    split
    · split
      · exact .failed clear _ violations
      · exact .fetched clear response passes violations _ (Or.inl rfl)
      · exact .redirect clear response passes violations
    · exact .fetched clear response passes violations _ (Or.inr rfl)

/-- Every turn of the loop comes to one of these. -/
theorem hop_result (initialUrl : Text) (redirectCount : Nat) :
    HopResult env policy state (policy.hop env initialUrl redirectCount state) := by
  unfold hop
  split
  · exact .refused _
  · split
    · exact .refused _
    next hsame =>
      have mode : policy.mode = .sameOrigin →
          policy.origin.isSameOrigin state.request.url = true := by
        intro hmode
        rw [hmode] at hsame
        simpa using hsame
      dsimp only
      split
      next error herror => exact .uncleared error herror
      next hclear =>
        unfold FetchPolicy.dispatch
        dsimp only
        split
        · exact .failed hclear _ state.violations
        next response hreply =>
          split
          · exact .failed hclear _ (state.violations ++ _)
          · exact judge_result mode hclear redirectCount hreply (state.violations ++ _)

/-! ## All turns -/

/-- Induction over the turns of the loop: a turn that ends it, a redirect that is
not followed after all, and a redirect that is followed. -/
theorem loop_induct {unrestrictedOrigin : Option Origin} {initialUrl : Text}
    {P : Nat → FetchState → FetchRun → Prop}
    (hdone : ∀ remaining state run, HopResult env policy state (.done run) →
      P remaining state run)
    (hstop : ∀ remaining state hop response state' error,
      HopResult env policy state (.redirect hop response state') →
        P remaining state (state'.finish [hop] (.error error)))
    (hfollow : ∀ remaining state hop response state' url rest,
      HopResult env policy state (.redirect hop response state') →
        P remaining (policy.follow env unrestrictedOrigin state' response url) rest →
          P (remaining + 1) state { rest with hops := hop :: rest.hops }) :
    ∀ remaining state, P remaining state
      (policy.loop env unrestrictedOrigin initialUrl remaining state) := by
  intro remaining
  induction remaining with
  | zero =>
    intro state
    have hresult : HopResult env policy state
        (policy.hop env initialUrl (maxFetchRedirects - 0) state) := hop_result ..
    unfold loop
    split
    next run hrun => exact hdone 0 state run (hrun ▸ hresult)
    next hop response state' hredirect =>
      exact hstop 0 state hop response state' _ (hredirect ▸ hresult)
  | succ remaining ih =>
    intro state
    have hresult : HopResult env policy state
        (policy.hop env initialUrl (maxFetchRedirects - (remaining + 1)) state) := hop_result ..
    unfold loop
    split
    next run hrun => exact hdone _ state run (hrun ▸ hresult)
    next hop response state' hredirect =>
      rw [hredirect] at hresult
      dsimp only
      split
      · exact hstop _ state hop response state' _ hresult
      next url _ => exact hfollow remaining state hop response state' url _ hresult (ih _)

end FetchPolicy

end Omoikane.Http
