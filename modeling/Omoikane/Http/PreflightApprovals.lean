import Omoikane.Http.FetchHops

/-!
# The origin of cached approvals

A preflight cache starts empty, and only fetches and merges change it.
`Built cache approvals` says that a cache came about in this way, where
`approvals` are the successful preflights on the way.  Every entry of such a cache
is the key and the expiry of one of them (`Built.justified`).
-/

namespace Omoikane.Http

open Base

/-- The successful preflight of a hop. -/
def Hop.approval (hop : Hop) : Option Approval :=
  match hop.clearance with
  | .approved approval _ => some approval
  | _ => none

/-- The successful preflights of some hops. -/
def approvalsOf (hops : List Hop) : List Approval := hops.filterMap Hop.approval

/-- How a preflight cache can come about. -/
inductive Built : PreflightCache → List Approval → Prop where
  | default : Built .default []
  | fetch {cache : PreflightCache} {approvals : List Approval} (built : Built cache approvals)
      (env : Environment) (policy : FetchPolicy) (world : World) (request : HttpRequest)
      (violations : List CorpViolation) :
      Built (fetchWithPolicy env policy world request cache violations).cache
        (approvals ++ approvalsOf (fetchWithPolicy env policy world request cache violations).hops)
  | merge {cache other : PreflightCache} {approvals more : List Approval}
      (built : Built cache approvals) (builtOther : Built other more) (now : Nat) :
      Built (cache.merge other now) (approvals ++ more)

/-- A preflight cache with the approvals on its way. -/
structure BuiltCache where
  cache : PreflightCache
  approvals : List Approval
  built : Built cache approvals

/-- Every entry of a cache is that of an approval. -/
def Justified (cache : PreflightCache) (approvals : List Approval) : Prop :=
  ∀ entry ∈ cache.entries, ∃ approval ∈ approvals,
    approval.key = entry.1 ∧ approval.expires = entry.2

namespace Justified

variable {cache : PreflightCache} {approvals : List Approval}

theorem mono {more : List Approval} (h : Justified cache approvals) (hsub : approvals ⊆ more) :
    Justified cache more := by
  intro entry hentry
  obtain ⟨approval, hmem, heq⟩ := h entry hentry
  exact ⟨approval, hsub hmem, heq⟩

theorem retainFresh (h : Justified cache approvals) (now : Nat) :
    Justified (cache.retainFresh now) approvals :=
  fun entry hentry => h entry (List.mem_of_mem_filter hentry)

theorem insert (h : Justified cache approvals) {key : PreflightCacheKey} {expires : Nat}
    (hnew : ∃ approval ∈ approvals, approval.key = key ∧ approval.expires = expires) :
    Justified (cache.insert key expires) approvals := by
  intro entry hentry
  rcases List.mem_append.mp hentry with hm | hm
  · exact h entry (List.mem_of_mem_filter hm)
  · rw [List.mem_singleton] at hm
    rw [hm]
    exact hnew

/-- The later of two expiries is one of them. -/
theorem mergeEntry (h : Justified cache approvals) (now : Nat) {entry : PreflightCacheKey × Nat}
    (hentry : ∃ approval ∈ approvals, approval.key = entry.1 ∧ approval.expires = entry.2) :
    Justified (cache.mergeEntry now entry) approvals := by
  unfold PreflightCache.mergeEntry
  split
  · split
    next current hcurrent =>
      rcases Nat.le_total current entry.2 with hle | hle
      · rw [Nat.max_eq_right hle]
        exact h.insert hentry
      · rw [Nat.max_eq_left hle]
        obtain ⟨old, hold, hkey, hvalue⟩ := Table.exists_mem_of_get_eq_some hcurrent
        obtain ⟨approval, hmem, happroval, hexpires⟩ := h old hold
        exact h.insert ⟨approval, hmem, happroval.trans hkey, hexpires.trans hvalue⟩
    · exact h.insert hentry
  · exact h

theorem merge {other : PreflightCache} {more : List Approval} (h : Justified cache approvals)
    (hother : Justified other more) (now : Nat) :
    Justified (cache.merge other now) (approvals ++ more) := by
  unfold PreflightCache.merge
  have hstart := (h.retainFresh now).mono (List.subset_append_left approvals more)
  have hentries := hother.mono (List.subset_append_right approvals more)
  revert hstart hentries
  generalize cache.retainFresh now = merged
  obtain ⟨entries⟩ := other
  clear hother
  intro hstart hentries
  induction entries generalizing merged with
  | nil => exact hstart
  | cons entry entries ih =>
    have hentry := hentries entry (List.mem_cons_self ..)
    exact ih _ (hstart.mergeEntry now hentry)
      (fun other ho => hentries other (List.mem_cons_of_mem _ ho))

end Justified

/-! ## Fetches -/

/-- A preflight adds the entry of its approval. -/
theorem PreflightResult.justified {env : Environment} {request : HttpRequest} {origin : Origin}
    {credentials : CredentialsMode} {cache : PreflightCache} {preflighted : Preflighted}
    (hresult : PreflightResult env request origin credentials cache preflighted)
    {approvals : List Approval} (h : Justified cache approvals) (hop : Hop)
    (hclearance : hop.clearance = preflighted.clearance) :
    Justified preflighted.cache (approvals ++ approvalsOf [hop]) := by
  cases hresult with
  | notNeeded => exact h.mono (List.subset_append_left ..)
  | cached now expires mem fresh world =>
    exact (h.retainFresh now).mono (List.subset_append_left ..)
  | refused error now world => exact (h.retainFresh now).mono (List.subset_append_left ..)
  | approved approval world key reply =>
    have happroval : approvalsOf [hop] = [approval] := by
      rw [approvalsOf, List.filterMap_cons_some (b := approval)]
      · rfl
      · rw [Hop.approval, hclearance]
    rw [happroval]
    refine ((h.retainFresh approval.now).mono (List.subset_append_left ..)).insert
      ⟨approval, List.mem_append_right _ (List.mem_singleton_self _), rfl, rfl⟩

theorem approvalsOf_append (hops more : List Hop) :
    approvalsOf (hops ++ more) = approvalsOf hops ++ approvalsOf more := List.filterMap_append ..

theorem approvalsOf_cons (hop : Hop) (hops : List Hop) :
    approvalsOf (hop :: hops) = approvalsOf [hop] ++ approvalsOf hops :=
  approvalsOf_append [hop] hops

namespace FetchPolicy

variable {env : Environment} {policy : FetchPolicy} {state : FetchState}
  {approvals : List Approval}

/-- A hop leaves a cache whose entries are those of approvals, its own among them. -/
theorem cleared_justified (h : Justified state.cache approvals) {hop : Hop}
    (hclearance : hop.clearance = (policy.cleared env state).clearance) :
    Justified (policy.cleared env state).cache (approvals ++ approvalsOf [hop]) := by
  unfold cleared clear at hclearance ⊢
  split at hclearance
  next hcors =>
    rw [if_pos hcors]
    exact (ensurePreflight_result _).justified h hop hclearance
  next hcors =>
    rw [if_neg hcors]
    exact h.mono (List.subset_append_left ..)

theorem loop_justified {unrestrictedOrigin : Option Origin} {initialUrl : Text}
    (remaining : Nat) (state : FetchState) : ∀ approvals, Justified state.cache approvals →
    Justified (policy.loop env unrestrictedOrigin initialUrl remaining state).cache
      (approvals ++
        approvalsOf (policy.loop env unrestrictedOrigin initialUrl remaining state).hops) := by
  refine FetchPolicy.loop_induct (P := fun _ state run => ∀ approvals,
    Justified state.cache approvals →
      Justified run.cache (approvals ++ approvalsOf run.hops)) ?_ ?_ ?_ remaining state
  · intro remaining state run hresult approvals h
    cases hresult with
    | refused error =>
      have hmono := h.mono (List.subset_append_left approvals (approvalsOf []))
      exact hmono
    | uncleared error clear => exact cleared_justified h rfl
    | failed clear error violations => exact cleared_justified h rfl
    | fetched clear response passes violations fetched responseType =>
      exact cleared_justified h rfl
  · intro remaining state hop response state' error hresult approvals h
    cases hresult with
    | redirect clear response passes violations => exact cleared_justified h rfl
  · intro remaining state hop response state' url rest hresult hrest approvals h
    cases hresult with
    | redirect clear response passes violations =>
      have hnext := hrest _ (cleared_justified h rfl : Justified
        (policy.cleared env state).cache (approvals ++ approvalsOf [policy.sentHop env state]))
      rw [List.append_assoc, ← approvalsOf_cons] at hnext
      exact hnext

end FetchPolicy

/-- Every entry of a cache that came about is that of a successful preflight. -/
theorem Built.justified {cache : PreflightCache} {approvals : List Approval}
    (h : Built cache approvals) : Justified cache approvals := by
  induction h with
  | default => exact fun _ h => absurd h List.not_mem_nil
  | fetch built env policy world request violations ih =>
    exact FetchPolicy.loop_justified _ _ _ ih
  | merge built builtOther now ih ihOther => exact ih.merge ihOther now

end Omoikane.Http
