import Omoikane.Http.CookieHistory
import Omoikane.Http.CookieIntegrity

/-!
# Watching one name

An observer reads the cookies it may see and is told of the changes to them.
The feed filters a change by the cookie it carries, and a replacement carries
the new cookie only; so a visible cookie can be replaced by one the observer
cannot see without any report.  The code reports the old cookie's deletion when
the new one is HttpOnly, and misses the other ways of being hidden (`Hides`).

For one name, `watched` is the multiset of the visible values, and a step
`reports` the watched records it makes.  A harmless step without a report leaves
the watched values alone (`watched_of_quiet`).  If all cookies of the name are
one cookie, the last report of a step says which value is left, if any
(`watched_of_last`).
-/

namespace Omoikane.Http

open Base

/-! ## The observer -/

/-- A document that reads cookies and changes. -/
structure Observer where
  url : Url
  siteForCookies : Url
  access : CookieAccessContext

namespace Observer

variable (psl : Psl) (observer : Observer)

/-- The observer may see the cookie, were it not expired. -/
def sees (cookie : Cookie) : Bool :=
  CookieJar.seesChangeOf psl observer.url observer.siteForCookies observer.access cookie

/-- The values of the cookies with one name the observer reads. -/
def valuesNamed (jar : CookieJar) (now : SystemTime) (name : Text) : List Text :=
  ((jar.scriptVisibleCookiePairsWithAccess psl observer.url observer.siteForCookies
    observer.access now).filter fun pair => pair.1 == name).map Prod.snd

/-- The changes of one name the observer is told after a cursor. -/
def changesNamed (jar : CookieJar) (sequence : Nat) (name : Text) : List CookieStoreChange :=
  (jar.scriptVisibleChangesSinceWithAccess psl sequence observer.url observer.siteForCookies
    observer.access).2.filter fun change => change.name == name

/-- A cookie of the watched name that the observer may see. -/
def watches (name : Text) (cookie : Cookie) : Bool :=
  cookie.name == name && observer.sees psl cookie

/-- The values of the watched cookies of a list. -/
def watchedIn (name : Text) (entries : List (Cookie × Text)) : Multiset Text :=
  (((entries.map Prod.fst).filter (observer.watches psl name)).map Cookie.value : List Text)

/-- The values of the watched cookies of a jar. -/
def watched (name : Text) (jar : CookieJar) : Multiset Text :=
  observer.watchedIn psl name jar.cookies

/-- The records of a step that the observer is told about the watched name. -/
def reports (name : Text) (jar : CookieJar) (step : JarStep) : List CookieRecord :=
  (step.records jar).filter fun record => observer.watches psl name record.cookie

/-! ### Watched values -/

variable {psl observer} {name : Text}

theorem watches_iff {cookie : Cookie} :
    observer.watches psl name cookie = true ↔
      cookie.name = name ∧ observer.sees psl cookie = true := by
  simp [watches]

theorem sees_not_httpOnly {cookie : Cookie} (h : observer.sees psl cookie = true) :
    cookie.httpOnly = false := by
  simp only [sees, CookieJar.seesChangeOf, Bool.and_eq_true, Bool.not_eq_true'] at h
  exact h.1.1.2

@[simp] theorem watchedIn_nil : observer.watchedIn psl name [] = 0 := rfl

theorem watchedIn_append (xs ys : List (Cookie × Text)) :
    observer.watchedIn psl name (xs ++ ys) =
      observer.watchedIn psl name xs + observer.watchedIn psl name ys := by
  simp [watchedIn]

theorem watchedIn_cons (entry : Cookie × Text) (entries : List (Cookie × Text)) :
    observer.watchedIn psl name (entry :: entries) =
      observer.watchedIn psl name [entry] + observer.watchedIn psl name entries :=
  watchedIn_append [entry] entries

theorem watchedIn_perm {xs ys : List (Cookie × Text)} (h : xs.Perm ys) :
    observer.watchedIn psl name xs = observer.watchedIn psl name ys :=
  Multiset.coe_eq_coe.mpr (((h.map _).filter _).map _)

theorem watchedIn_eq_zero {entries : List (Cookie × Text)}
    (h : ∀ entry ∈ entries, observer.watches psl name entry.1 = false) :
    observer.watchedIn psl name entries = 0 := by
  have hnil : (entries.map Prod.fst).filter (observer.watches psl name) = [] := by
    rw [List.filter_eq_nil_iff]
    intro cookie hc
    obtain ⟨entry, hentry, rfl⟩ := List.mem_map.mp hc
    simp [h entry hentry]
  simp [watchedIn, hnil]

theorem watchedIn_singleton (entry : Cookie × Text) :
    observer.watchedIn psl name [entry] =
      if observer.watches psl name entry.1 then {entry.1.value} else 0 := by
  unfold watchedIn
  cases h : observer.watches psl name entry.1 <;> simp [h]

variable (psl observer name) in
/-- In a jar without expired cookies a read selects the cookies the observer sees. -/
theorem valuesNamed_eq {jar : CookieJar} {now : SystemTime}
    (hfresh : ∀ entry ∈ jar.cookies, entry.1.isExpired now = false) :
    (observer.valuesNamed psl jar now name : Multiset Text) = observer.watched psl name jar := by
  have hselects : (jar.cookies.map Prod.fst).filter
      ((CookieQuery.script observer.url observer.siteForCookies observer.access now).selects psl) =
      (jar.cookies.map Prod.fst).filter (observer.sees psl) := by
    refine List.filter_congr fun cookie hc => ?_
    obtain ⟨entry, hentry, rfl⟩ := List.mem_map.mp hc
    simp [CookieQuery.selects, CookieQuery.script, sees, CookieJar.seesChangeOf,
      hfresh entry hentry, Bool.and_comm, Bool.and_left_comm]
  have hperm : (jar.matchingCookies psl (CookieQuery.script observer.url observer.siteForCookies
      observer.access now)).Perm ((jar.cookies.map Prod.fst).filter (observer.sees psl)) := by
    rw [← hselects]
    exact List.perm_insertionSort ..
  have hvalues : observer.valuesNamed psl jar now name =
      ((jar.matchingCookies psl (CookieQuery.script observer.url observer.siteForCookies
        observer.access now)).filter fun cookie => cookie.name == name).map Cookie.value := by
    unfold valuesNamed CookieJar.scriptVisibleCookiePairsWithAccess CookieJar.matchingPairs
    rw [List.filter_map, List.map_map]
    rfl
  unfold watched watchedIn
  rw [hvalues, Multiset.coe_eq_coe]
  refine ((hperm.filter _).map _).trans ?_
  rw [List.filter_filter]
  exact List.Perm.refl _

end Observer

/-! ## Steps that hide a visible cookie -/

/-- The cookie replaces one that the observer sees and is hidden from the
observer, other than by the HttpOnly flag of a cookie that is kept. -/
def Hides (psl : Psl) (observer : Observer) (jar : CookieJar) (cookie : Cookie)
    (now : SystemTime) : Prop :=
  ∃ entry ∈ jar.cookies, entry.1.isExpired now = false ∧ replaces cookie entry.1 = true ∧
    observer.sees psl entry.1 = true ∧ observer.sees psl cookie = false ∧
    ¬ (cookie.httpOnly = true ∧ cookie.isExpired now = false)

/-! ## One step -/

/-- The partition key is there exactly when the cookie is partitioned. -/
def Cookie.Keyed (cookie : Cookie) : Prop := cookie.partitioned = cookie.partitionKey.isSome

/-- The invariant of the watch. -/
structure Watchable (jar : CookieJar) : Prop where
  distinct : jar.DistinctIdentities
  keyed : ∀ entry ∈ jar.cookies, entry.1.Keyed

/-- What the watch needs of a step. -/
def JarStep.Harmless (psl : Psl) (observer : Observer) (jar : CookieJar) : JarStep → Prop
  | .drop _ => True
  | .replace cookie _ _ now =>
    cookie.Keyed ∧ (∀ entry ∈ jar.cookies, entry.1.isExpired now = false) ∧
      ¬ Hides psl observer jar cookie now

theorem Watchable.apply {psl : Psl} {observer : Observer} {jar : CookieJar} {step : JarStep}
    (h : Watchable jar) (hstep : step.Harmless psl observer jar) : Watchable (step.apply jar) := by
  cases step with
  | drop gone =>
    have hsub : ((JarStep.drop gone).apply jar).cookies.Sublist jar.cookies := by
      rw [JarStep.apply_cookies]
      exact List.filter_sublist
    exact ⟨h.distinct.filter hsub, fun entry he => h.keyed entry (hsub.subset he)⟩
  | replace cookie originDomain individualEvent now =>
    refine ⟨h.distinct.replace _ _ _ _ _, ?_⟩
    intro entry he
    rw [JarStep.apply_cookies, JarStep.cookies, List.mem_append] at he
    rcases he with he | he
    · exact h.keyed entry (List.mem_of_mem_filter he)
    · split at he
      · cases he
      · obtain rfl := List.mem_singleton.mp he
        exact hstep.1

/-- The replaced entry, at most one, and the entries that stay. -/
theorem replaced_perm (cookie : Cookie) : ∀ {entries : List (Cookie × Text)},
    (entries.map fun entry => entry.1.identity).Nodup →
    ((entries.find? fun entry => replaces cookie entry.1) = none ∧
      (entries.filter fun entry => !replaces cookie entry.1) = entries) ∨
    ∃ entry ∈ entries, (entries.find? fun entry => replaces cookie entry.1) = some entry ∧
      replaces cookie entry.1 = true ∧
      entries.Perm (entry :: entries.filter fun entry => !replaces cookie entry.1)
  | [], _ => Or.inl ⟨rfl, rfl⟩
  | entry :: entries, h => by
    rw [List.map_cons, List.nodup_cons] at h
    cases hr : replaces cookie entry.1 with
    | true =>
      refine Or.inr ⟨entry, List.mem_cons_self .., List.find?_cons_of_pos hr, hr, ?_⟩
      rw [List.filter_cons_of_neg (by simp [hr])]
      refine List.Perm.cons _ (List.Perm.of_eq ?_)
      refine (List.filter_eq_self.mpr fun other ho => ?_).symm
      rw [Bool.not_eq_true', Bool.eq_false_iff]
      intro hro
      refine h.1 (List.mem_map.mpr ⟨other, ho, ?_⟩)
      exact (replaces_iff.mp hro).trans (replaces_iff.mp hr).symm
    | false =>
      rw [List.find?_cons_of_neg (by simp [hr]), List.filter_cons_of_pos (by simp [hr])]
      rcases replaced_perm cookie h.2 with ⟨hnone, heq⟩ | ⟨other, ho, hsome, hro, hperm⟩
      · exact Or.inl ⟨hnone, by rw [heq]⟩
      · refine Or.inr ⟨other, List.mem_cons_of_mem _ ho, hsome, hro, ?_⟩
        exact (hperm.cons entry).trans (List.Perm.swap ..)

namespace Observer

variable {psl : Psl} {observer : Observer} {name : Text}

/-- An unchanged replacement is as visible as the cookie it replaces. -/
theorem sees_of_unchanged {cookie old : Cookie} (hk : cookie.Keyed) (hk' : old.Keyed)
    (hr : replaces cookie old = true) (hu : unchangedFrom cookie old = true) :
    observer.sees psl cookie = observer.sees psl old := by
  rw [replaces_iff] at hr
  simp only [Cookie.identity, Prod.mk.injEq] at hr
  obtain ⟨hkey, -, hdomain, hpath, honly⟩ := hr
  simp only [unchangedFrom, Bool.and_eq_true, beq_iff_eq] at hu
  obtain ⟨⟨⟨⟨⟨-, hsecure⟩, hhttp⟩, hsite⟩, -⟩, -⟩ := hu
  have hpart : old.partitioned = cookie.partitioned := by rw [hk', hk, hkey]
  simp only [sees, CookieJar.seesChangeOf, CookieAccessContext.permits, Cookie.matchesUrl, hkey,
    hdomain, hpath, honly, hsecure, hhttp, hsite, hpart]

/-- A replacing cookie that the observer watches is reported, or was visible
with the same value before. -/
theorem reports_replace {jar : CookieJar} {cookie : Cookie} {originDomain : Text}
    {individualEvent : Bool} {now : SystemTime} (hw : observer.watches psl name cookie = true)
    (hq : observer.reports psl name jar (.replace cookie originDomain individualEvent now) = []) :
    cookie.isExpired now = false ∧ ∃ old, jar.replacedBy cookie = some old ∧
      unchangedFrom cookie old = true := by
  unfold reports JarStep.records at hq
  cases he : cookie.isExpired now with
  | true => simp [he, hw] at hq
  | false =>
    simp only [he, Bool.false_eq_true, if_false, List.filter_append, List.append_eq_nil_iff] at hq
    obtain ⟨-, hnew⟩ := hq
    split at hnew
    next hu =>
      obtain ⟨old, hold, hunch⟩ := (Option.any_eq_true ..).mp hu
      exact ⟨rfl, old, (Option.filter_eq_some_iff.mp hold).1, hunch⟩
    next => simp [hw] at hnew

/-- A harmless step without a report leaves the watched values alone. -/
theorem watched_of_quiet {jar : CookieJar} {step : JarStep} (h : Watchable jar)
    (hstep : step.Harmless psl observer jar) (hq : observer.reports psl name jar step = []) :
    observer.watched psl name (step.apply jar) = observer.watched psl name jar := by
  unfold watched
  rw [JarStep.apply_cookies]
  cases step with
  | drop gone =>
    -- no watched cookie is gone
    have hgone : ∀ entry ∈ jar.cookies, observer.watches psl name entry.1 = true →
        gone entry.1 = false := by
      intro entry hentry hw
      apply Bool.eq_false_iff.mpr
      intro hg
      unfold reports JarStep.records at hq
      rw [List.filter_eq_nil_iff] at hq
      refine hq (CookieRecord.deletion entry.1) ?_ hw
      exact List.mem_map_of_mem (List.mem_filter.mpr ⟨List.mem_map_of_mem hentry, hg⟩)
    have hperm : jar.cookies.Perm ((jar.cookies.filter fun entry => !gone entry.1) ++
        jar.cookies.filter fun entry => !!gone entry.1) :=
      (List.filter_append_perm _ _).symm
    have hzero : observer.watchedIn psl name
        (jar.cookies.filter fun entry => !!gone entry.1) = 0 := by
      refine watchedIn_eq_zero fun entry hentry => ?_
      obtain ⟨hmem, hg⟩ := List.mem_filter.mp hentry
      apply Bool.eq_false_iff.mpr
      intro hw
      simp [hgone entry hmem hw] at hg
    rw [watchedIn_perm hperm, watchedIn_append, hzero, add_zero]
    rfl
  | replace cookie originDomain individualEvent now =>
    obtain ⟨hkeyed, hunexpired, hhides⟩ := hstep
    rw [JarStep.cookies, watchedIn_append]
    rcases replaced_perm cookie h.distinct with ⟨hnone, heq⟩ | ⟨entry, hentry, hfind, hr, hperm⟩
    · -- nothing is replaced, so a watched new cookie would be reported
      rw [heq]
      suffices hz : observer.watchedIn psl name
          (if cookie.isExpired now = true then [] else [(cookie, originDomain)]) = 0 by
        rw [hz, add_zero]
      refine watchedIn_eq_zero fun new hnew => ?_
      split at hnew
      · cases hnew
      · obtain rfl := List.mem_singleton.mp hnew
        apply Bool.eq_false_iff.mpr
        intro hw
        obtain ⟨-, old, hold, -⟩ := reports_replace hw hq
        rw [CookieJar.replacedBy, hnone] at hold
        cases hold
    · have hsome : jar.replacedBy cookie = some entry.1 := by rw [CookieJar.replacedBy, hfind]; rfl
      rw [watchedIn_perm hperm, watchedIn_cons, add_comm]
      congr 1
      have hname : entry.1.name = cookie.name := by
        have hid := replaces_iff.mp hr
        simp only [Cookie.identity, Prod.mk.injEq] at hid
        exact hid.2.1
      by_cases hw : observer.watches psl name cookie = true
      · -- the new cookie is watched: it is unchanged, so the old one was watched too
        obtain ⟨he, old, hold, hunch⟩ := reports_replace hw hq
        obtain rfl : entry.1 = old := Option.some.inj (hsome.symm.trans hold)
        have hsees : observer.sees psl cookie = observer.sees psl entry.1 :=
          sees_of_unchanged hkeyed (h.keyed entry hentry) hr hunch
        have hw' : observer.watches psl name entry.1 = true := by
          rw [watches_iff] at hw ⊢
          exact ⟨hname.trans hw.1, hsees ▸ hw.2⟩
        have hvalue : entry.1.value = cookie.value := by
          simp only [unchangedFrom, Bool.and_eq_true, beq_iff_eq] at hunch
          exact hunch.1.1.1.1.1
        simp [he, watchedIn_singleton, hw, hw', hvalue]
      · -- the new cookie is not watched: neither was the old one
        have hnew : observer.watchedIn psl name
            (if cookie.isExpired now = true then [] else [(cookie, originDomain)]) = 0 := by
          refine watchedIn_eq_zero fun new hnew => ?_
          split at hnew
          · cases hnew
          · obtain rfl := List.mem_singleton.mp hnew
            simpa using hw
        have hold : observer.watches psl name entry.1 = false := by
          apply Bool.eq_false_iff.mpr
          intro hw'
          obtain ⟨hn, hsees⟩ := watches_iff.mp hw'
          have hhidden : observer.sees psl cookie = false := by
            apply Bool.eq_false_iff.mpr
            exact fun hs => hw (watches_iff.mpr ⟨hname.symm.trans hn, hs⟩)
          have hexp := hunexpired entry hentry
          by_cases hhttp : cookie.httpOnly = true ∧ cookie.isExpired now = false
          · -- an HttpOnly replacement reports the deletion
            unfold reports JarStep.records at hq
            rw [List.filter_eq_nil_iff] at hq
            refine hq { cookie := entry.1, deleted := true, individualEvent } ?_ hw'
            simp [hhttp.1, hhttp.2, hsome, Option.filter, hexp]
          · exact hhides ⟨entry, hentry, hexp, hr, hsees, hhidden, hhttp⟩
        rw [hnew, watchedIn_singleton, hold]
        rfl

end Observer

/-! ## A name of one cookie -/

/-- All cookies of the name in a jar have one identity. -/
def CookieJar.SoleName (name : Text) (identity : CookieIdentity) (jar : CookieJar) : Prop :=
  ∀ entry ∈ jar.cookies, entry.1.name = name → entry.1.identity = identity

/-- A step brings no cookie of the name with another identity. -/
def JarStep.SoleName (name : Text) (identity : CookieIdentity) : JarStep → Prop
  | .drop _ => True
  | .replace cookie _ _ _ => cookie.name = name → cookie.identity = identity

/-- A record says what values its name is left with. -/
def CookieRecord.Describes (record : CookieRecord) (values : Multiset Text) : Prop :=
  values = if record.deleted then 0 else {record.cookie.value}

theorem CookieJar.SoleName.apply {name : Text} {identity : CookieIdentity} {jar : CookieJar}
    {step : JarStep} (h : jar.SoleName name identity) (hstep : step.SoleName name identity) :
    (step.apply jar).SoleName name identity := by
  intro entry hentry
  rw [JarStep.apply_cookies] at hentry
  cases step with
  | drop gone => exact h entry (List.mem_of_mem_filter hentry)
  | replace cookie originDomain individualEvent now =>
    rcases List.mem_append.mp hentry with hentry | hentry
    · exact h entry (List.mem_of_mem_filter hentry)
    · split at hentry
      · cases hentry
      · obtain rfl := List.mem_singleton.mp hentry
        exact hstep

/-- Entries of a jar with one identity are one entry. -/
theorem CookieJar.DistinctIdentities.eq_of_identity {jar : CookieJar} (h : jar.DistinctIdentities)
    {entry other : Cookie × Text} (he : entry ∈ jar.cookies) (ho : other ∈ jar.cookies)
    (heq : entry.1.identity = other.1.identity) : entry = other :=
  List.inj_on_of_nodup_map h he ho heq

namespace Observer

variable {psl : Psl} {observer : Observer} {name : Text} {identity : CookieIdentity}

/-- Nothing of the name stays when its only cookie is replaced. -/
theorem watchedIn_rest {jar : CookieJar} (hsole : jar.SoleName name identity) {cookie : Cookie}
    (hc : cookie.identity = identity) :
    observer.watchedIn psl name (jar.cookies.filter fun entry => !replaces cookie entry.1) = 0 := by
  refine watchedIn_eq_zero fun entry hentry => ?_
  obtain ⟨hmem, hr⟩ := List.mem_filter.mp hentry
  apply Bool.eq_false_iff.mpr
  intro hw
  have hid := hsole entry hmem (watches_iff.mp hw).1
  rw [Bool.not_eq_true', Bool.eq_false_iff] at hr
  exact hr (replaces_iff.mpr (hid.trans hc.symm))

/-- The last report of a step says what is left of a name of one cookie. -/
theorem watched_of_last {jar : CookieJar} {step : JarStep} {record : CookieRecord}
    (h : Watchable jar) (hsole : jar.SoleName name identity) (hstep : step.SoleName name identity)
    (hlast : (observer.reports psl name jar step).getLast? = some record) :
    record.Describes (observer.watched psl name (step.apply jar)) := by
  have hreport := List.mem_of_getLast? hlast
  unfold watched
  rw [JarStep.apply_cookies]
  cases step with
  | drop gone =>
    obtain ⟨hrecord, hw⟩ := List.mem_filter.mp hreport
    obtain ⟨cookie, hcookie, rfl⟩ := List.mem_map.mp hrecord
    obtain ⟨hmem, hgone⟩ := List.mem_filter.mp hcookie
    obtain ⟨entry, hentry, rfl⟩ := List.mem_map.mp hmem
    -- every watched entry is the one that is gone
    refine watchedIn_eq_zero fun other hother => ?_
    obtain ⟨ho, hkept⟩ := List.mem_filter.mp hother
    apply Bool.eq_false_iff.mpr
    intro hw'
    have hid : other.1.identity = entry.1.identity :=
      (hsole other ho (watches_iff.mp hw').1).trans
        (hsole entry hentry (watches_iff.mp hw).1).symm
    obtain rfl := h.distinct.eq_of_identity ho hentry hid
    rw [hgone] at hkept
    cases hkept
  | replace cookie originDomain individualEvent now =>
    rw [JarStep.cookies, watchedIn_append]
    unfold reports JarStep.records at hlast hreport
    cases he : cookie.isExpired now with
    | true =>
      simp only [he, if_true] at hreport
      obtain ⟨hrecord, hw⟩ := List.mem_filter.mp hreport
      obtain rfl := List.mem_singleton.mp hrecord
      rw [watchedIn_rest hsole (hstep (watches_iff.mp hw).1)]
      rfl
    | false =>
      simp only [he, Bool.false_eq_true, if_false, List.filter_append] at hlast hreport ⊢
      by_cases hw : observer.watches psl name cookie = true
      · -- the new cookie is watched, so it is the only report
        obtain ⟨hname, hsees⟩ := watches_iff.mp hw
        simp only [sees_not_httpOnly hsees, Bool.false_eq_true, if_false, List.filter_nil,
          List.nil_append] at hreport
        rw [watchedIn_rest hsole (hstep hname), watchedIn_singleton, if_pos hw, zero_add]
        split at hreport
        · cases hreport
        · obtain rfl := List.mem_singleton.mp (List.mem_of_mem_filter hreport)
          rfl
      · -- the new cookie is not watched, so the report is the deletion of the old one
        rcases List.mem_append.mp hreport with hold | hnew
        · obtain ⟨hrecord, hw'⟩ := List.mem_filter.mp hold
          split at hrecord
          next hhttp =>
            obtain ⟨old, hcurrent, rfl⟩ := List.mem_map.mp hrecord
            obtain ⟨hreplaced, -⟩ := Option.filter_eq_some_iff.mp (Option.mem_toList.mp hcurrent)
            obtain ⟨entry, hfind, rfl⟩ := Option.map_eq_some_iff.mp hreplaced
            have hr : replaces cookie entry.1 = true := by simpa using List.find?_some hfind
            have hid : cookie.identity = identity :=
              (replaces_iff.mp hr).symm.trans
                (hsole entry (List.mem_of_find?_eq_some hfind) (watches_iff.mp hw').1)
            rw [watchedIn_rest hsole hid, watchedIn_singleton, if_neg hw]
            rfl
          next => cases hrecord
        · split at hnew
          · cases hnew
          · obtain ⟨hrecord, hw'⟩ := List.mem_filter.mp hnew
            obtain rfl := List.mem_singleton.mp hrecord
            exact absurd hw' hw

end Observer

end Omoikane.Http
