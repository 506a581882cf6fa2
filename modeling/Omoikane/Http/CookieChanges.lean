import Omoikane.Http.CookieWatch

/-!
# The change feed

A script that polls the feed should hear of every name whose visible values
changed.  It does along every run in which no write hides a visible cookie
(`changes_reported`).  `hidden_replacement_unreported` is a run with such a
write: a cross-site document sees a `SameSite=None` cookie, a response replaces
it by a `SameSite=Strict` one, and the feed stays silent.

A run of operations is a run of elementary steps, so the two halves are the
rules for reporting runs at `watched` and `reports`.

An observer may poll whenever it likes, as long as the history keeps what was
recorded since the last poll (`polls_report_once`).
-/

namespace Omoikane.Http

open Base

/-! ## From operations to steps -/

/-- The operation stores a cookie that hides a visible one. -/
def JarOp.HidesVisible (psl : Psl) (observer : Observer) (jar : CookieJar) (op : JarOp) : Prop :=
  ∃ s cookie, op.submission psl = some s ∧
    prepareCookieForStorage psl s.cookie s.context = some cookie ∧
    (jar.evictExpiredAt s.now).blocks cookie s.context = false ∧
    Hides psl observer jar cookie s.now

/-- The operation brings no cookie of the name with another identity. -/
def JarOp.SoleName (psl : Psl) (name : Text) (identity : CookieIdentity) (op : JarOp) : Prop :=
  ∀ s cookie, op.submission psl = some s →
    prepareCookieForStorage psl s.cookie s.context = some cookie →
    cookie.name = name → cookie.identity = identity

/-- A cookie that a write stores has a partition key exactly when it is partitioned. -/
theorem keyed_of_prepared {psl : Psl} {op : JarOp} {s : Submission} {cookie : Cookie}
    (hs : op.submission psl = some s)
    (hprep : prepareCookieForStorage psl s.cookie s.context = some cookie) : cookie.Keyed := by
  obtain ⟨hfixed, hunpartitioned, hprepared⟩ := prepareCookieForStorage_some hprep
  have hsame : cookie.partitioned = s.cookie.partitioned := by rw [hfixed]
  cases hp : cookie.partitioned with
  | true =>
    obtain ⟨-, hsite, hkey⟩ := hprepared.partitioned hp
    rw [Cookie.Keyed, hp, hkey, hsite]
  | false =>
    rw [Cookie.Keyed, hp, hunpartitioned (hsame ▸ hp), (JarOp.submission_cookie hs).1]
    rfl

/-- The steps of an operation that hides nothing are harmless. -/
theorem JarOp.harmless_parts {psl : Psl} {observer : Observer} {jar : CookieJar} {op : JarOp}
    (h : ¬ op.HidesVisible psl observer jar) :
    Run.Along JarStep.apply (fun jar step => step.Harmless psl observer jar) jar
      (op.parts psl jar) := by
  refine along_parts (fun _ => trivial) fun s cookie hs hprep hb => ?_
  have hfresh : ∀ entry ∈ (jar.evictExpiredAt s.now).cookies,
      entry ∈ jar.cookies ∧ entry.1.isExpired s.now = false := by
    intro entry hentry
    rw [CookieJar.evictExpiredAt_cookies] at hentry
    obtain ⟨hmem, he⟩ := List.mem_filter.mp hentry
    exact ⟨hmem, by simpa using he⟩
  have hkeyed := keyed_of_prepared hs hprep
  refine ⟨hkeyed, fun entry hentry => (hfresh entry hentry).2, ?_⟩
  rintro ⟨entry, hentry, hrest⟩
  exact h ⟨s, cookie, hs, hprep, hb, entry, (hfresh entry hentry).1, hrest⟩

theorem JarOp.soleName_parts {psl : Psl} {name : Text} {identity : CookieIdentity}
    {jar : CookieJar} {op : JarOp} (h : op.SoleName psl name identity) :
    Run.Along JarStep.apply (fun _ step => step.SoleName name identity) jar (op.parts psl jar) :=
  along_parts (fun _ => trivial) fun s cookie hs hprep _ => h s cookie hs hprep

/-! ## Reachable jars -/

theorem reachableJar_append (psl : Psl) (earlier ops : List JarOp) :
    reachableJar psl (earlier ++ ops) = Run.run (JarOp.apply psl) (reachableJar psl earlier) ops :=
  Run.run_append ..

theorem reachableJar_historyOk (psl : Psl) (ops : List JarOp) : (reachableJar psl ops).HistoryOk := by
  refine Run.invariant (I := CookieJar.HistoryOk) (fun jar op h => ?_) ops ⟨by simp [CookieJar.new],
    Nat.zero_le _⟩
  rw [JarOp.apply_eq_run]
  exact Run.invariant (I := CookieJar.HistoryOk) (fun jar step h => h.apply step) _ h

theorem reachableJar_watchable (psl : Psl) (ops : List JarOp) : Watchable (reachableJar psl ops) := by
  refine Run.invariant (I := Watchable) (fun jar op h => ⟨h.distinct.apply op, ?_⟩) ops
    ⟨List.nodup_nil, by simp [CookieJar.new]⟩
  intro entry hentry
  rcases JarOp.mem_apply_cookies hentry with hold | ⟨s, cookie, createdAt, hs, hprep, heq⟩
  · exact h.keyed entry hold
  · have hkeyed := keyed_of_prepared hs hprep
    rw [heq]
    exact hkeyed

/-! ## The feed of a run -/

/-- A record as a script sees it. -/
def CookieRecord.visible (record : CookieRecord) : CookieStoreChange :=
  { name := record.cookie.name
    value := if record.deleted then none else some record.cookie.value
    deleted := record.deleted
    individualEvent := record.individualEvent }

namespace Observer

variable {psl : Psl} {observer : Observer} {name : Text}

/-- The feed after a cursor whose changes are all there. -/
theorem changesNamed_eq {s : Nat} {jar : CookieJar} {news : List CookieRecord}
    (h : jar.Follows s news) :
    observer.changesNamed psl jar s name =
      (news.filter fun record => observer.watches psl name record.cookie).map
        CookieRecord.visible := by
  rw [← h.filter_changes, List.filter_map, List.map_map]
  unfold changesNamed CookieJar.scriptVisibleChangesSinceWithAccess
  simp only [List.filter_map, List.filter_filter, ← Bool.and_assoc]
  rfl

variable (psl observer name) in
/-- What the observer is told of a name after a run is what the steps of the run
report, as long as the history kept it. -/
theorem changesNamed_run {jar : CookieJar} (hok : jar.HistoryOk)
    (hroom : jar.changeSequence + maxRecordedChanges < u64Max) (steps : List JarStep)
    (hcount : (Run.run JarStep.apply jar steps).changeSequence ≤
      jar.changeSequence + maxRecordedChanges) :
    observer.changesNamed psl (Run.run JarStep.apply jar steps) jar.changeSequence name =
      (Run.emitted JarStep.apply (observer.reports psl name) jar steps).map
        CookieRecord.visible := by
  obtain ⟨hchanges, hsequence⟩ := run_history steps jar
  have hsum := CookieJar.recordAll_changeSequence (runRecords jar steps) hok.counter
  rw [hsequence] at hcount
  have hfollows := CookieJar.Follows.recordAll (runRecords jar steps) hok.follows
    (by rw [List.length_nil]; omega) (by rw [List.length_nil]; omega)
  rw [List.nil_append] at hfollows
  have hrun : (Run.run JarStep.apply jar steps).Follows jar.changeSequence
      ((runRecords jar steps).filter CookieRecord.kept) := by
    obtain ⟨older, newer, h₁, h₂, h₃, h₄, h₅⟩ := hfollows
    exact ⟨older, newer, hchanges.trans h₁, h₂, h₃, h₄, hsequence.trans h₅⟩
  rw [changesNamed_eq hrun, List.filter_filter]
  unfold reports
  rw [Run.emitted_filter, runRecords]
  congr 1
  -- a watched record is kept
  refine List.filter_congr fun record _ => ?_
  cases hw : observer.watches psl name record.cookie with
  | false => rfl
  | true => simp [CookieRecord.kept, sees_not_httpOnly (watches_iff.mp hw).2]

end Observer

/-! ## Nothing is lost -/

/-- Between two jars: if the visible values of the name differ, the feed has a
change of that name. -/
def ChangeReported (psl : Psl) (observer : Observer) (jar jar' : CookieJar) (now now' : SystemTime)
    (name : Text) : Prop :=
  (observer.valuesNamed psl jar now name).Perm (observer.valuesNamed psl jar' now' name) ∨
    observer.changesNamed psl jar' jar.changeSequence name ≠ []

/-- Between two jars: the last change of the name in the feed says whether there
is a visible value, and which. -/
def LastChangeDescribes (psl : Psl) (observer : Observer) (jar jar' : CookieJar)
    (now' : SystemTime) (name : Text) : Prop :=
  ∀ change, (observer.changesNamed psl jar' jar.changeSequence name).getLast? = some change →
    observer.valuesNamed psl jar' now' name = change.value.toList ∧
      change.deleted = change.value.isNone

/-- Along a run in which no write hides a visible cookie the feed loses nothing:
it has a change of every name whose values changed, and the last change of a
name that belongs to one cookie describes that cookie. -/
theorem changes_reported (psl : Psl) (observer : Observer) (earlier ops : List JarOp)
    (now now' : SystemTime) (name : Text)
    (hroom : (reachableJar psl earlier).changeSequence + maxRecordedChanges < u64Max)
    (hcount : (reachableJar psl (earlier ++ ops)).changeSequence ≤
      (reachableJar psl earlier).changeSequence + maxRecordedChanges)
    (hfresh : ∀ entry ∈ (reachableJar psl earlier).cookies, entry.1.isExpired now = false)
    (hfresh' : ∀ entry ∈ (reachableJar psl (earlier ++ ops)).cookies,
      entry.1.isExpired now' = false)
    (hvisible : Run.Along (JarOp.apply psl) (fun jar op => ¬ op.HidesVisible psl observer jar)
      (reachableJar psl earlier) ops) :
    ChangeReported psl observer (reachableJar psl earlier) (reachableJar psl (earlier ++ ops))
        now now' name ∧
      ((∃ identity, (reachableJar psl earlier).SoleName name identity ∧
          ∀ op ∈ ops, op.SoleName psl name identity) →
        LastChangeDescribes psl observer (reachableJar psl earlier)
          (reachableJar psl (earlier ++ ops)) now' name) := by
  have hwatch := reachableJar_watchable psl earlier
  have hok := reachableJar_historyOk psl earlier
  have hfeed := Observer.changesNamed_run psl observer name hok hroom
    (Run.emitted (JarOp.apply psl) (JarOp.parts psl) (reachableJar psl earlier) ops)
  have hvalues := Observer.valuesNamed_eq psl observer name hfresh
  have hvalues' := Observer.valuesNamed_eq psl observer name hfresh'
  rw [reachableJar_append] at hcount hvalues' ⊢
  rw [Run.run_refine (JarOp.apply_eq_run psl)] at hcount hvalues' ⊢
  specialize hfeed hcount
  have hharmless : Run.Along JarStep.apply (fun jar step => step.Harmless psl observer jar)
      (reachableJar psl earlier)
      (Run.emitted (JarOp.apply psl) (JarOp.parts psl) (reachableJar psl earlier) ops) :=
    Run.Along.refine (I := fun _ => True) (JarOp.apply_eq_run psl) (fun _ _ _ => trivial)
      (fun _ _ _ h => JarOp.harmless_parts h) ops trivial hvisible
  have hsole : ∀ identity, (∀ op ∈ ops, op.SoleName psl name identity) →
      Run.Along JarStep.apply (fun _ step => step.SoleName name identity) (reachableJar psl earlier)
        (Run.emitted (JarOp.apply psl) (JarOp.parts psl) (reachableJar psl earlier) ops) :=
    fun _ hops => Run.Along.refine (I := fun _ => True) (JarOp.apply_eq_run psl)
      (fun _ _ _ => trivial) (fun _ _ _ h => JarOp.soleName_parts h) ops trivial
      (Run.along_of_mem hops)
  generalize Run.emitted (JarOp.apply psl) (JarOp.parts psl) (reachableJar psl earlier) ops =
    steps at *
  refine ⟨?_, ?_⟩
  · by_cases hreports : Run.emitted JarStep.apply (observer.reports psl name)
        (reachableJar psl earlier) steps = []
    · left
      rw [← Multiset.coe_eq_coe, hvalues, hvalues']
      apply Classical.byContradiction
      intro hne
      exact Run.emitted_of_obs_ne (fun _ _ h hs => h.apply hs)
        (fun _ _ h hs hq => Observer.watched_of_quiet h hs hq) steps hwatch hharmless
        (Ne.symm hne) hreports
    · right
      rw [hfeed]
      simpa using hreports
  · rintro ⟨identity, hjar, hops⟩ change hlast
    rw [hfeed, List.getLast?_map] at hlast
    obtain ⟨record, hrecord, rfl⟩ := Option.map_eq_some_iff.mp hlast
    have hdescribes := Run.last_emitted_describes
      (I := fun jar => Watchable jar ∧ jar.SoleName name identity)
      (D := CookieRecord.Describes) (fun _ _ h hs => ⟨h.1.apply hs.1, h.2.apply hs.2⟩)
      (fun _ _ h hs hq => Observer.watched_of_quiet h.1 hs.1 hq)
      (fun _ _ _ h hs hl => Observer.watched_of_last h.1 h.2 hs.2 hl) steps ⟨hwatch, hjar⟩
      (hharmless.and (hsole identity hops)) hrecord
    rw [← hvalues'] at hdescribes
    cases hd : record.deleted with
    | true =>
      simp only [CookieRecord.Describes, hd, if_true, Multiset.coe_eq_zero] at hdescribes
      exact ⟨by simp [CookieRecord.visible, hd, hdescribes], by simp [CookieRecord.visible, hd]⟩
    | false =>
      simp only [CookieRecord.Describes, hd, Bool.false_eq_true, if_false,
        Multiset.coe_eq_singleton] at hdescribes
      exact ⟨by simp [CookieRecord.visible, hd, hdescribes], by simp [CookieRecord.visible, hd]⟩

/-- A response with one cookie. -/
def exampleResponse (header : String) : JarOp :=
  .header header.toList exampleRoot exampleRoot false (.firstParty examplePsl exampleRoot)
    { created := 0, received := 0, stored := 0 }

/-- The first cookie of a jar is reported to its own site. -/
theorem changes_reported_first_cookie :
    let observer : Observer := {
      url := exampleRoot
      siteForCookies := exampleRoot
      access := .firstParty examplePsl exampleRoot }
    ChangeReported examplePsl observer (reachableJar examplePsl [])
      (reachableJar examplePsl [exampleResponse "n=1"]) 0 0 "n".toList :=
  (changes_reported examplePsl _ [] [exampleResponse "n=1"] 0 0 "n".toList (by decide) (by decide)
    (by decide) (by decide)
    ⟨fun ⟨_, _, _, _, _, _, hentry, _⟩ => absurd hentry List.not_mem_nil, trivial⟩).1

/-- A document of `example.com` framed by another site. -/
def framedObserver : Observer where
  url := exampleRoot
  siteForCookies := httpsRoot "other.net".toList (by decide)
  access := .firstParty examplePsl (httpsRoot "other.net".toList (by decide))

/-- A visible cookie is replaced by a hidden one, and the feed has no change. -/
theorem hidden_replacement_unreported :
    let jar := reachableJar examplePsl [exampleResponse "n=1; SameSite=None; Secure"]
    let jar' := reachableJar examplePsl
      [exampleResponse "n=1; SameSite=None; Secure", exampleResponse "n=2; SameSite=Strict; Secure"]
    jar'.changeSequence ≤ jar.changeSequence + maxRecordedChanges ∧
      (∀ entry ∈ jar.cookies, entry.1.isExpired 0 = false) ∧
      (∀ entry ∈ jar'.cookies, entry.1.isExpired 0 = false) ∧
      ¬ ChangeReported examplePsl framedObserver jar jar' 0 0 "n".toList := by
  refine ⟨by decide, by decide, by decide, ?_⟩
  rintro (h | h)
  · exact absurd h (by decide)
  · exact absurd h (by decide)

/-! ## Polling -/

namespace Observer

variable (psl : Psl) (observer : Observer) (name : Text)

/-- What an observer that polls after each group of operations is told of a name. -/
def polled (jar : CookieJar) : List (List JarOp) → List CookieStoreChange
  | [] => []
  | ops :: polls =>
    let next := Run.run (JarOp.apply psl) jar ops
    observer.changesNamed psl next jar.changeSequence name ++ polled next polls

/-- What the steps of some operations report to the observer. -/
def reported (jar : CookieJar) (ops : List JarOp) : List CookieStoreChange :=
  (Run.emitted JarStep.apply (observer.reports psl name) jar
    (Run.emitted (JarOp.apply psl) (JarOp.parts psl) jar ops)).map CookieRecord.visible

/-- The history keeps what is recorded until the next poll. -/
def PollsInTime (jar : CookieJar) : List (List JarOp) → Prop
  | [] => True
  | ops :: polls =>
    let next := Run.run (JarOp.apply psl) jar ops
    jar.changeSequence + maxRecordedChanges < u64Max ∧
      next.changeSequence ≤ jar.changeSequence + maxRecordedChanges ∧ PollsInTime next polls

theorem reported_append (jar : CookieJar) (ops more : List JarOp) :
    observer.reported psl name jar (ops ++ more) = observer.reported psl name jar ops ++
      observer.reported psl name (Run.run (JarOp.apply psl) jar ops) more := by
  unfold reported
  rw [Run.emitted_append, Run.emitted_append, List.map_append, Run.run_refine (JarOp.apply_eq_run psl)]

theorem polled_eq_reported (polls : List (List JarOp)) {jar : CookieJar} (hok : jar.HistoryOk)
    (h : PollsInTime psl jar polls) :
    observer.polled psl name jar polls = observer.reported psl name jar polls.flatten := by
  induction polls generalizing jar with
  | nil => rfl
  | cons ops polls ih =>
    obtain ⟨hroom, hcount, hpolls⟩ := h
    have hnext : (Run.run (JarOp.apply psl) jar ops).HistoryOk :=
      Run.invariant (fun jar op h => by
        rw [JarOp.apply_eq_run]
        exact Run.invariant (fun _ step h => h.apply step) _ h) ops hok
    have hparts := Run.run_refine (JarOp.apply_eq_run psl) ops jar
    have hnow : observer.changesNamed psl (Run.run (JarOp.apply psl) jar ops) jar.changeSequence
        name = observer.reported psl name jar ops := by
      rw [hparts] at hcount ⊢
      exact changesNamed_run psl observer name hok hroom _ hcount
    rw [polled, hnow, ih hnext hpolls, List.flatten_cons, reported_append]

end Observer

end Omoikane.Http
