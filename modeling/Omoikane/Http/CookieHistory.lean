import Omoikane.Http.CookieStoring

/-!
# The history of a jar

Every operation is a short list of elementary steps (`JarOp.parts`): drop some
cookies and record their deletion, or replace one cookie.  A step determines
the cookies it leaves and the changes it records, apart from each other
(`JarStep.apply_eq`).

A jar keeps the last 4096 changes only.  `Follows` says that the changes after a
cursor are all still there, and it is kept as long as no more than 4096 of them
were recorded and the counter has room.
-/

namespace Omoikane.Http

open Base

/-- A change that has no place in the history yet. -/
structure CookieRecord where
  cookie : Cookie
  deleted : Bool
  individualEvent : Bool

/-- A recorded change without its place. -/
def RecordedCookieChange.record (change : RecordedCookieChange) : CookieRecord :=
  { cookie := change.cookie, deleted := change.deleted, individualEvent := change.individualEvent }

/-- The record of a cookie that left without being replaced. -/
def CookieRecord.deletion (cookie : Cookie) : CookieRecord :=
  { cookie, deleted := true, individualEvent := false }

/-- The changes of HttpOnly cookies are not recorded. -/
def CookieRecord.kept (record : CookieRecord) : Bool := !record.cookie.httpOnly

namespace CookieJar

/-- The jar with a record entered into its history. -/
def record (jar : CookieJar) (record : CookieRecord) : CookieJar :=
  jar.recordChange record.cookie record.deleted record.individualEvent

/-- The jar with a list of records entered, in order. -/
def recordAll (jar : CookieJar) (records : List CookieRecord) : CookieJar :=
  records.foldl CookieJar.record jar

@[simp] theorem recordAll_nil (jar : CookieJar) : jar.recordAll [] = jar := rfl

@[simp] theorem recordAll_cons (jar : CookieJar) (record : CookieRecord)
    (records : List CookieRecord) :
    jar.recordAll (record :: records) = (jar.record record).recordAll records := rfl

/-- Recording does not look at the cookies. -/
theorem record_withCookies (jar : CookieJar) (cookies : List (Cookie × Text))
    (record : CookieRecord) :
    { jar with cookies }.record record = { jar.record record with cookies } := by
  unfold CookieJar.record recordChange
  split <;> rfl

theorem recordAll_withCookies : ∀ (records : List CookieRecord) (jar : CookieJar)
    (cookies : List (Cookie × Text)),
    { jar with cookies }.recordAll records = { jar.recordAll records with cookies }
  | [], _, _ => rfl
  | record :: records, jar, cookies => by
    rw [recordAll_cons, record_withCookies, recordAll_withCookies records, recordAll_cons]

theorem recordDeletions_eq (cookies : List Cookie) (jar : CookieJar) :
    jar.recordDeletions cookies = jar.recordAll (cookies.map CookieRecord.deletion) := by
  rw [recordAll, List.foldl_map]
  rfl

end CookieJar

/-! ## Elementary steps -/

/-- An elementary step of a jar. -/
inductive JarStep where
  /-- Cookies leave, and their deletions are recorded in order. -/
  | drop (gone : Cookie → Bool)
  /-- A cookie takes the place of the one it replaces. -/
  | replace (cookie : Cookie) (originDomain : Text) (individualEvent : Bool) (now : SystemTime)

namespace JarStep

/-- The jar after a step. -/
def apply (jar : CookieJar) : JarStep → CookieJar
  | .drop gone =>
    { jar with cookies := jar.cookies.filter fun entry => !gone entry.1 }.recordDeletions
      ((jar.cookies.map Prod.fst).filter gone)
  | .replace cookie originDomain individualEvent now =>
    jar.replaceCookie cookie originDomain (jar.replacedBy cookie) individualEvent now

/-- The cookies after a step. -/
def cookies (jar : CookieJar) : JarStep → List (Cookie × Text)
  | .drop gone => jar.cookies.filter fun entry => !gone entry.1
  | .replace cookie originDomain _ now =>
    jar.cookies.filter (fun entry => !replaces cookie entry.1) ++
      if cookie.isExpired now then [] else [(cookie, originDomain)]

/-- The changes a step enters into the history. -/
def records (jar : CookieJar) : JarStep → List CookieRecord
  | .drop gone => ((jar.cookies.map Prod.fst).filter gone).map CookieRecord.deletion
  | .replace cookie _ individualEvent now =>
    if cookie.isExpired now then [{ cookie, deleted := true, individualEvent }]
    else
      let current := (jar.replacedBy cookie).filter fun old => !old.isExpired now
      (if cookie.httpOnly then
        current.toList.map fun old => { cookie := old, deleted := true, individualEvent }
      else []) ++
      if current.any (unchangedFrom cookie) then []
      else [{ cookie, deleted := false, individualEvent }]

/-- A step changes the cookies and the history independently. -/
theorem apply_eq (jar : CookieJar) (step : JarStep) :
    step.apply jar = { jar.recordAll (step.records jar) with cookies := step.cookies jar } := by
  cases step with
  | drop gone =>
    rw [apply, CookieJar.recordDeletions_eq, CookieJar.recordAll_withCookies]
    rfl
  | replace cookie originDomain individualEvent now =>
    simp only [apply, records, cookies, CookieJar.replaceCookie]
    by_cases he : cookie.isExpired now = true
    · simp only [he, if_true, List.append_nil]
      exact CookieJar.record_withCookies jar _ { cookie, deleted := true, individualEvent }
    · have hany : (jar.replacedBy cookie).any (fun old =>
          !old.isExpired now && unchangedFrom cookie old) =
          ((jar.replacedBy cookie).filter fun old => !old.isExpired now).any
            (unchangedFrom cookie) := by
        cases jar.replacedBy cookie with
        | none => rfl
        | some old => cases hold : old.isExpired now <;> simp [hold, Option.filter]
      simp only [he, Bool.false_eq_true, if_false, hany]
      generalize (jar.replacedBy cookie).filter (fun old => !old.isExpired now) = current
      -- an HttpOnly cookie leaves no record of its own, any other none of the old one
      cases current with
      | none =>
        cases hh : cookie.httpOnly <;>
          simp [CookieJar.record, CookieJar.recordChange, hh]
      | some old =>
        cases hu : unchangedFrom cookie old <;> cases hh : cookie.httpOnly <;>
          cases ho : old.httpOnly <;>
          simp [CookieJar.record, CookieJar.recordChange, hu, hh, ho]

@[simp] theorem apply_cookies (jar : CookieJar) (step : JarStep) :
    (step.apply jar).cookies = step.cookies jar := by rw [apply_eq]

end JarStep

/-! ## The steps of an operation -/

/-- The steps of `storeCookie`. -/
def storeParts (psl : Psl) (jar : CookieJar) (s : Submission) : List JarStep :=
  match prepareCookieForStorage psl s.cookie s.context with
  | none => []
  | some cookie =>
    let evicted := jar.evictExpiredAt s.now
    .drop (·.isExpired s.now) ::
      if evicted.blocks cookie s.context then []
      else [.replace (cookie.inheriting (evicted.replacedBy cookie))
        (Text.toAsciiLowercase s.context.originUrl.host) s.context.individualEvent s.now]

/-- The cookies `deleteAssociatedCookies` deletes. -/
def associatedWith (psl : Psl) (url : Url) (now : SystemTime) (cookie : Cookie) : Bool :=
  (CookieAccessContext.firstParty psl url).permits cookie && !cookie.isExpired now &&
    cookie.matchesUrl url

/-- The steps of an operation. -/
def JarOp.parts (psl : Psl) (jar : CookieJar) : JarOp → List JarStep
  | .evict now => [.drop (·.isExpired now)]
  | .delete url now => [.drop (associatedWith psl url now)]
  | op => match op.submission psl with
    | some s => storeParts psl jar s
    | none => []

theorem storeCookie_eq_run (psl : Psl) (jar : CookieJar) (s : Submission) :
    jar.storeCookie psl s.cookie s.context s.now =
      Run.run JarStep.apply jar (storeParts psl jar s) := by
  unfold storeParts
  rcases jar.storeCookie_cases psl s.cookie s.context s.now with
    ⟨hprep, heq⟩ | ⟨cookie, hprep, ⟨hb, heq⟩ | ⟨hb, heq⟩⟩
  · rw [hprep, heq]
    rfl
  · rw [hprep, heq]
    simp only [hb, if_true]
    rfl
  · rw [hprep, heq]
    simp only [hb, Bool.false_eq_true, if_false]
    rfl

/-- The steps of a write are those of storing its submission. -/
theorem JarOp.parts_write (psl : Psl) (jar : CookieJar) {op : JarOp} (hw : op.isWrite = true) :
    op.parts psl jar = match op.submission psl with
      | some s => storeParts psl jar s
      | none => [] := by
  cases op with
  | evict now => cases hw
  | delete url now => cases hw
  | _ => rfl

/-- An operation is the run of its steps. -/
theorem JarOp.apply_eq_run (psl : Psl) (jar : CookieJar) (op : JarOp) :
    op.apply psl jar = Run.run JarStep.apply jar (op.parts psl jar) := by
  cases hw : op.isWrite with
  | false =>
    cases op with
    | evict now => rfl
    | delete url now => rfl
    | _ => cases hw
  | true =>
    rw [apply_write psl jar hw, parts_write psl jar hw]
    cases op.submission psl with
    | none => rfl
    | some s => exact storeCookie_eq_run psl jar s

/-- What holds of a drop and of the replacement a store makes holds along the
steps of an operation. -/
theorem JarOp.along_parts {psl : Psl} {jar : CookieJar} {op : JarOp}
    {G : CookieJar → JarStep → Prop} (hdrop : ∀ gone, G jar (.drop gone))
    (hreplace : ∀ s cookie, op.submission psl = some s →
      prepareCookieForStorage psl s.cookie s.context = some cookie →
      (jar.evictExpiredAt s.now).blocks cookie s.context = false →
      G (jar.evictExpiredAt s.now)
        (.replace (cookie.inheriting ((jar.evictExpiredAt s.now).replacedBy cookie))
          (Text.toAsciiLowercase s.context.originUrl.host) s.context.individualEvent s.now)) :
    Run.Along JarStep.apply G jar (op.parts psl jar) := by
  cases hw : op.isWrite with
  | false =>
    cases op with
    | evict now => exact ⟨hdrop _, trivial⟩
    | delete url now => exact ⟨hdrop _, trivial⟩
    | _ => cases hw
  | true =>
    rw [parts_write psl jar hw]
    cases hs : op.submission psl with
    | none => exact trivial
    | some s =>
      simp only [storeParts]
      cases hprep : prepareCookieForStorage psl s.cookie s.context with
      | none => exact trivial
      | some cookie =>
        cases hb : (jar.evictExpiredAt s.now).blocks cookie s.context with
        | true =>
          simp only [hb, if_true]
          exact ⟨hdrop _, trivial⟩
        | false =>
          simp only [hb, Bool.false_eq_true, if_false]
          exact ⟨hdrop _, hreplace s cookie hs hprep hb, trivial⟩

/-! ## The counter -/

namespace CookieJar

/-- The recorded changes lie at or before the counter, which is a `u64`. -/
structure HistoryOk (jar : CookieJar) : Prop where
  sequences : ∀ change ∈ jar.changes, change.sequence ≤ jar.changeSequence
  counter : jar.changeSequence ≤ u64Max

theorem HistoryOk.record {jar : CookieJar} (h : jar.HistoryOk) (record : CookieRecord) :
    (jar.record record).HistoryOk := by
  unfold CookieJar.record recordChange
  split
  · exact h
  · refine ⟨?_, Nat.min_le_right ..⟩
    have hall : ∀ change ∈ jar.changes ++ [{
        sequence := min (jar.changeSequence + 1) u64Max
        cookie := record.cookie
        deleted := record.deleted
        individualEvent := record.individualEvent }],
        change.sequence ≤ min (jar.changeSequence + 1) u64Max := by
      intro change hc
      rcases List.mem_append.mp hc with hc | hc
      · have h₁ := h.sequences change hc
        have h₂ := h.counter
        omega
      · obtain rfl := List.mem_singleton.mp hc
        exact Nat.le_refl _
    intro change hc
    simp only at hc
    split at hc
    · exact hall change (List.mem_of_mem_drop hc)
    · exact hall change hc

theorem HistoryOk.recordAll : ∀ (records : List CookieRecord) {jar : CookieJar},
    jar.HistoryOk → (jar.recordAll records).HistoryOk
  | [], _, h => h
  | record :: records, _, h => HistoryOk.recordAll records (h.record record)

theorem HistoryOk.apply {jar : CookieJar} (h : jar.HistoryOk) (step : JarStep) :
    (step.apply jar).HistoryOk := by
  rw [JarStep.apply_eq]
  exact ⟨(HistoryOk.recordAll _ h).sequences, (HistoryOk.recordAll _ h).counter⟩

/-- The counter counts the kept records, up to the largest `u64`. -/
theorem recordAll_changeSequence : ∀ (records : List CookieRecord) {jar : CookieJar},
    jar.changeSequence ≤ u64Max → (jar.recordAll records).changeSequence =
      min (jar.changeSequence + (records.filter CookieRecord.kept).length) u64Max
  | [], jar, h => by simp [Nat.min_eq_left h]
  | record :: records, jar, h => by
    have hstep : (jar.record record).changeSequence =
        min (jar.changeSequence + if record.kept then 1 else 0) u64Max := by
      unfold CookieJar.record recordChange CookieRecord.kept
      cases record.cookie.httpOnly with
      | true => simp [Nat.min_eq_left h]
      | false => simp
    have hle : (jar.record record).changeSequence ≤ u64Max := by
      rw [hstep]
      exact Nat.min_le_right ..
    rw [recordAll_cons, recordAll_changeSequence records hle, hstep, List.filter_cons]
    split
    · rw [List.length_cons]
      omega
    · omega

/-! ## The changes after a cursor -/

/-- The changes after the cursor `s` are `news`, in order, and none is lost. -/
def Follows (s : Nat) (jar : CookieJar) (news : List CookieRecord) : Prop :=
  ∃ older newer, jar.changes = older ++ newer ∧ (∀ change ∈ older, change.sequence ≤ s) ∧
    (∀ change ∈ newer, s < change.sequence) ∧ newer.map RecordedCookieChange.record = news ∧
    jar.changeSequence = s + news.length

theorem HistoryOk.follows {jar : CookieJar} (h : jar.HistoryOk) :
    jar.Follows jar.changeSequence [] :=
  ⟨jar.changes, [], (List.append_nil _).symm, h.sequences, by simp, rfl, rfl⟩

/-- The changes after the cursor, read off the history. -/
theorem Follows.filter_changes {s : Nat} {jar : CookieJar} {news : List CookieRecord}
    (h : jar.Follows s news) :
    (jar.changes.filter fun change => s < change.sequence).map RecordedCookieChange.record =
      news := by
  obtain ⟨older, newer, hchanges, holder, hnewer, rfl, -⟩ := h
  have h₁ : (older.filter fun change => decide (s < change.sequence)) = [] := by
    rw [List.filter_eq_nil_iff]
    intro change hc
    have := holder change hc
    simpa using this
  have h₂ : (newer.filter fun change => decide (s < change.sequence)) = newer := by
    rw [List.filter_eq_self]
    intro change hc
    simpa using hnewer change hc
  rw [hchanges, List.filter_append, h₁, h₂, List.nil_append]

/-- A record joins the changes after the cursor.  The full history drops its
oldest change, which lies before the cursor while there is room. -/
theorem Follows.record {s : Nat} {jar : CookieJar} {news : List CookieRecord}
    (h : jar.Follows s news) {record : CookieRecord} (hk : record.kept = true)
    (hroom : news.length < maxRecordedChanges) (hcount : s + news.length < u64Max) :
    (jar.record record).Follows s (news ++ [record]) := by
  obtain ⟨older, newer, hchanges, holder, hnewer, hnews, hseq⟩ := h
  have hsequence : min (jar.changeSequence + 1) u64Max = s + news.length + 1 := by
    rw [hseq]
    omega
  have hvisible : ¬ record.cookie.httpOnly = true := by
    simpa [CookieRecord.kept] using hk
  have hlength : newer.length = news.length := by
    rw [← hnews, List.length_map]
  unfold CookieJar.record recordChange
  rw [if_neg hvisible]
  simp only [hsequence, hchanges]
  generalize hnew : (RecordedCookieChange.mk (s + news.length + 1) record.cookie record.deleted
    record.individualEvent) = new
  have hnewer' : ∀ change ∈ newer ++ [new], s < change.sequence := by
    intro change hc
    rcases List.mem_append.mp hc with hc | hc
    · exact hnewer change hc
    · obtain rfl := List.mem_singleton.mp hc
      rw [← hnew]
      simp only
      omega
  have hmap : (newer ++ [new]).map RecordedCookieChange.record = news ++ [record] := by
    rw [List.map_append, hnews, ← hnew]
    rfl
  have hlen : s + news.length + 1 = s + (news ++ [record]).length := by
    rw [List.length_append, List.length_singleton]
    omega
  split
  next hfull =>
    cases older with
    | nil =>
      rw [List.nil_append, List.length_append, List.length_singleton, hlength] at hfull
      omega
    | cons oldest older =>
      refine ⟨older, newer ++ [new], ?_, ?_, hnewer', hmap, hlen⟩
      · simp
      · exact fun change hc => holder change (List.mem_cons_of_mem _ hc)
  next => exact ⟨older, newer ++ [new], List.append_assoc .., holder, hnewer', hmap, hlen⟩

theorem Follows.recordAll {s : Nat} : ∀ (records : List CookieRecord) {jar : CookieJar}
    {news : List CookieRecord}, jar.Follows s news →
    news.length + (records.filter CookieRecord.kept).length ≤ maxRecordedChanges →
    s + news.length + (records.filter CookieRecord.kept).length ≤ u64Max →
    (jar.recordAll records).Follows s (news ++ records.filter CookieRecord.kept)
  | [], jar, news, h, _, _ => by simpa using h
  | record :: records, jar, news, h, hroom, hcount => by
    rw [recordAll_cons]
    cases hk : record.kept with
    | false =>
      have hsame : jar.record record = jar := by
        have hh : record.cookie.httpOnly = true := by simpa [CookieRecord.kept] using hk
        simp [CookieJar.record, recordChange, hh]
      rw [List.filter_cons_of_neg (by simp [hk])] at hroom hcount ⊢
      rw [hsame]
      exact Follows.recordAll records h hroom hcount
    | true =>
      rw [List.filter_cons_of_pos hk, List.length_cons] at hroom hcount
      have hnext := Follows.recordAll records
        (h.record hk (by omega) (by omega))
        (by rw [List.length_append, List.length_singleton]; omega)
        (by rw [List.length_append, List.length_singleton]; omega)
      rwa [List.append_assoc, List.singleton_append, ← List.filter_cons_of_pos hk] at hnext

end CookieJar

/-- The records of a run of steps. -/
def runRecords (jar : CookieJar) (steps : List JarStep) : List CookieRecord :=
  Run.emitted JarStep.apply JarStep.records jar steps

/-- The history after a run of steps has the records of the run. -/
theorem run_history : ∀ (steps : List JarStep) (jar : CookieJar),
    (Run.run JarStep.apply jar steps).changes = (jar.recordAll (runRecords jar steps)).changes ∧
      (Run.run JarStep.apply jar steps).changeSequence =
        (jar.recordAll (runRecords jar steps)).changeSequence
  | [], _ => ⟨rfl, rfl⟩
  | step :: steps, jar => by
    have ih := run_history steps (step.apply jar)
    have hrest : (step.apply jar).recordAll (runRecords (step.apply jar) steps) =
        { (jar.recordAll (step.records jar)).recordAll (runRecords (step.apply jar) steps) with
          cookies := step.cookies jar } := by
      rw [JarStep.apply_eq, CookieJar.recordAll_withCookies]
    have happend : jar.recordAll (runRecords jar (step :: steps)) =
        (jar.recordAll (step.records jar)).recordAll (runRecords (step.apply jar) steps) :=
      List.foldl_append
    rw [Run.run_cons, happend, ih.1, ih.2, hrest]
    exact ⟨rfl, rfl⟩

end Omoikane.Http
