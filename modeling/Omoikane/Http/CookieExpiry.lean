import Omoikane.Http.CookieChanges

/-!
# When cookies expire

The event loop asks a jar how long it takes until a cookie expires, and evicts what has expired when that time
is over.  A cookie whose `Max-Age` is not positive has expired at any time, also before the time it was
received, but no such cookie is ever stored (`Lasting`).  For all others the time at which they expire
(`expirationTime`) is the first one at which `isExpired` holds.
-/

namespace Omoikane.Http

open Base

namespace Cookie

/-- The cookie has not been expired from the start. -/
def Lasting (cookie : Cookie) : Prop := ∀ maxAge ∈ cookie.maxAge, 0 < maxAge

theorem lasting_of_not_expired {cookie : Cookie} {now : SystemTime} (h : cookie.isExpired now = false) :
    cookie.Lasting := by
  intro maxAge hmaxAge
  rw [Option.mem_def] at hmaxAge
  by_contra hle
  have hany : (cookie.maxAge.any (· ≤ 0)) = true := by
    rw [hmaxAge]
    exact decide_eq_true (Int.not_lt.mp hle)
  rw [isExpired, hany, if_pos rfl] at h
  cases h

/-- A lasting cookie has expired from its expiration time on. -/
theorem isExpired_iff {cookie : Cookie} (h : cookie.Lasting) {now : SystemTime} :
    cookie.isExpired now = true ↔ ∃ expires, cookie.expirationTime = some expires ∧ expires ≤ now := by
  have hany : ¬ (cookie.maxAge.any (· ≤ 0)) = true := by
    intro hany
    obtain ⟨maxAge, hmaxAge, hle⟩ := (Option.any_eq_true _ _).mp hany
    have hpos := h maxAge hmaxAge
    have hle := of_decide_eq_true hle
    omega
  rw [isExpired, if_neg hany, Option.any_eq_true]
  simp only [decide_eq_true_eq]

end Cookie

namespace CookieJar

/-- Every cookie of the jar is a lasting one. -/
def AllLasting (jar : CookieJar) : Prop := ∀ entry ∈ jar.cookies, entry.1.Lasting

theorem AllLasting.apply {jar : CookieJar} (h : jar.AllLasting) (step : JarStep) : (step.apply jar).AllLasting := by
  intro entry hentry
  rw [JarStep.apply_cookies] at hentry
  cases step with
  | drop gone => exact h entry (List.mem_of_mem_filter hentry)
  | replace cookie originDomain individualEvent now =>
    rw [JarStep.cookies, List.mem_append] at hentry
    rcases hentry with hentry | hentry
    · exact h entry (List.mem_of_mem_filter hentry)
    · split at hentry
      next => cases hentry
      next hexpired =>
        obtain rfl := List.mem_singleton.mp hentry
        exact Cookie.lasting_of_not_expired (Bool.eq_false_iff.mpr hexpired)

theorem AllLasting.evictExpiredAt {jar : CookieJar} (h : jar.AllLasting) (now : SystemTime) :
    (jar.evictExpiredAt now).AllLasting := h.apply (.drop (·.isExpired now))

/-! ## Delays -/

/-- The times at which cookies of the jar expire. -/
def expirationTimes (jar : CookieJar) : List SystemTime := jar.cookies.filterMap (·.1.expirationTime)

/-- An eviction at a time removes a cookie. -/
def RemovesAt (jar : CookieJar) (now : SystemTime) : Prop :=
  (jar.evictExpiredAt now).cookies.length < jar.cookies.length

theorem removesAt_iff {jar : CookieJar} (h : jar.AllLasting) {now : SystemTime} :
    jar.RemovesAt now ↔ ∃ expires ∈ jar.expirationTimes, expires ≤ now := by
  rw [RemovesAt, evictExpiredAt_cookies, List.length_filter_lt_length_iff_exists]
  constructor
  · rintro ⟨entry, hentry, hexpired⟩
    rw [Bool.not_eq_true, Bool.not_eq_false'] at hexpired
    obtain ⟨expires, hexpires, hle⟩ := (Cookie.isExpired_iff (h entry hentry)).mp hexpired
    exact ⟨expires, List.mem_filterMap.mpr ⟨entry, hentry, hexpires⟩, hle⟩
  · rintro ⟨expires, hmem, hle⟩
    obtain ⟨entry, hentry, hexpires⟩ := List.mem_filterMap.mp hmem
    have hexpired := (Cookie.isExpired_iff (h entry hentry)).mpr ⟨expires, hexpires, hle⟩
    exact ⟨entry, hentry, by rw [hexpired]; decide⟩

theorem nextExpiryDelayAt_eq_none {jar : CookieJar} {now : SystemTime} :
    jar.nextExpiryDelayAt now = none ↔ jar.expirationTimes = [] := by
  rw [nextExpiryDelayAt, List.min?_eq_none_iff, List.map_eq_nil_iff]
  rfl

theorem nextExpiryDelayAt_eq_some {jar : CookieJar} {now : SystemTime} {delay : Int} :
    jar.nextExpiryDelayAt now = some delay ↔
      (∃ expires ∈ jar.expirationTimes, max 0 (expires - now) = delay) ∧
        ∀ expires ∈ jar.expirationTimes, delay ≤ max 0 (expires - now) := by
  rw [nextExpiryDelayAt, List.min?_eq_some_iff, List.mem_map, List.forall_mem_map]
  rfl

theorem max_sub_eq_zero {expires now : Int} : max 0 (expires - now) = 0 ↔ expires ≤ now := by omega

theorem max_sub_eq {expires now delay : Int} (hpos : 0 < delay) :
    max 0 (expires - now) = delay ↔ expires = now + delay := by omega

theorem le_max_sub {expires now delay : Int} (hpos : 0 < delay) :
    delay ≤ max 0 (expires - now) ↔ now + delay ≤ expires := by omega

/-- No delay: the jar is never late. -/
theorem delay_none_iff {jar : CookieJar} (h : jar.AllLasting) (now : SystemTime) :
    jar.nextExpiryDelayAt now = none ↔ ∀ later, now ≤ later → ¬ jar.RemovesAt later := by
  rw [nextExpiryDelayAt_eq_none]
  constructor
  · intro hnil later _ hremoves
    obtain ⟨expires, hmem, -⟩ := (removesAt_iff h).mp hremoves
    rw [hnil] at hmem
    cases hmem
  · intro hnever
    refine List.eq_nil_iff_forall_not_mem.mpr fun expires hmem => ?_
    refine hnever (max now expires) (Int.le_max_left _ _) ((removesAt_iff h).mpr ?_)
    exact ⟨expires, hmem, Int.le_max_right _ _⟩

/-- A delay of zero: a cookie has expired. -/
theorem delay_zero_iff {jar : CookieJar} (h : jar.AllLasting) (now : SystemTime) :
    jar.nextExpiryDelayAt now = some 0 ↔ jar.RemovesAt now := by
  rw [nextExpiryDelayAt_eq_some, removesAt_iff h]
  constructor
  · rintro ⟨⟨expires, hmem, hzero⟩, -⟩
    exact ⟨expires, hmem, max_sub_eq_zero.mp hzero⟩
  · rintro ⟨expires, hmem, hle⟩
    exact ⟨⟨expires, hmem, max_sub_eq_zero.mpr hle⟩, fun _ _ => Int.le_max_left _ _⟩

/-- A longer delay: nothing expires before it is over, and something does then. -/
theorem delay_pos_iff {jar : CookieJar} (h : jar.AllLasting) (now : SystemTime) {delay : Int} (hpos : 0 < delay) :
    jar.nextExpiryDelayAt now = some delay ↔
      (∀ time < now + delay, ¬ jar.RemovesAt time) ∧ jar.RemovesAt (now + delay) := by
  rw [nextExpiryDelayAt_eq_some, removesAt_iff h]
  constructor
  · rintro ⟨⟨expires, hmem, hdelay⟩, hleast⟩
    refine ⟨fun time htime hremoves => ?_, expires, hmem, Int.le_of_eq ((max_sub_eq hpos).mp hdelay)⟩
    obtain ⟨other, hother, hle⟩ := (removesAt_iff h).mp hremoves
    have hge := (le_max_sub hpos).mp (hleast other hother)
    exact Int.not_lt.mpr (Int.le_trans hge hle) htime
  · rintro ⟨hnone, expires, hmem, hle⟩
    have hleast : ∀ other ∈ jar.expirationTimes, now + delay ≤ other := by
      intro other hother
      by_contra hlt
      exact hnone other (Int.not_le.mp hlt) ((removesAt_iff h).mpr ⟨other, hother, Int.le_refl _⟩)
    refine ⟨⟨expires, hmem, ?_⟩, fun other hother => (le_max_sub hpos).mpr (hleast other hother)⟩
    exact (max_sub_eq hpos).mpr (Int.le_antisymm hle (hleast expires hmem))

/-- What an eviction leaves has not expired. -/
theorem not_removesAt_evicted (jar : CookieJar) (now : SystemTime) : ¬ (jar.evictExpiredAt now).RemovesAt now := by
  rw [RemovesAt, evictExpiredAt_cookies, evictExpiredAt_cookies, List.filter_filter]
  simp only [Bool.and_self, Nat.lt_irrefl, not_false_eq_true]

/-! ## Recorded deletions -/

/-- The changes that a jar keeps of a history. -/
def lastChanges (changes : List RecordedCookieChange) : List RecordedCookieChange :=
  changes.drop (changes.length - maxRecordedChanges)

theorem lastChanges_append (older newer : List RecordedCookieChange) :
    lastChanges (lastChanges older ++ newer) = lastChanges (older ++ newer) := by
  have hdrop : lastChanges older ++ newer = (older ++ newer).drop (older.length - maxRecordedChanges) :=
    (List.drop_append_of_le_length (Nat.sub_le _ _)).symm
  rw [hdrop, lastChanges, lastChanges, List.drop_drop, List.length_drop, List.length_append]
  refine congrArg (fun count => (older ++ newer).drop count) ?_
  omega

theorem lastChanges_concat {changes : List RecordedCookieChange} (h : changes.length ≤ maxRecordedChanges)
    (change : RecordedCookieChange) :
    (if (changes ++ [change]).length > maxRecordedChanges then (changes ++ [change]).drop 1
      else changes ++ [change]) = lastChanges (changes ++ [change]) := by
  have hlength : (changes ++ [change]).length = changes.length + 1 := by
    rw [List.length_append, List.length_singleton]
  rw [lastChanges]
  split
  next hfull =>
    rw [show (changes ++ [change]).length - maxRecordedChanges = 1 by omega]
  next hroom =>
    rw [Nat.sub_eq_zero_of_le (Nat.not_lt.mp hroom), List.drop_zero]

/-- The jar keeps no more changes than it may. -/
def Bounded (jar : CookieJar) : Prop := jar.changes.length ≤ maxRecordedChanges

theorem length_lastChanges (changes : List RecordedCookieChange) :
    (lastChanges changes).length ≤ maxRecordedChanges := by
  rw [lastChanges, List.length_drop]
  omega

/-- Records are entered behind the history, one for each that is kept. -/
theorem recordAll_changes : ∀ (records : List CookieRecord) {jar : CookieJar}, jar.Bounded →
    ∃ news : List RecordedCookieChange, (jar.recordAll records).changes = lastChanges (jar.changes ++ news) ∧
      news.map RecordedCookieChange.record = records.filter CookieRecord.kept
  | [], jar, h => by
    refine ⟨[], ?_, rfl⟩
    rw [recordAll_nil, List.append_nil, lastChanges, Nat.sub_eq_zero_of_le h, List.drop_zero]
  | record :: records, jar, h => by
    rw [recordAll_cons]
    cases hk : record.kept with
    | false =>
      have hsame : jar.record record = jar := by
        have hh : record.cookie.httpOnly = true := by simpa [CookieRecord.kept] using hk
        rw [CookieJar.record, recordChange, if_pos hh]
      rw [hsame, List.filter_cons_of_neg (by rw [hk]; decide)]
      exact recordAll_changes records h
    | true =>
      have hvisible : ¬ record.cookie.httpOnly = true := by simpa [CookieRecord.kept] using hk
      obtain ⟨change, hchange, hrecord⟩ : ∃ change : RecordedCookieChange,
          (jar.record record).changes = lastChanges (jar.changes ++ [change]) ∧ change.record = record := by
        refine ⟨RecordedCookieChange.mk (min (jar.changeSequence + 1) u64Max) record.cookie record.deleted
          record.individualEvent, ?_, rfl⟩
        rw [CookieJar.record, recordChange, if_neg hvisible]
        exact lastChanges_concat h _
      obtain ⟨news, hnews, hmap⟩ := recordAll_changes records
        (show (jar.record record).Bounded by rw [Bounded, hchange]; exact length_lastChanges _)
      refine ⟨change :: news, ?_, ?_⟩
      · rw [hnews, hchange, lastChanges_append, List.append_assoc, List.singleton_append]
      · rw [List.map_cons, hmap, hrecord, List.filter_cons_of_pos hk]

theorem Bounded.apply {jar : CookieJar} (h : jar.Bounded) (step : JarStep) : (step.apply jar).Bounded := by
  rw [JarStep.apply_eq, Bounded]
  obtain ⟨news, hnews, -⟩ := recordAll_changes (step.records jar) h
  rw [hnews]
  exact length_lastChanges _

/-- The deletions that an eviction records: one for each cookie that goes and is not HttpOnly. -/
def RecordsDeletions (jar : CookieJar) (now : SystemTime) : Prop :=
  ∃ news : List RecordedCookieChange,
    (jar.evictExpiredAt now).changes = lastChanges (jar.changes ++ news) ∧
    news.map RecordedCookieChange.record =
      ((jar.cookies.map Prod.fst).filter fun cookie => cookie.isExpired now && !cookie.httpOnly).map
        CookieRecord.deletion ∧
    (jar.evictExpiredAt now).changeSequence = min (jar.changeSequence + news.length) u64Max

theorem recordsDeletions {jar : CookieJar} (hbounded : jar.Bounded) (hhistory : jar.HistoryOk) (now : SystemTime) :
    jar.RecordsDeletions now := by
  obtain ⟨news, hnews, hmap⟩ := recordAll_changes
    (((jar.cookies.map Prod.fst).filter (·.isExpired now)).map CookieRecord.deletion) hbounded
  have hfilter : ((((jar.cookies.map Prod.fst).filter (·.isExpired now)).map CookieRecord.deletion).filter
        CookieRecord.kept) =
      ((jar.cookies.map Prod.fst).filter fun cookie => cookie.isExpired now && !cookie.httpOnly).map
        CookieRecord.deletion := by
    rw [List.filter_map, List.filter_filter]
    refine congrArg (List.map CookieRecord.deletion) (List.filter_congr fun cookie _ => ?_)
    exact Bool.and_comm _ _
  have hevict : jar.evictExpiredAt now =
      { jar.recordAll (((jar.cookies.map Prod.fst).filter (·.isExpired now)).map CookieRecord.deletion) with
        cookies := jar.cookies.filter fun entry => !entry.1.isExpired now } := by
    rw [evictExpiredAt, recordDeletions_eq, recordAll_withCookies]
  refine ⟨news, ?_, hmap.trans hfilter, ?_⟩
  · rw [hevict]
    exact hnews
  · rw [hevict, ← List.length_map (f := RecordedCookieChange.record), hmap]
    exact recordAll_changeSequence _ hhistory.counter

end CookieJar

/-! ## Reachable jars -/

theorem reachableJar_lasting (psl : Psl) (ops : List JarOp) :
    (reachableJar psl ops).AllLasting ∧ (reachableJar psl ops).Bounded := by
  refine Run.invariant (I := fun jar : CookieJar => jar.AllLasting ∧ jar.Bounded) (fun jar op h => ?_) ops
    ⟨fun entry hentry => absurd hentry List.not_mem_nil, Nat.zero_le _⟩
  rw [JarOp.apply_eq_run]
  exact Run.invariant (I := fun jar : CookieJar => jar.AllLasting ∧ jar.Bounded)
    (fun jar step h => ⟨h.1.apply step, h.2.apply step⟩) _ h

/-- The delay of a reachable jar is the time until an eviction removes something. -/
theorem expiry_scheduled (psl : Psl) (ops : List JarOp) (now : SystemTime) :
    let jar := reachableJar psl ops
    (jar.nextExpiryDelayAt now = none ↔ ∀ later, now ≤ later → ¬ jar.RemovesAt later) ∧
      (jar.nextExpiryDelayAt now = some 0 ↔ jar.RemovesAt now) ∧
      (∀ delay, 0 < delay → (jar.nextExpiryDelayAt now = some delay ↔
        (∀ time < now + delay, ¬ jar.RemovesAt time) ∧ jar.RemovesAt (now + delay))) ∧
      (jar.evictExpiredAt now).nextExpiryDelayAt now ≠ some 0 ∧
      jar.RecordsDeletions now := by
  obtain ⟨hlasting, hbounded⟩ := reachableJar_lasting psl ops
  refine ⟨CookieJar.delay_none_iff hlasting now, CookieJar.delay_zero_iff hlasting now,
    fun delay hpos => CookieJar.delay_pos_iff hlasting now hpos, fun hzero => ?_,
    CookieJar.recordsDeletions hbounded (reachableJar_historyOk psl ops) now⟩
  exact (reachableJar psl ops).not_removesAt_evicted now
    ((CookieJar.delay_zero_iff (hlasting.evictExpiredAt now) now).mp hzero)

/-- A cookie that lives for two seconds is waited for. -/
theorem expiry_scheduled_two_seconds :
    let jar := reachableJar examplePsl [exampleResponse "n=1; Max-Age=2"]
    (∀ time < 2 * nanosPerSecond, ¬ jar.RemovesAt time) ∧ jar.RemovesAt (2 * nanosPerSecond) := by
  have hdelay := (expiry_scheduled examplePsl [exampleResponse "n=1; Max-Age=2"] 0).2.2.1
    (2 * nanosPerSecond) (by decide)
  have hwaits := hdelay.mp (by decide)
  rw [Int.zero_add] at hwaits
  exact hwaits

end Omoikane.Http
