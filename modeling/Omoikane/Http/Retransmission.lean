import Omoikane.Http.Connection

/-!
# Retransmissions

The pool transmits a request again when a session fails, whatever the method.
A pooled session may have been closed by the server, which shows only in a
failed exchange, and a new HTTP/2 session may meet a header block that the
decoder does not read.  So a request can be written completely more than once
(`post_written_twice`).  What does hold is that each session gets it at most once
and that the next session is tried only after such a failure
(`sendWithTimeout_oncePerSession`).
-/

namespace Omoikane.Http

open Base

/-- A failure after which the pool turns to another session: any error of a
pooled session, or a header error of a new HTTP/2 session. -/
def Transmission.Retried (transmission : Transmission) : Prop :=
  ∃ error, transmission.attempt.result = .error error ∧
    (transmission.carrier = .pooledHttp2 ∨ transmission.carrier = .pooledHttp1 ∨
      (transmission.carrier = .newHttp2 ∧ error = .invalidHeader))

namespace ConnectionPool

variable {S₂ S₁ : Type}

/-- The transmissions of a call that wrote the complete request. -/
def Outcome.completeWrites (outcome : Outcome S₂ S₁) : Nat :=
  (outcome.trace.filter (·.attempt.delivered)).length

/-- The transmissions of a call run over some carriers in order, each after the
failure of the one before, and a response ends them. -/
structure Sound (carriers : List Carrier) (outcome : Outcome S₂ S₁) : Prop where
  sessions : (outcome.trace.map Transmission.carrier).Sublist carriers
  retried : ∀ transmission ∈ outcome.trace.dropLast, transmission.Retried
  accepted : ∀ transmission ∈ outcome.trace, ∀ response,
    transmission.attempt.result = .ok response →
      outcome.trace.getLast? = some transmission ∧ outcome.result = .ok response

theorem Sound.weaken {carriers more : List Carrier} {outcome : Outcome S₂ S₁}
    (h : Sound carriers outcome) (hsub : carriers.Sublist more) : Sound more outcome :=
  ⟨h.sessions.trans hsub, h.retried, h.accepted⟩

theorem sound_nil {carriers : List Carrier} {outcome : Outcome S₂ S₁} (h : outcome.trace = []) :
    Sound carriers outcome := by
  refine ⟨?_, ?_, ?_⟩ <;> rw [h]
  · exact List.nil_sublist _
  · simp
  · simp

theorem sound_single (carrier : Carrier) (attempt : Attempt) {outcome : Outcome S₂ S₁}
    (h : outcome.trace = [{ carrier, attempt }]) (hresult : outcome.result = attempt.result) :
    Sound [carrier] outcome := by
  refine ⟨?_, ?_, ?_⟩ <;> rw [h]
  · exact List.Sublist.refl _
  · simp
  · intro other ho response hok
    obtain rfl := List.mem_singleton.mp ho
    exact ⟨rfl, hresult.trans hok⟩

/-- A failed transmission in front of the rest of the call. -/
theorem Sound.after {carriers : List Carrier} {outcome : Outcome S₂ S₁}
    (transmission : Transmission) (h : Sound carriers outcome) (ht : transmission.Retried) :
    Sound (transmission.carrier :: carriers) (outcome.after [transmission]) := by
  obtain ⟨error, herror, -⟩ := id ht
  refine ⟨?_, ?_, ?_⟩
  · exact h.sessions.cons_cons _
  · intro other ho
    cases htrace : outcome.trace with
    | nil => simp [Outcome.after, htrace] at ho
    | cons next rest =>
      simp only [Outcome.after, htrace, List.singleton_append, List.dropLast_cons_cons,
        List.mem_cons] at ho
      rcases ho with rfl | ho
      · exact ht
      · exact h.retried other (by rw [htrace]; exact ho)
  · intro other ho response hok
    rcases List.mem_cons.mp ho with rfl | ho
    · rw [herror] at hok
      cases hok
    · obtain ⟨hlast, hresult⟩ := h.accepted other ho response hok
      refine ⟨?_, hresult⟩
      rw [Outcome.after, List.getLast?_append, hlast]
      rfl

/-! ## The parts of a call -/

variable (pool : ConnectionPool S₂ S₁) (network : Network S₂ S₁) (request : HttpRequest)
  (key : Text)

theorem openHttp1_sound (session : S₁) :
    Sound [.newHttp1] (pool.openHttp1 network session request key) := by
  unfold openHttp1
  generalize network.send₁ session request = sent
  obtain ⟨attempt, session⟩ := sent
  dsimp only
  cases hresult : attempt.result with
  | error error => exact sound_single .newHttp1 attempt rfl hresult.symm
  | ok response =>
    dsimp only
    split
    · exact sound_single .newHttp1 attempt rfl hresult.symm
    · exact sound_single .newHttp1 attempt rfl hresult.symm

theorem sendNewHttp1_sound : Sound [.newHttp1] (pool.sendNewHttp1 network request key) := by
  unfold sendNewHttp1
  cases network.reconnect with
  | error error => exact sound_nil rfl
  | ok =>
    cases network.connectHttp1Session with
    | error error => exact sound_nil rfl
    | ok session => exact openHttp1_sound pool network request key session

theorem openHttp2_sound (session : S₂) :
    Sound [.newHttp2, .newHttp1] (pool.openHttp2 network session request key) := by
  unfold openHttp2
  generalize network.send₂ session request = sent
  obtain ⟨attempt, session⟩ := sent
  dsimp only
  cases hresult : attempt.result with
  | ok response =>
    exact (sound_single .newHttp2 attempt rfl hresult.symm).weaken (by decide)
  | error error =>
    by_cases hheader : error = .invalidHeader
    · subst hheader
      exact (sendNewHttp1_sound pool network request key).after
        { carrier := .newHttp2, attempt }
        ⟨_, hresult, Or.inr (Or.inr ⟨rfl, rfl⟩)⟩
    · have hsingle : Sound [.newHttp2, .newHttp1] ({
          result := .error error
          pool
          trace := [{ carrier := .newHttp2, attempt }] } : Outcome S₂ S₁) :=
        (sound_single .newHttp2 attempt rfl hresult.symm).weaken (by decide)
      cases error with
      | invalidHeader => exact absurd rfl hheader
      | _ => exact hsingle

theorem sendNew_sound : Sound [.newHttp2, .newHttp1] (pool.sendNew network request key) := by
  unfold sendNew
  cases network.connect with
  | error error => exact sound_nil rfl
  | ok =>
    cases network.connectSession with
    | error error => exact sound_nil rfl
    | ok session =>
      cases session with
      | inl session => exact openHttp2_sound pool network request key session
      | inr session =>
        exact (openHttp1_sound pool network request key session).weaken (by decide)

theorem reuseHttp1_sound (session : S₁) :
    Sound [.pooledHttp1, .newHttp2, .newHttp1] (pool.reuseHttp1 network session request key) := by
  unfold reuseHttp1
  generalize network.send₁ session request = sent
  obtain ⟨attempt, session⟩ := sent
  dsimp only
  cases hresult : attempt.result with
  | error error =>
    exact (sendNew_sound _ network request key).after
      { carrier := .pooledHttp1, attempt }
      ⟨_, hresult, Or.inr (Or.inl rfl)⟩
  | ok response =>
    dsimp only
    split
    · exact (sound_single .pooledHttp1 attempt rfl hresult.symm).weaken (by decide)
    · exact (sound_single .pooledHttp1 attempt rfl hresult.symm).weaken (by decide)

theorem sendPooledHttp1_sound :
    Sound [.pooledHttp1, .newHttp2, .newHttp1] (pool.sendPooledHttp1 network request key) := by
  unfold sendPooledHttp1
  cases pool.http1.get key with
  | none => exact (sendNew_sound pool network request key).weaken (by decide)
  | some session =>
    dsimp only
    cases network.timeout₁ session with
    | error error => exact sound_nil rfl
    | ok => exact reuseHttp1_sound pool network request key session

theorem reuseHttp2_sound (session : S₂) :
    Sound [.pooledHttp2, .pooledHttp1, .newHttp2, .newHttp1]
      (pool.reuseHttp2 network session request key) := by
  unfold reuseHttp2
  generalize network.send₂ session request = sent
  obtain ⟨attempt, session⟩ := sent
  dsimp only
  cases hresult : attempt.result with
  | ok response =>
    exact (sound_single .pooledHttp2 attempt rfl hresult.symm).weaken (by decide)
  | error error =>
    exact (sendPooledHttp1_sound _ network request key).after
      { carrier := .pooledHttp2, attempt }
      ⟨_, hresult, Or.inl rfl⟩

/-- The sessions one call can use, in order. -/
def carriers (request : HttpRequest) : List Carrier :=
  if request.url.scheme ≠ "https".toList then [.plain]
  else [.pooledHttp2, .pooledHttp1, .newHttp2, .newHttp1]

theorem sendWithTimeout_sound (insecure : Bool) :
    Sound (carriers request) (pool.sendWithTimeout network request insecure) := by
  unfold sendWithTimeout carriers
  split
  · cases network.connect with
    | error error => exact sound_nil rfl
    | ok => exact sound_single .plain (network.sendOverTcp request) rfl rfl
  · dsimp only
    generalize sessionKey request insecure = key
    cases pool.http2.get key with
    | none => exact (sendPooledHttp1_sound pool network request key).weaken (by decide)
    | some session =>
      dsimp only
      cases network.timeout₂ session with
      | error error => exact sound_nil rfl
      | ok => exact reuseHttp2_sound pool network request key session

/-- Without a pooled session the only failure that is retried is the header error. -/
theorem sendWithTimeout_unpooled (insecure : Bool)
    (h₂ : pool.http2.get (sessionKey request insecure) = none)
    (h₁ : pool.http1.get (sessionKey request insecure) = none) :
    ∀ transmission ∈ (pool.sendWithTimeout network request insecure).trace.dropLast,
      transmission.carrier = .newHttp2 ∧
        transmission.attempt.result = .error .invalidHeader := by
  intro transmission ht
  obtain ⟨error, herror, hcarrier⟩ :=
    (sendWithTimeout_sound pool network request insecure).retried transmission ht
  have hcarriers : transmission.carrier ∈ [Carrier.plain, .newHttp2, .newHttp1] := by
    have hmem := List.mem_map_of_mem (f := Transmission.carrier) (List.dropLast_subset _ ht)
    by_cases hs : request.url.scheme ≠ "https".toList
    · have hsub := (sendWithTimeout_sound pool network request insecure).sessions.subset hmem
      rw [carriers, if_pos hs] at hsub
      exact List.mem_append_left [Carrier.newHttp2, .newHttp1] hsub
    · rw [sendWithTimeout, if_neg hs] at hmem
      dsimp only at hmem
      rw [h₂] at hmem
      dsimp only at hmem
      rw [sendPooledHttp1, h₁] at hmem
      exact List.mem_cons_of_mem _ ((sendNew_sound pool network request _).sessions.subset hmem)
  rcases hcarrier with hc | hc | ⟨hc, rfl⟩
  · rw [hc] at hcarriers
    exact absurd hcarriers (by decide)
  · rw [hc] at hcarriers
    exact absurd hcarriers (by decide)
  · exact ⟨hc, herror⟩

/-! ## Complete writes -/

/-- The complete writes are those of the retried transmissions and of the last one. -/
theorem Outcome.completeWrites_le (outcome : Outcome S₂ S₁) :
    outcome.completeWrites ≤
      (outcome.trace.dropLast.filter (·.attempt.delivered)).length + 1 := by
  unfold completeWrites
  cases h : outcome.trace.getLast? with
  | none => simp [List.getLast?_eq_none_iff.mp h]
  | some last =>
    conv_lhs => rw [← List.dropLast_append_getLast? last h]
    rw [List.filter_append, List.length_append]
    have hlast := List.length_filter_le (·.attempt.delivered) [last]
    rw [List.length_singleton] at hlast
    omega

/-- One call transmits a request at most once on each session, in a fixed order
of the sessions, and goes on to the next session only after a failure that the
pool retries.  So a request is written completely at most once unless a session
failed after it had the request, in at most four sessions in all.  Without a
pooled session the only such failure is the header error of a new HTTP/2 session. -/
theorem sendWithTimeout_oncePerSession (pool : ConnectionPool S₂ S₁) (network : Network S₂ S₁)
    (request : HttpRequest) (insecure : Bool) :
    let outcome := pool.sendWithTimeout network request insecure
    (outcome.trace.map Transmission.carrier).Sublist (carriers request) ∧
    outcome.completeWrites ≤ (carriers request).length ∧
    (∀ transmission ∈ outcome.trace.dropLast, transmission.Retried) ∧
    (∀ transmission ∈ outcome.trace, ∀ response,
      transmission.attempt.result = .ok response →
        outcome.trace.getLast? = some transmission ∧ outcome.result = .ok response) ∧
    ((∀ transmission ∈ outcome.trace.dropLast, transmission.attempt.delivered = false) →
      outcome.completeWrites ≤ 1) ∧
    (pool.http2.get (sessionKey request insecure) = none →
      pool.http1.get (sessionKey request insecure) = none →
      (∀ transmission ∈ outcome.trace, transmission.carrier = .newHttp2 →
        transmission.attempt.result ≠ .error .invalidHeader) →
      outcome.completeWrites ≤ 1) := by
  intro outcome
  have hsound : Sound (carriers request) outcome :=
    sendWithTimeout_sound pool network request insecure
  have honce (h : ∀ transmission ∈ outcome.trace.dropLast,
      transmission.attempt.delivered = false) : outcome.completeWrites ≤ 1 := by
    have hnone : outcome.trace.dropLast.filter (·.attempt.delivered) = [] := by
      rw [List.filter_eq_nil_iff]
      intro transmission ht
      rw [h transmission ht]
      decide
    have hle := outcome.completeWrites_le
    rw [hnone] at hle
    exact hle
  refine ⟨hsound.sessions, ?_, hsound.retried, hsound.accepted, honce, ?_⟩
  · have hlength := hsound.sessions.length_le
    rw [List.length_map] at hlength
    exact Nat.le_trans (List.length_filter_le _ _) hlength
  · intro h₂ h₁ hheader
    refine honce fun transmission ht => ?_
    obtain ⟨hcarrier, hresult⟩ :=
      sendWithTimeout_unpooled pool network request insecure h₂ h₁ transmission ht
    exact absurd hresult (hheader transmission (List.dropLast_subset _ ht) hcarrier)

/-- A pooled HTTP/2 session that is cut off after it has taken the complete
request, and a new session that takes it again. -/
def cutOff : Network Unit Unit where
  connect := .ok ()
  reconnect := .ok ()
  timeout₂ _ := .ok ()
  timeout₁ _ := .ok ()
  send₂ _ _ := ({ delivered := true, result := .error (.io .unexpectedEof) }, ())
  send₁ _ _ := ({ delivered := true, result := .error (.io .unexpectedEof) }, ())
  connectSession := .ok (.inl ())
  connectHttp1Session := .ok ()
  sendOverTcp _ := { delivered := true, result := .error (.io .unexpectedEof) }

/-- A POST request is written completely twice. -/
theorem post_written_twice :
    ∃ (pool : ConnectionPool Unit Unit) (request : HttpRequest),
      request.method = .post ∧
      (pool.sendWithTimeout cutOff request false).completeWrites = 2 := by
  let request := HttpRequest.new ⟨"omoikane".toList, "en".toList⟩ .post exampleRoot
  exact ⟨{ http2 := [(sessionKey request false, ())], http1 := [] }, request, rfl, by decide⟩

end ConnectionPool

end Omoikane.Http
