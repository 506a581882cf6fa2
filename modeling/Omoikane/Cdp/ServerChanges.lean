import Omoikane.Cdp.Server

/-!
# What the operations change

`CdpServer.Changed` says what an operation does to the clients and to the pending
responses, and `CdpServer.Consistent` is the invariant of the server.
-/

namespace Omoikane.Cdp

open Base

namespace Event

/-- The frame that is put into the queue of a client. -/
def frameFor (client : Nat) : Event → Option WebSocketFrame
  | .answered other _ frame | .completed _ other _ frame | .pushed other frame =>
    if other = client then some frame else none
  | .deferred _ _ _ => none

/-- Not about a deferred response. -/
def Plain : Event → Prop
  | .answered _ _ _ | .pushed _ _ => True
  | .deferred _ _ _ | .completed _ _ _ _ => False

end Event

namespace CdpServer

/-- A client is connected. -/
def Connected (server : CdpServer) (client : Nat) : Prop :=
  (server.clients.get client).isSome = true

/-- The invariant of the server. -/
structure Consistent (server : CdpServer) : Prop where
  clientKeys : server.clients.Keyed
  pendingKeys : server.pendingResponses.Keyed
  connected : ∀ token pending, server.pendingResponses.get token = some pending →
    server.Connected pending.clientId
  tokens : ∀ token pending, server.pendingResponses.get token = some pending →
    token < server.nextDeferredToken
  clients : ∀ client, server.Connected client → client < server.nextClientId

theorem Consistent.new : new.Consistent :=
  ⟨List.nodup_nil, List.nodup_nil, nofun, nofun, nofun⟩

/-- A response to this id that has no text. -/
def Unprintable (crates : Crates) (id : Json) : Prop :=
  ∃ result, crates.print (JsonRpcResponse.ofResult id result).toJson = none

/-- What an operation does to the clients and to the pending responses. -/
inductive Changed (crates : Crates) (server : CdpServer) : CdpServer → List Event → Prop where
  | kept {next : CdpServer} {events : List Event} (keys : next.clients.Keyed)
      (clients : ∀ client, next.Connected client ↔ server.Connected client)
      (clientIds : next.nextClientId = server.nextClientId)
      (pending : next.pendingResponses = server.pendingResponses)
      (tokens : server.nextDeferredToken ≤ next.nextDeferredToken)
      (reported : ∀ event ∈ events, event.Plain) : Changed crates server next events
  | accepted : Changed crates server { server with
      nextClientId := server.nextClientId + 1
      clients := server.clients.insert server.nextClientId [] } []
  | deferred (client : Nat) (id : Json) (connected : server.Connected client) :
      Changed crates server { server with
        nextDeferredToken := server.nextDeferredToken + 1
        pendingResponses := server.pendingResponses.insert server.nextDeferredToken
          { clientId := client, requestId := id } }
        [.deferred server.nextDeferredToken client id]
  /-- A deferred response is completed, or its text cannot be printed. -/
  | completed {next : CdpServer} {events : List Event} (token : Nat) (pending : PendingResponse)
      (waited : server.pendingResponses.get token = some pending) (keys : next.clients.Keyed)
      (clients : ∀ client, next.Connected client ↔ server.Connected client)
      (clientIds : next.nextClientId = server.nextClientId)
      (pendingResponses : next.pendingResponses = server.pendingResponses.remove token)
      (tokens : next.nextDeferredToken = server.nextDeferredToken)
      (reported : events = [] ∧ Unprintable crates pending.requestId ∨
        ∃ response frame, response.id = pending.requestId ∧
          events = [.completed token pending.clientId response frame]) :
      Changed crates server next events
  | closed (client : Nat) (connected : server.Connected client) :
      Changed crates server (server.closeClient client) []

variable {crates : Crates} {server : CdpServer}

/-! ## Queues -/

/-- A queue of a connected client is extended, or nothing happens. -/
structure Enqueued (server : CdpServer) (client : Nat) (event : WebSocketFrame → Event)
    (outcome : Outcome Unit) : Prop where
  rest : outcome.server = { server with clients := outcome.server.clients }
  keys : server.clients.Keyed → outcome.server.clients.Keyed
  clients : ∀ other, outcome.server.Connected other ↔ server.Connected other
  reported : outcome.events = [] ∧ outcome.result ≠ .ok () ∨
    ∃ frame, outcome.events = [event frame] ∧ outcome.result = .ok ()

theorem enqueue_enqueued (server : CdpServer) (client : Nat) (frame : WebSocketFrame)
    (event : WebSocketFrame → Event) :
    Enqueued server client event (server.enqueue client frame (event frame)) := by
  unfold enqueue
  split
  · exact ⟨rfl, id, fun _ => Iff.rfl, Or.inl ⟨rfl, nofun⟩⟩
  next outgoing hclient =>
    refine ⟨rfl, fun h => h.insert _ _, fun other => ?_, Or.inr ⟨frame, rfl, rfl⟩⟩
    unfold Connected
    by_cases hother : other = client
    · rw [hother, Table.get_insert_self, hclient]
      rfl
    · rw [Table.get_insert_of_ne _ hother]

theorem enqueue_events {client : Nat} (h : server.Connected client) (frame : WebSocketFrame)
    (event : Event) : (server.enqueue client frame event).events = [event] := by
  unfold enqueue
  split
  next hnone =>
    unfold Connected at h
    rw [hnone] at h
    cases h
  next => rfl

theorem enqueueResponse_enqueued (crates : Crates) (server : CdpServer) (client : Nat)
    (response : JsonRpcResponse) (event : WebSocketFrame → Event) :
    Enqueued server client event (server.enqueueResponse crates client response event) := by
  unfold enqueueResponse
  split
  · exact ⟨rfl, id, fun _ => Iff.rfl, Or.inl ⟨rfl, nofun⟩⟩
  · exact server.enqueue_enqueued client _ event

/-- An answer leaves everything but the queue of its client alone. -/
theorem answer_changed {before server : CdpServer} (keys : before.clients.Keyed)
    (hserver : server = { before with nextDeferredToken := server.nextDeferredToken })
    (tokens : before.nextDeferredToken ≤ server.nextDeferredToken) (client : Nat)
    (response : JsonRpcResponse) :
    Changed crates before (server.answer crates client response).server
      (server.answer crates client response).events := by
  have henqueued := server.enqueueResponse_enqueued crates client response
    (.answered client response)
  have hclients : server.clients = before.clients := by rw [hserver]
  refine .kept (henqueued.keys (hclients ▸ keys)) (fun other => ?_) ?_ ?_ ?_ fun event he => ?_
  · refine (henqueued.clients other).trans ?_
    unfold Connected
    rw [hclients]
  · rw [answer, henqueued.rest, hserver]
  · rw [answer, henqueued.rest, hserver]
  · rw [answer, henqueued.rest]
    exact tokens
  · rcases henqueued.reported with ⟨hnone, -⟩ | ⟨frame, hone, -⟩
    · have he : event ∈ (server.enqueueResponse crates client response
        (.answered client response)).events := he
      rw [hnone] at he
      cases he
    · have he : event ∈ (server.enqueueResponse crates client response
        (.answered client response)).events := he
      rw [hone, List.mem_singleton] at he
      rw [he]
      exact trivial

/-! ## Operations -/

/-- An operation that leaves the clients and the pending responses alone. -/
theorem Changed.still (keys : server.clients.Keyed) : Changed crates server server [] :=
  .kept keys (fun _ => Iff.rfl) rfl rfl (Nat.le_refl _) nofun

theorem handleDeferred_changed (h : server.Consistent) (answers : Answers) {client : Nat}
    (hclient : server.Connected client) (id params : Json) (handler : Handler) :
    Changed crates server (server.handleDeferred crates answers client id params handler).server
      (server.handleDeferred crates answers client id params handler).events := by
  unfold handleDeferred
  dsimp only
  split
  · exact .still h.clientKeys
  · split
    · exact answer_changed h.clientKeys rfl (Nat.le_succ _) client _
    · exact .deferred client id hclient
    · exact answer_changed h.clientKeys rfl (Nat.le_succ _) client _

theorem handleTextFrame_changed (h : server.Consistent) (answers : Answers) {client : Nat}
    (hclient : server.Connected client) (payload : Bytes) :
    Changed crates server (server.handleTextFrame crates answers client payload).server
      (server.handleTextFrame crates answers client payload).events := by
  unfold handleTextFrame
  split
  · exact .still h.clientKeys
  · split
    · exact .still h.clientKeys
    · unfold handleRequest
      split
      · exact handleDeferred_changed h answers hclient _ _ _
      · split <;> exact answer_changed h.clientKeys rfl (Nat.le_refl _) client _

theorem receive_changed (h : server.Consistent) (answers : Answers) (client : Nat)
    (bytes : Bytes) :
    Changed crates server (server.receive crates answers client bytes).server
      (server.receive crates answers client bytes).events := by
  unfold receive
  split
  · exact .still h.clientKeys
  next hsome =>
    have hclient : server.Connected client := by
      unfold Connected
      cases hget : server.clients.get client with
      | none =>
        rw [hget] at hsome
        exact absurd rfl hsome
      | some outgoing => rfl
    split
    · exact .still h.clientKeys
    · split
      · exact handleTextFrame_changed h answers hclient _
      next frame _ _ _ _ =>
        have hpong := server.enqueue_enqueued client (.pong frame.payload) (.pushed client)
        refine .kept (hpong.keys h.clientKeys) hpong.clients ?_ ?_ ?_ fun event he => ?_
        · rw [hpong.rest]
        · rw [hpong.rest]
        · exact Nat.le_of_eq (by rw [hpong.rest])
        · rcases hpong.reported with ⟨hnone, -⟩ | ⟨pong, hone, -⟩
          · rw [hnone] at he
            cases he
          · rw [hone, List.mem_singleton] at he
            rw [he]
            exact trivial
      · exact .closed client hclient
      · exact .still h.clientKeys

theorem completeDeferredResponse_changed (h : server.Consistent) (token : Nat)
    (result : Except JsonRpcError Json) :
    Changed crates server (server.completeDeferredResponse crates token result).server
      (server.completeDeferredResponse crates token result).events := by
  unfold completeDeferredResponse
  split
  · exact .still h.clientKeys
  next pending hpending =>
    unfold enqueueResponse
    dsimp only
    split
    next hprint =>
      exact .completed token pending hpending h.clientKeys (fun _ => Iff.rfl) rfl rfl rfl
        (Or.inl ⟨rfl, result, hprint⟩)
    next payload _ =>
      have henqueued := enqueue_enqueued
        { server with pendingResponses := server.pendingResponses.remove token } pending.clientId
        (.text payload) (.completed token pending.clientId (.ofResult pending.requestId result))
      refine .completed token pending hpending (henqueued.keys h.clientKeys) henqueued.clients
        ?_ ?_ ?_ (Or.inr ⟨.ofResult pending.requestId result, .text payload,
          JsonRpcResponse.ofResult_id .., ?_⟩)
      · rw [henqueued.rest]
      · rw [henqueued.rest]
      · rw [henqueued.rest]
      · have hclient : Connected { server with
            pendingResponses := server.pendingResponses.remove token } pending.clientId :=
          h.connected token pending hpending
        exact enqueue_events hclient _ _

theorem notify_changed (h : server.Consistent) (method : Text) (params : Json) :
    Changed crates server (server.notify crates method params).server
      (server.notify crates method params).events := by
  unfold notify
  dsimp only
  split
  · exact .still h.clientKeys
  next payload _ =>
    have hkeys := h.clientKeys.map fun outgoing => outgoing ++ [WebSocketFrame.text payload]
    refine .kept hkeys (fun client => ?_) rfl rfl (Nat.le_refl _) fun event he => ?_
    · have hget := Table.get_map server.clients
        (fun outgoing => outgoing ++ [WebSocketFrame.text payload]) client
      unfold Connected
      rw [hget, Option.isSome_map]
    · obtain ⟨entry, -, rfl⟩ := List.mem_map.mp he
      exact trivial

theorem drainOutgoing_changed (h : server.Consistent) (client : Nat) :
    Changed crates server (server.drainOutgoing client).server (server.drainOutgoing client).events := by
  unfold drainOutgoing
  split
  · exact .still h.clientKeys
  next outgoing hclient =>
    refine .kept (h.clientKeys.insert _ _) (fun other => ?_) rfl rfl (Nat.le_refl _) nofun
    unfold Connected
    by_cases hother : other = client
    · rw [hother, Table.get_insert_self, hclient]
      rfl
    · rw [Table.get_insert_of_ne _ hother]

/-- Every operation changes the server in one of these ways. -/
theorem step_changed (crates : Crates) (h : server.Consistent) (operation : Operation) :
    Changed crates server (server.step crates operation) (server.emits crates operation) := by
  cases operation with
  | registerMethod method handler =>
    exact .kept h.clientKeys (fun _ => Iff.rfl) rfl rfl (Nat.le_refl _) nofun
  | registerDeferredMethod method handler =>
    exact .kept h.clientKeys (fun _ => Iff.rfl) rfl rfl (Nat.le_refl _) nofun
  | acceptUpgrade request =>
    unfold step emits act acceptUpgrade
    dsimp only
    cases parseUpgradeRequest request with
    | error error => exact .still h.clientKeys
    | ok request =>
      dsimp only
      split
      next hnone =>
        split at hnone
        · exact .still h.clientKeys
        · cases hnone
      next outcome hsome =>
        split at hsome
        · cases hsome
        · cases hsome
          exact .accepted
  | receive client bytes answers => exact receive_changed h answers client bytes
  | completeDeferredResponse token result => exact completeDeferredResponse_changed h token result
  | notify method params => exact notify_changed h method params
  | drainOutgoing client => exact drainOutgoing_changed h client

/-- The invariant is kept. -/
theorem Changed.consistent {next : CdpServer} {events : List Event} (h : server.Consistent)
    (hchanged : Changed crates server next events) : next.Consistent := by
  cases hchanged with
  | kept keys clients clientIds pending tokens =>
    refine ⟨keys, pending ▸ h.pendingKeys, fun token waiting hget => ?_,
      fun token waiting hget => ?_, fun client hclient => ?_⟩
    · rw [pending] at hget
      exact (clients _).mpr (h.connected token waiting hget)
    · rw [pending] at hget
      exact Nat.lt_of_lt_of_le (h.tokens token waiting hget) tokens
    · rw [clientIds]
      exact h.clients client ((clients client).mp hclient)
  | accepted =>
    have hother : ∀ client, server.Connected client → client ≠ server.nextClientId :=
      fun client hclient => Nat.ne_of_lt (h.clients client hclient)
    refine ⟨h.clientKeys.insert _ _, h.pendingKeys, fun token waiting hget => ?_, h.tokens,
      fun client hclient => ?_⟩
    · have hconnected := h.connected token waiting hget
      unfold Connected
      rw [Table.get_insert_of_ne _ (hother _ hconnected)]
      exact hconnected
    · unfold Connected at hclient
      by_cases heq : client = server.nextClientId
      · rw [heq]
        exact Nat.lt_succ_self _
      · rw [Table.get_insert_of_ne _ heq] at hclient
        exact Nat.lt_succ_of_lt (h.clients client hclient)
  | deferred client id connected =>
    refine ⟨h.clientKeys, h.pendingKeys.insert _ _, fun token waiting hget => ?_,
      fun token waiting hget => ?_, h.clients⟩
    · by_cases heq : token = server.nextDeferredToken
      · rw [heq, Table.get_insert_self, Option.some.injEq] at hget
        rw [← hget]
        exact connected
      · rw [Table.get_insert_of_ne _ heq] at hget
        exact h.connected token waiting hget
    · by_cases heq : token = server.nextDeferredToken
      · rw [heq]
        exact Nat.lt_succ_self _
      · rw [Table.get_insert_of_ne _ heq] at hget
        exact Nat.lt_succ_of_lt (h.tokens token waiting hget)
  | completed token pending waited keys clients clientIds pendingResponses tokens =>
    have hkept : ∀ other waiting, next.pendingResponses.get other = some waiting →
        server.pendingResponses.get other = some waiting := by
      intro other waiting hget
      rw [pendingResponses] at hget
      exact ((h.pendingKeys.get_filter _).mp hget).1
    refine ⟨keys, pendingResponses ▸ h.pendingKeys.filter _, fun other waiting hget => ?_,
      fun other waiting hget => ?_, fun client hclient => ?_⟩
    · exact (clients _).mpr (h.connected other waiting (hkept other waiting hget))
    · rw [tokens]
      exact h.tokens other waiting (hkept other waiting hget)
    · rw [clientIds]
      exact h.clients client ((clients client).mp hclient)
  | closed client connected =>
    refine ⟨h.clientKeys.filter _, h.pendingKeys.filter _, fun token waiting hget => ?_,
      fun token waiting hget => ?_, fun other hother => ?_⟩
    · obtain ⟨hold, hne⟩ := (h.pendingKeys.get_filter _).mp hget
      have hne : waiting.clientId ≠ client := of_decide_eq_true hne
      show ((server.clients.remove client).get waiting.clientId).isSome = true
      rw [Table.get_remove_of_ne _ hne]
      exact h.connected token waiting hold
    · exact h.tokens token waiting ((h.pendingKeys.get_filter _).mp hget).1
    · have hother : ((server.clients.remove client).get other).isSome = true := hother
      by_cases heq : other = client
      · rw [heq, Table.get_remove_self] at hother
        cases hother
      · rw [Table.get_remove_of_ne _ heq] at hother
        exact h.clients other hother

end CdpServer

end Omoikane.Cdp
