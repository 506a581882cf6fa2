import Omoikane.Cdp.Outgoing

/-!
# One response for each request

A request is answered when it is received, or its token is completed at most once
(`Ledger`).  A token that is no longer pending never is again (`Spent`), and
nothing is put into the queue of a client that is gone (`Gone`).
`responses_once` says this of any operations.

What was put into a queue reaches the client once and in order
(`delivered_in_order`).
-/

namespace Omoikane.Cdp

open Base

/-! ## Reports about a token -/

/-- The deferred requests of a token, each as its client and id. -/
def requests (token : Nat) (events : List Event) : List (Nat × Json) :=
  events.filterMap fun
    | .deferred other client id => if other = token then some (client, id) else none
    | _ => none

/-- The responses to the deferred request of a token, with their clients. -/
def completions (token : Nat) (events : List Event) : List (Nat × JsonRpcResponse) :=
  events.filterMap fun
    | .completed other client response _ => if other = token then some (client, response) else none
    | _ => none

@[simp] theorem requests_append (token : Nat) (events more : List Event) :
    requests token (events ++ more) = requests token events ++ requests token more :=
  List.filterMap_append ..

@[simp] theorem completions_append (token : Nat) (events more : List Event) :
    completions token (events ++ more) = completions token events ++ completions token more :=
  List.filterMap_append ..

theorem requests_of_plain {events : List Event} (h : ∀ event ∈ events, event.Plain) (token : Nat) :
    requests token events = [] := by
  refine List.filterMap_eq_nil_iff.mpr fun event he => ?_
  have hplain := h event he
  cases event with
  | deferred => cases hplain
  | _ => rfl

theorem completions_of_plain {events : List Event} (h : ∀ event ∈ events, event.Plain)
    (token : Nat) : completions token events = [] := by
  refine List.filterMap_eq_nil_iff.mpr fun event he => ?_
  have hplain := h event he
  cases event with
  | completed => cases hplain
  | _ => rfl

@[simp] theorem requests_deferred (token client : Nat) (id : Json) :
    requests token [.deferred token client id] = [(client, id)] := by
  simp [requests]

theorem requests_deferred_of_ne {token other : Nat} (h : token ≠ other) (client : Nat) (id : Json) :
    requests other [.deferred token client id] = [] := by
  simp [requests, h]

@[simp] theorem requests_completed (token other client : Nat) (response : JsonRpcResponse)
    (frame : WebSocketFrame) : requests other [.completed token client response frame] = [] := rfl

@[simp] theorem completions_deferred (token other client : Nat) (id : Json) :
    completions other [.deferred token client id] = [] := rfl

@[simp] theorem completions_completed (token client : Nat) (response : JsonRpcResponse)
    (frame : WebSocketFrame) :
    completions token [.completed token client response frame] = [(client, response)] := by
  simp [completions]

theorem completions_completed_of_ne {token other : Nat} (h : token ≠ other) (client : Nat)
    (response : JsonRpcResponse) (frame : WebSocketFrame) :
    completions other [.completed token client response frame] = [] := by
  simp [completions, h]

namespace CdpServer

variable {crates : Crates} {server next : CdpServer} {events past : List Event}

/-! ## Clients that are gone -/

/-- A client that was accepted is not connected any more. -/
structure Gone (server : CdpServer) (client : Nat) : Prop where
  accepted : client < server.nextClientId
  absent : ¬ server.Connected client

theorem Changed.gone (hchanged : Changed crates server next events) {client : Nat}
    (hgone : server.Gone client) : next.Gone client := by
  cases hchanged with
  | kept keys clients clientIds => exact ⟨clientIds ▸ hgone.accepted, hgone.absent ∘ (clients _).mp⟩
  | completed token pending waited keys clients clientIds =>
    exact ⟨clientIds ▸ hgone.accepted, hgone.absent ∘ (clients _).mp⟩
  | deferred other id connected => exact ⟨hgone.accepted, hgone.absent⟩
  | accepted =>
    refine ⟨Nat.lt_succ_of_lt hgone.accepted, fun hclient => hgone.absent ?_⟩
    unfold Connected at hclient
    rwa [Table.get_insert_of_ne _ (Nat.ne_of_lt hgone.accepted)] at hclient
  | closed other connected =>
    refine ⟨hgone.accepted, fun hclient => hgone.absent ?_⟩
    have hne : client ≠ other := by
      rintro rfl
      exact hgone.absent connected
    have hclient : ((server.clients.remove other).get client).isSome = true := hclient
    rwa [Table.get_remove_of_ne _ hne] at hclient

/-- A client that closes is gone. -/
theorem gone_closeClient (h : server.Consistent) {client : Nat} (hclient : server.Connected client) :
    (server.closeClient client).Gone client := by
  refine ⟨h.clients client hclient, fun hconnected => ?_⟩
  have hconnected : ((server.clients.remove client).get client).isSome = true := hconnected
  rw [Table.get_remove_self] at hconnected
  cases hconnected

/-! ## The ledger -/

/-- What may be pending for a token after its deferred requests and completions. -/
inductive Account (crates : Crates) (server : CdpServer) :
    Option PendingResponse → List (Nat × Json) → List (Nat × JsonRpcResponse) → Prop where
  | unused : Account crates server none [] []
  | waiting (pending : PendingResponse) :
      Account crates server (some pending) [(pending.clientId, pending.requestId)] []
  /-- Its client is gone, or its response had no text. -/
  | dropped (client : Nat) (id : Json) (why : server.Gone client ∨ Unprintable crates id) :
      Account crates server none [(client, id)] []
  | responded (client : Nat) (response : JsonRpcResponse) :
      Account crates server none [(client, response.id)] [(client, response)]

/-- What the events of a run say of the state after it. -/
structure Ledger (crates : Crates) (events : List Event) (server : CdpServer) : Prop where
  issued : ∀ token, server.nextDeferredToken ≤ token → requests token events = []
  accounts : ∀ token, Account crates server (server.pendingResponses.get token)
    (requests token events) (completions token events)

theorem Ledger.new : Ledger crates [] new := ⟨fun _ _ => rfl, fun _ => .unused⟩

/-- A client that is gone stays so, which is all an account says of the server. -/
theorem Account.changed (hchanged : Changed crates server next events)
    {pending : Option PendingResponse} {asked : List (Nat × Json)}
    {given : List (Nat × JsonRpcResponse)} (haccount : Account crates server pending asked given) :
    Account crates next pending asked given := by
  cases haccount with
  | unused => exact .unused
  | waiting pending => exact .waiting pending
  | dropped client id why => exact .dropped client id (why.imp_left hchanged.gone)
  | responded client response => exact .responded client response

/-- A token that was not issued has no account. -/
theorem Ledger.fresh (h : Ledger crates past server) :
    requests server.nextDeferredToken past = [] ∧ completions server.nextDeferredToken past = [] := by
  have hrequests := h.issued server.nextDeferredToken (Nat.le_refl _)
  have haccount := h.accounts server.nextDeferredToken
  rw [hrequests] at haccount
  refine ⟨hrequests, ?_⟩
  revert haccount
  generalize server.pendingResponses.get server.nextDeferredToken = pending
  generalize completions server.nextDeferredToken past = given
  intro haccount
  cases haccount
  rfl

/-- The account of a token that is pending. -/
theorem Ledger.waiting (h : Ledger crates past server) {token : Nat} {pending : PendingResponse}
    (hpending : server.pendingResponses.get token = some pending) :
    requests token past = [(pending.clientId, pending.requestId)] ∧ completions token past = [] := by
  have haccount := h.accounts token
  rw [hpending] at haccount
  revert haccount
  generalize requests token past = asked
  generalize completions token past = given
  intro haccount
  cases haccount
  exact ⟨rfl, rfl⟩

theorem Ledger.changed (hconsistent : server.Consistent) (h : Ledger crates past server)
    (hchanged : Changed crates server next events) : Ledger crates (past ++ events) next := by
  have haccounts : ∀ token, Account crates next (server.pendingResponses.get token)
      (requests token past) (completions token past) :=
    fun token => (h.accounts token).changed hchanged
  cases hchanged with
  | kept keys clients clientIds pending tokens reported =>
    refine ⟨fun token htoken => ?_, fun token => ?_⟩
    · rw [requests_append, requests_of_plain reported, List.append_nil]
      exact h.issued token (Nat.le_trans tokens htoken)
    · rw [pending, requests_append, completions_append, requests_of_plain reported,
        completions_of_plain reported, List.append_nil, List.append_nil]
      exact haccounts token
  | accepted =>
    rw [List.append_nil]
    exact ⟨h.issued, haccounts⟩
  | deferred client id connected =>
    refine ⟨fun token htoken => ?_, fun token => ?_⟩
    · have hne : server.nextDeferredToken ≠ token := Nat.ne_of_lt htoken
      rw [requests_append, requests_deferred_of_ne hne, List.append_nil]
      exact h.issued token (Nat.le_of_succ_le htoken)
    · rw [requests_append, completions_append, completions_deferred, List.append_nil]
      by_cases heq : token = server.nextDeferredToken
      · obtain ⟨hasked, hgiven⟩ := h.fresh
        rw [heq, Table.get_insert_self, hasked, hgiven, requests_deferred]
        exact .waiting { clientId := client, requestId := id }
      · rw [Table.get_insert_of_ne _ heq, requests_deferred_of_ne (Ne.symm heq), List.append_nil]
        exact haccounts token
  | completed token waited hwaited keys clients clientIds pendingResponses tokens reported =>
    obtain ⟨hasked, hgiven⟩ := h.waiting hwaited
    rcases reported with ⟨rfl, hprint⟩ | ⟨response, frame, hid, rfl⟩
    · rw [List.append_nil]
      refine ⟨tokens ▸ h.issued, fun other => ?_⟩
      rw [pendingResponses]
      by_cases heq : other = token
      · rw [heq, Table.get_remove_self, hasked, hgiven]
        exact .dropped _ _ (Or.inr hprint)
      · rw [Table.get_remove_of_ne _ heq]
        exact haccounts other
    · refine ⟨fun other hother => ?_, fun other => ?_⟩
      · rw [requests_append, requests_completed, List.append_nil]
        exact h.issued other (tokens ▸ hother)
      · rw [requests_append, completions_append, requests_completed, List.append_nil,
          pendingResponses]
        by_cases heq : other = token
        · rw [heq, Table.get_remove_self, hasked, hgiven, completions_completed, ← hid]
          exact .responded waited.clientId response
        · rw [Table.get_remove_of_ne _ heq, completions_completed_of_ne (Ne.symm heq),
            List.append_nil]
          exact haccounts other
  | closed client connected =>
    rw [List.append_nil]
    refine ⟨h.issued, fun token => ?_⟩
    show Account crates _ (Table.get (server.pendingResponses.filter _) token) _ _
    cases hget : Table.get (server.pendingResponses.filter
        fun entry => entry.2.clientId ≠ client) token with
    | some pending =>
      obtain ⟨hold, -⟩ := (hconsistent.pendingKeys.get_filter _).mp hget
      rw [← hold]
      exact haccounts token
    | none =>
      cases hold : server.pendingResponses.get token with
      | none =>
        rw [← hold]
        exact haccounts token
      | some pending =>
        obtain ⟨hasked, hgiven⟩ := h.waiting hold
        have hclient : pending.clientId = client := by
          apply Classical.byContradiction
          intro hne
          have hkept := (hconsistent.pendingKeys.get_filter
            (fun entry => entry.2.clientId ≠ client)).mpr ⟨hold, decide_eq_true hne⟩
          rw [hget] at hkept
          cases hkept
        rw [hasked, hgiven, hclient]
        exact .dropped client _ (Or.inl (gone_closeClient hconsistent connected))

/-! ## Tokens that are not pending -/

/-- A token that was completed is not pending. -/
theorem Ledger.completed (h : Ledger crates events server) {token client : Nat}
    {response : JsonRpcResponse} {frame : WebSocketFrame}
    (hm : .completed token client response frame ∈ events) :
    server.pendingResponses.get token = none := by
  cases hget : server.pendingResponses.get token with
  | none => rfl
  | some pending =>
    have hgiven : (client, response) ∈ completions token events :=
      List.mem_filterMap.mpr ⟨_, hm, if_pos rfl⟩
    rw [(h.waiting hget).2] at hgiven
    cases hgiven

/-- A token whose client is not connected is not pending. -/
theorem Ledger.disconnected (h : Ledger crates events server) (hconsistent : server.Consistent)
    {token client : Nat} {id : Json} (hm : .deferred token client id ∈ events)
    (hclient : ¬ server.Connected client) : server.pendingResponses.get token = none := by
  cases hget : server.pendingResponses.get token with
  | none => rfl
  | some pending =>
    have hasked : (client, id) ∈ requests token events :=
      List.mem_filterMap.mpr ⟨_, hm, if_pos rfl⟩
    rw [(h.waiting hget).1, List.mem_singleton] at hasked
    cases hasked
    exact absurd (hconsistent.connected token pending hget) hclient

/-- A token that is not pending cannot be completed. -/
theorem completeDeferredResponse_unknown {token : Nat}
    (h : server.pendingResponses.get token = none) (result : Except JsonRpcError Json) :
    server.completeDeferredResponse crates token result =
      server.fail (.unknownDeferredRequest token) := by
  unfold completeDeferredResponse
  rw [h]

/-- A completion answers the request that was pending. -/
theorem completeDeferredResponse_ok {token : Nat} {result : Except JsonRpcError Json}
    (hok : (server.completeDeferredResponse crates token result).result = .ok ()) :
    ∃ pending payload, server.pendingResponses.get token = some pending ∧
      crates.print (JsonRpcResponse.ofResult pending.requestId result).toJson = some payload ∧
      (server.completeDeferredResponse crates token result).events =
        [.completed token pending.clientId (.ofResult pending.requestId result) (.text payload)] := by
  revert hok
  unfold completeDeferredResponse
  split
  · intro hfail
    cases hfail
  next pending hpending =>
    intro hok
    rcases enqueueResponse_reported crates
      { server with pendingResponses := server.pendingResponses.remove token } pending.clientId
      (.ofResult pending.requestId result)
      (.completed token pending.clientId (.ofResult pending.requestId result)) with
      ⟨-, hfailed⟩ | ⟨payload, hprint, hone⟩
    · exact absurd hok hfailed
    · exact ⟨pending, payload, hpending, hprint, hone⟩

/-! ## Runs -/

/-- The invariant of a run. -/
theorem step_ledger (operation : Operation)
    (h : server.Consistent ∧ Ledger crates past server) :
    (server.step crates operation).Consistent ∧
      Ledger crates (past ++ server.emits crates operation) (server.step crates operation) :=
  have hchanged := step_changed crates h.1 operation
  ⟨hchanged.consistent h.1, h.2.changed h.1 hchanged⟩

/-- Nothing is put into the queue of a client that is gone. -/
theorem step_gone (operation : Operation) {client : Nat}
    (h : server.Consistent ∧ server.Gone client) :
    ((server.step crates operation).Consistent ∧ (server.step crates operation).Gone client) ∧
      ∀ event ∈ server.emits crates operation, event.frameFor client = none := by
  have hchanged := step_changed crates h.1 operation
  refine ⟨⟨hchanged.consistent h.1, hchanged.gone h.2⟩, ?_⟩
  have hfilling := step_filling crates h.1 operation client
  have hnone : server.clients.get client = none := by
    have habsent := h.2.absent
    unfold Connected at habsent
    exact Option.not_isSome_iff_eq_none.mp habsent
  rw [hnone] at hfilling
  have hframes : frames client (server.emits crates operation) = [] := by
    revert hfilling
    generalize (server.step crates operation).clients.get client = after
    generalize frames client (server.emits crates operation) = filled
    intro hfilling
    cases hfilling <;> rfl
  exact List.filterMap_eq_nil_iff.mp hframes

/-- What the reports of a run say of the responses to its requests. -/
structure Accounted (crates : Crates) (events : List Event) (server : CdpServer) : Prop where
  pending_connected : ∀ token pending, server.pendingResponses.get token = some pending →
    server.Connected pending.clientId
  /-- A request that is received is answered with its id, or it is deferred. -/
  received : ∀ client bytes answers frame used request id,
    WebSocketFrame.decodeClient bytes = .ok (frame, used) → frame.opcode = .text →
    parseJsonRpcRequest crates frame.payload = .ok request → request.id = some id →
    (server.receive crates answers client bytes).result = .ok () →
      Received crates server client id (server.receive crates answers client bytes).events
  /-- A deferred request is pending, or it has one response, or it will never have one. -/
  accounts : ∀ token, Account crates server (server.pendingResponses.get token)
    (requests token events) (completions token events)
  completes : ∀ token result,
    (server.completeDeferredResponse crates token result).result = .ok () →
      ∃ pending payload, server.pendingResponses.get token = some pending ∧
        crates.print (JsonRpcResponse.ofResult pending.requestId result).toJson = some payload ∧
        (server.completeDeferredResponse crates token result).events =
          [.completed token pending.clientId (.ofResult pending.requestId result) (.text payload)]
  twice : ∀ token client response frame result, .completed token client response frame ∈ events →
    server.completeDeferredResponse crates token result =
      server.fail (.unknownDeferredRequest token)
  disconnected : ∀ token client id result, .deferred token client id ∈ events →
    ¬ server.Connected client → server.completeDeferredResponse crates token result =
      server.fail (.unknownDeferredRequest token)
  /-- A client that closed is never connected again, and nothing is put into its queue. -/
  gone : ∀ client bytes answers frame used later, server.Connected client →
    WebSocketFrame.decodeClient bytes = .ok (frame, used) → frame.opcode = .close →
    let closed := (server.receive crates answers client bytes).server
    ¬ (Run.run (step crates) closed later).Connected client ∧
      frames client (Run.emitted (step crates) (emits crates) closed later) = []
  /-- The queues hold the frames that are reported. -/
  queues : ∀ operation client, Filling operation client (server.clients.get client)
    ((server.step crates operation).clients.get client)
    (frames client (server.emits crates operation))
  printed : ∀ event ∈ events, event.Printed crates

theorem Consistent.receive_close (h : server.Consistent) {client : Nat} {bytes : Bytes}
    {answers : Answers} {frame : WebSocketFrame} {used : Nat} (hclient : server.Connected client)
    (hdecode : WebSocketFrame.decodeClient bytes = .ok (frame, used))
    (hclose : frame.opcode = .close) (later : List Operation) :
    let closed := (server.receive crates answers client bytes).server
    ¬ (Run.run (step crates) closed later).Connected client ∧
      frames client (Run.emitted (step crates) (emits crates) closed later) = [] := by
  have hclosed : (server.receive crates answers client bytes).server = server.closeClient client := by
    have hnot : ¬ (server.clients.get client).isNone = true := by
      rw [Option.isNone_eq_false_iff.mpr hclient]
      exact nofun
    unfold receive
    rw [if_neg hnot, hdecode]
    dsimp only
    rw [hclose]
  dsimp only
  rw [hclosed]
  have hstart : (server.closeClient client).Consistent ∧ (server.closeClient client).Gone client :=
    have hchanged : Changed crates server (server.closeClient client) [] := .closed client hclient
    ⟨hchanged.consistent h, gone_closeClient h hclient⟩
  refine ⟨?_, List.filterMap_eq_nil_iff.mpr ?_⟩
  · have hend : (Run.run (step crates) (server.closeClient client) later).Consistent ∧
        (Run.run (step crates) (server.closeClient client) later).Gone client :=
      Run.invariant (I := fun server : CdpServer => server.Consistent ∧ server.Gone client)
        (fun _ operation hserver => (step_gone operation hserver).1) later hstart
    exact hend.2.absent
  · exact Run.forall_emitted (I := fun server : CdpServer => server.Consistent ∧ server.Gone client)
      (fun _ operation hserver => step_gone operation hserver) later hstart

/-- The frames that an operation hands to the connection of a client. -/
def handed (client : Nat) (server : CdpServer) : Operation → List WebSocketFrame
  | .drainOutgoing receiver =>
    if receiver = client then (server.drainOutgoing receiver).result.toOption.getD [] else []
  | _ => []

theorem handed_of_ne {client : Nat} {operation : Operation}
    (h : operation ≠ .drainOutgoing client) : handed client server operation = [] := by
  cases operation with
  | drainOutgoing receiver =>
    have hne : receiver ≠ client := fun heq => h (heq ▸ rfl)
    rw [handed, if_neg hne]
  | _ => rfl

/-- What a client was handed, and what waits for it, are the frames that were
reported for it, in their order. -/
structure Delivered (server : CdpServer) (client : Nat) (sent reported : List WebSocketFrame) :
    Prop where
  connected : ∀ queue, server.clients.get client = some queue → sent ++ queue = reported
  /-- A client that is gone was handed the first of them. -/
  absent : server.clients.get client = none → sent <+: reported
  fresh : server.nextClientId ≤ client → reported = []

theorem Changed.nextClientId_le (h : Changed crates server next events) :
    server.nextClientId ≤ next.nextClientId := by
  cases h with
  | kept _ _ hids | completed _ _ _ _ _ hids => exact Nat.le_of_eq hids.symm
  | accepted => exact Nat.le_succ _
  | deferred | closed => exact Nat.le_refl _

theorem connected_of_get {client : Nat} {queue : List WebSocketFrame}
    (h : server.clients.get client = some queue) : server.Connected client := by
  rw [Connected, h]
  rfl

/-- A number that was given to a client is not given to another one. -/
theorem Changed.fresh_of_accepted (h : Changed crates server next events) {client : Nat}
    {queue : List WebSocketFrame} (hbefore : server.clients.get client = none)
    (hafter : next.clients.get client = some queue) : server.nextClientId ≤ client := by
  apply Classical.byContradiction
  intro hold
  have hgone : server.Gone client := by
    refine ⟨Nat.lt_of_not_le hold, fun hconnected => ?_⟩
    rw [Connected, hbefore] at hconnected
    cases hconnected
  exact (h.gone hgone).absent (connected_of_get hafter)

theorem Delivered.drain {client : Nat} {sent reported : List WebSocketFrame}
    (h : Delivered server client sent reported) :
    Delivered (server.drainOutgoing client).server client
      (sent ++ handed client server (.drainOutgoing client)) reported := by
  rw [handed, if_pos rfl]
  unfold drainOutgoing
  cases hget : server.clients.get client with
  | none =>
    show Delivered server client (sent ++ []) reported
    rwa [List.append_nil]
  | some outgoing =>
    refine ⟨fun queue hqueue => ?_, fun hnone => ?_, h.fresh⟩
    · have hempty : some [] = some queue := (Table.get_insert_self ..).symm.trans hqueue
      cases hempty
      rw [List.append_nil]
      exact h.connected outgoing hget
    · have hsome : (server.clients.insert client []).get client = none := hnone
      rw [Table.get_insert_self] at hsome
      cases hsome

theorem Delivered.step (hserver : server.Consistent) {client : Nat}
    {sent reported : List WebSocketFrame} (h : Delivered server client sent reported)
    (operation : Operation) :
    Delivered (server.step crates operation) client (sent ++ handed client server operation)
      (reported ++ frames client (server.emits crates operation)) := by
  by_cases hdrain : operation = .drainOutgoing client
  · subst hdrain
    have hnothing : server.emits crates (.drainOutgoing client) = [] := by
      show (server.drainOutgoing client).events = []
      unfold drainOutgoing
      split <;> rfl
    rw [hnothing, frames_nil, List.append_nil]
    exact h.drain
  · rw [handed_of_ne hdrain, List.append_nil]
    have hchanged := step_changed crates hserver operation
    have hnext := hchanged.consistent hserver
    have hfilling := step_filling crates hserver operation client
    generalize hbefore : server.clients.get client = before at hfilling
    generalize hafter : (server.step crates operation).clients.get client = after at hfilling
    generalize frames client (server.emits crates operation) = filled at hfilling ⊢
    cases hfilling with
    | absent =>
      rw [List.append_nil]
      refine ⟨fun queue hqueue => ?_, fun _ => h.absent hbefore, fun hfresh =>
        h.fresh (hchanged.nextClientId_le.trans hfresh)⟩
      rw [hafter] at hqueue
      cases hqueue
    | filled outgoing filled =>
      refine ⟨fun queue hqueue => ?_, fun hnone => ?_, fun hfresh => ?_⟩
      · rw [hafter] at hqueue
        cases hqueue
        rw [← List.append_assoc, h.connected outgoing hbefore]
      · rw [hafter] at hnone
        cases hnone
      · exact absurd (hnext.clients client (connected_of_get hafter)) (Nat.not_lt.mpr hfresh)
    | drained outgoing asked => exact absurd asked hdrain
    | accepted request asked =>
      have hreported := h.fresh (hchanged.fresh_of_accepted hbefore hafter)
      have hsent := h.absent hbefore
      rw [hreported, List.prefix_nil] at hsent
      rw [hreported, hsent]
      refine ⟨fun queue hqueue => ?_, fun _ => List.prefix_rfl, fun _ => rfl⟩
      rw [hafter] at hqueue
      cases hqueue
      rfl
    | closed outgoing bytes answers asked =>
      rw [List.append_nil]
      refine ⟨fun queue hqueue => ?_, fun _ => ⟨outgoing, h.connected outgoing hbefore⟩,
        fun hfresh => h.fresh (hchanged.nextClientId_le.trans hfresh)⟩
      rw [hafter] at hqueue
      cases hqueue

/-- However operations follow one another, a client is handed the frames that are put into
its queue once and in order, and those it was not handed yet wait in its queue. -/
theorem delivered_in_order (crates : Crates) (operations : List Operation) (client : Nat) :
    Delivered (Run.run (step crates) new operations) client
      (Run.emitted (step crates) (handed client) new operations)
      (frames client (Run.emitted (step crates) (emits crates) new operations)) := by
  induction operations using List.reverseRecOn with
  | nil => exact ⟨fun queue hqueue => (by cases hqueue), fun _ => List.prefix_rfl, fun _ => rfl⟩
  | append_singleton operations operation ih =>
    have hstep : ∀ (server : CdpServer) (operation : Operation), server.Consistent →
        (server.step crates operation).Consistent :=
      fun _ operation h => (step_changed crates h operation).consistent h
    have hconsistent := Run.invariant hstep operations .new
    have hframes : ∀ events more, frames client (events ++ more) =
        frames client events ++ frames client more :=
      fun _ _ => List.filterMap_append ..
    rw [Run.run_append, Run.emitted_append, Run.emitted_append, hframes]
    simp only [Run.run_cons, Run.run_nil, Run.emitted_cons, Run.emitted_nil, List.append_nil]
    exact ih.step hconsistent operation

end CdpServer

end Omoikane.Cdp
