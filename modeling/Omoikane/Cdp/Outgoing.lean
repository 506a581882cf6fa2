import Omoikane.Cdp.ServerChanges

/-!
# Reports and queues

The frames that an operation reports are those that it puts into the queues
(`Filling`), and a request that is received is answered or deferred
(`receive_received`).
-/

namespace Omoikane.Cdp

open Base

namespace Event

/-- The frame of a response is its text. -/
def Printed (crates : Crates) : Event → Prop
  | .answered _ response frame | .completed _ _ response frame =>
    ∃ payload, crates.print response.toJson = some payload ∧ frame = .text payload
  | .deferred _ _ _ | .pushed _ _ => True

end Event

/-- The frames that are put into the queue of a client. -/
def frames (client : Nat) (events : List Event) : List WebSocketFrame :=
  events.filterMap fun event => event.frameFor client

@[simp] theorem frames_nil (client : Nat) : frames client [] = [] := rfl

theorem frames_singleton (client : Nat) (event : Event) :
    frames client [event] = (event.frameFor client).toList := by
  unfold frames
  cases h : event.frameFor client <;> simp [h]

/-- A frame for every client is put once into the queue of each. -/
theorem frames_broadcast {clients : Table Nat (List WebSocketFrame)} (h : clients.Keyed)
    (frame : WebSocketFrame) (client : Nat) :
    frames client (clients.map fun entry => .pushed entry.1 frame) =
      if (Table.get clients client).isSome then [frame] else [] := by
  induction clients with
  | nil => rfl
  | cons entry clients ih =>
    obtain ⟨hnot, hclients⟩ := List.nodup_cons.mp h
    have hrest := ih hclients
    unfold frames at hrest ⊢
    rw [List.map_cons, Table.get_cons]
    by_cases heq : entry.1 = client
    · have hnone : (Table.get clients client).isSome = false := by
        cases hget : Table.get clients client with
        | none => rfl
        | some outgoing =>
          obtain ⟨other, hother, hkey, -⟩ := Table.exists_mem_of_get_eq_some hget
          exact absurd (List.mem_map.mpr ⟨other, hother, hkey.trans heq.symm⟩) hnot
      rw [hnone] at hrest
      rw [List.filterMap_cons_some (b := frame) (by simp [Event.frameFor, heq]), hrest, if_pos heq]
      rfl
    · rw [List.filterMap_cons_none (by simp [Event.frameFor, heq]), hrest, if_neg heq]

namespace CdpServer

variable {crates : Crates} {server : CdpServer}

/-! ## Queues -/

/-- What an operation does to the queue of a client, and the frames it reports for it. -/
inductive Filling (operation : Operation) (client : Nat) :
    Option (List WebSocketFrame) → Option (List WebSocketFrame) → List WebSocketFrame → Prop where
  | absent : Filling operation client none none []
  | filled (outgoing frames : List WebSocketFrame) :
      Filling operation client (some outgoing) (some (outgoing ++ frames)) frames
  | drained (outgoing : List WebSocketFrame) (asked : operation = .drainOutgoing client) :
      Filling operation client (some outgoing) (some []) []
  | accepted (request : Text) (asked : operation = .acceptUpgrade request) :
      Filling operation client none (some []) []
  | closed (outgoing : List WebSocketFrame) (bytes : Bytes) (answers : Answers)
      (asked : operation = .receive client bytes answers) :
      Filling operation client (some outgoing) none []

variable {operation : Operation}

theorem Filling.same (client : Nat) (queue : Option (List WebSocketFrame)) :
    Filling operation client queue queue [] := by
  cases queue with
  | none => exact .absent
  | some outgoing =>
    have hfilled : Filling operation client (some outgoing) (some (outgoing ++ [])) [] :=
      .filled outgoing []
    rwa [List.append_nil] at hfilled

theorem enqueue_filling (server : CdpServer) {receiver : Nat} {frame : WebSocketFrame}
    {event : Event} (hevent : ∀ client, event.frameFor client =
      if receiver = client then some frame else none) (client : Nat) :
    Filling operation client (server.clients.get client)
      ((server.enqueue receiver frame event).server.clients.get client)
      (frames client (server.enqueue receiver frame event).events) := by
  unfold enqueue
  split
  · exact .same client _
  next outgoing hget =>
    rw [frames_singleton, hevent]
    by_cases heq : receiver = client
    · rw [if_pos heq, ← heq, hget, Table.get_insert_self]
      exact .filled outgoing [frame]
    · rw [if_neg heq, Table.get_insert_of_ne _ (Ne.symm heq)]
      exact .same client _

theorem enqueueResponse_filling (server : CdpServer) {receiver : Nat} {response : JsonRpcResponse}
    {event : WebSocketFrame → Event} (hevent : ∀ client frame, (event frame).frameFor client =
      if receiver = client then some frame else none) (client : Nat) :
    Filling operation client (server.clients.get client)
      ((server.enqueueResponse crates receiver response event).server.clients.get client)
      (frames client (server.enqueueResponse crates receiver response event).events) := by
  unfold enqueueResponse
  split
  · exact .same client _
  · exact enqueue_filling server (fun client => hevent client _) client

theorem answer_filling (server : CdpServer) (receiver : Nat) (response : JsonRpcResponse)
    (client : Nat) :
    Filling operation client (server.clients.get client)
      ((server.answer crates receiver response).server.clients.get client)
      (frames client (server.answer crates receiver response).events) :=
  enqueueResponse_filling server (fun _ _ => rfl) client

theorem handleRequest_filling (server : CdpServer) (answers : Answers) (receiver : Nat) (id : Json)
    (request : JsonRpcRequest) (client : Nat) :
    Filling operation client (server.clients.get client)
      ((server.handleRequest crates answers receiver id request).server.clients.get client)
      (frames client (server.handleRequest crates answers receiver id request).events) := by
  unfold handleRequest
  split
  · unfold handleDeferred
    dsimp only
    split
    · exact .same client _
    · split
      · exact answer_filling { server with
          nextDeferredToken := server.nextDeferredToken + 1 } receiver _ client
      · exact .same client _
      · exact answer_filling { server with
          nextDeferredToken := server.nextDeferredToken + 1 } receiver _ client
  · split <;> exact answer_filling server receiver _ client

/-- The frames that an operation reports are those that it puts into the queues. -/
theorem step_filling (crates : Crates) (h : server.Consistent) (operation : Operation) (client : Nat) :
    Filling operation client (server.clients.get client)
      ((server.step crates operation).clients.get client)
      (frames client (server.emits crates operation)) := by
  cases operation with
  | registerMethod method handler => exact .same client _
  | registerDeferredMethod method handler => exact .same client _
  | acceptUpgrade request =>
    unfold step emits act acceptUpgrade
    dsimp only
    cases parseUpgradeRequest request with
    | error error => exact .same client _
    | ok upgrade =>
      dsimp only
      by_cases hlast : server.nextClientId = 2 ^ 64 - 1
      · rw [if_pos hlast]
        exact .same client _
      · rw [if_neg hlast]
        show Filling _ client _ (Table.get (server.clients.insert server.nextClientId []) client) []
        by_cases heq : client = server.nextClientId
        · have hnone : server.clients.get client = none := by
            cases hget : server.clients.get client with
            | none => rfl
            | some outgoing =>
              have hconnected : server.Connected client := by
                unfold Connected
                rw [hget]
                rfl
              exact absurd (h.clients client hconnected) (heq ▸ Nat.lt_irrefl _)
          rw [hnone, heq, Table.get_insert_self]
          exact .accepted request rfl
        · rw [Table.get_insert_of_ne _ heq]
          exact .same client _
  | receive receiver bytes answers =>
    unfold step emits act receive
    dsimp only
    split
    · exact .same client _
    · split
      · exact .same client _
      · split
        · unfold handleTextFrame
          split
          · exact .same client _
          · split
            · exact .same client _
            · exact handleRequest_filling server answers receiver _ _ client
        · exact enqueue_filling server (fun _ => rfl) client
        · by_cases heq : client = receiver
          · show Filling _ client _ (Table.get (server.clients.remove receiver) client) []
            rw [heq, Table.get_remove_self]
            cases server.clients.get receiver with
            | none => exact .absent
            | some outgoing => exact .closed outgoing bytes answers rfl
          · show Filling _ client _ (Table.get (server.clients.remove receiver) client) []
            rw [Table.get_remove_of_ne _ heq]
            exact .same client _
        · exact .same client _
  | completeDeferredResponse token result =>
    unfold step emits act completeDeferredResponse
    dsimp only
    split
    · exact .same client _
    · exact enqueueResponse_filling { server with
        pendingResponses := server.pendingResponses.remove token } (fun _ _ => rfl) client
  | notify method params =>
    unfold step emits act notify
    dsimp only
    split
    · exact .same client _
    next payload _ =>
      dsimp only
      rw [frames_broadcast h.clientKeys,
        Table.get_map server.clients (fun outgoing => outgoing ++ [WebSocketFrame.text payload])]
      cases server.clients.get client with
      | none => exact .absent
      | some outgoing => exact .filled outgoing [.text payload]
  | drainOutgoing receiver =>
    unfold step emits act drainOutgoing
    dsimp only
    split
    · exact .same client _
    next outgoing hget =>
      show Filling _ client _ (Table.get (server.clients.insert receiver []) client) []
      by_cases heq : client = receiver
      · rw [heq, hget, Table.get_insert_self]
        exact .drained outgoing rfl
      · rw [Table.get_insert_of_ne _ heq]
        exact .same client _

/-! ## Responses -/

/-- What is reported of a request that was received. -/
inductive Received (crates : Crates) (server : CdpServer) (client : Nat) (id : Json) :
    List Event → Prop where
  | answered (response : JsonRpcResponse) (payload : Bytes) (sameId : response.id = id)
      (printed : crates.print response.toJson = some payload) :
      Received crates server client id [.answered client response (.text payload)]
  | deferred : Received crates server client id [.deferred server.nextDeferredToken client id]

/-- A response that was put into a queue is reported. -/
theorem enqueueResponse_reported (crates : Crates) (server : CdpServer) (receiver : Nat)
    (response : JsonRpcResponse) (event : WebSocketFrame → Event) :
    (server.enqueueResponse crates receiver response event).events = [] ∧
        (server.enqueueResponse crates receiver response event).result ≠ .ok () ∨
      ∃ payload, crates.print response.toJson = some payload ∧
        (server.enqueueResponse crates receiver response event).events = [event (.text payload)] := by
  unfold enqueueResponse
  split
  · exact Or.inl ⟨rfl, nofun⟩
  next payload hprint =>
    unfold enqueue
    split
    · exact Or.inl ⟨rfl, nofun⟩
    · exact Or.inr ⟨payload, hprint, rfl⟩

theorem answer_received {server : CdpServer} (before : CdpServer) {client : Nat}
    (response : JsonRpcResponse) (hok : (server.answer crates client response).result = .ok ()) :
    Received crates before client response.id (server.answer crates client response).events := by
  rcases enqueueResponse_reported crates server client response (.answered client response) with
    ⟨-, hfailed⟩ | ⟨payload, hprint, hone⟩
  · exact absurd hok hfailed
  · show Received crates before client response.id
      (server.enqueueResponse crates client response (.answered client response)).events
    rw [hone]
    exact .answered response payload rfl hprint

/-- A request that is received is answered or deferred. -/
theorem receive_received {client : Nat} {bytes : Bytes} {used : Nat} {answers : Answers}
    {frame : WebSocketFrame} {request : JsonRpcRequest} {id : Json}
    (hdecode : WebSocketFrame.decodeClient bytes = .ok (frame, used)) (htext : frame.opcode = .text)
    (hparse : parseJsonRpcRequest crates frame.payload = .ok request) (hid : request.id = some id)
    (hok : (server.receive crates answers client bytes).result = .ok ()) :
    Received crates server client id (server.receive crates answers client bytes).events := by
  revert hok
  unfold receive
  split
  · intro hfail
    cases hfail
  · rw [hdecode]
    dsimp only
    rw [htext]
    dsimp only
    unfold handleTextFrame
    rw [hparse]
    dsimp only
    rw [hid]
    dsimp only
    unfold handleRequest
    split
    · unfold handleDeferred
      dsimp only
      split
      · intro hfail
        cases hfail
      · split
        next value _ =>
          exact answer_received server (.success id value)
        · exact fun _ => .deferred
        next error _ => exact answer_received server (.failure id error)
    · split
      next handler _ =>
        intro hok
        have hreceived := answer_received server _ hok
        rwa [JsonRpcResponse.ofResult_id] at hreceived
      · exact answer_received server (.methodNotFound id request.method)

/-! ## Texts -/

theorem enqueueResponse_printed {server : CdpServer} {receiver : Nat} {response : JsonRpcResponse}
    {event : WebSocketFrame → Event} (hevent : ∀ payload,
      crates.print response.toJson = some payload → (event (.text payload)).Printed crates) :
    ∀ report ∈ (server.enqueueResponse crates receiver response event).events,
      report.Printed crates := by
  intro report hr
  rcases enqueueResponse_reported crates server receiver response event with
    ⟨hnone, -⟩ | ⟨payload, hprint, hone⟩
  · rw [hnone] at hr
    cases hr
  · rw [hone, List.mem_singleton] at hr
    rw [hr]
    exact hevent payload hprint

theorem answer_printed (server : CdpServer) (receiver : Nat) (response : JsonRpcResponse) :
    ∀ report ∈ (server.answer crates receiver response).events, report.Printed crates :=
  enqueueResponse_printed fun payload hprint => ⟨payload, hprint, rfl⟩

/-- The frame of every reported response is its text. -/
theorem emits_printed (server : CdpServer) (operation : Operation) :
    ∀ report ∈ server.emits crates operation, report.Printed crates := by
  cases operation with
  | registerMethod method handler => exact List.forall_mem_nil _
  | registerDeferredMethod method handler => exact List.forall_mem_nil _
  | acceptUpgrade request =>
    unfold emits act acceptUpgrade
    dsimp only
    cases parseUpgradeRequest request with
    | error error => exact List.forall_mem_nil _
    | ok upgrade =>
      dsimp only
      by_cases hlast : server.nextClientId = 2 ^ 64 - 1
      · rw [if_pos hlast]
        exact List.forall_mem_nil _
      · rw [if_neg hlast]
        exact List.forall_mem_nil _
  | receive receiver bytes answers =>
    unfold emits act receive
    dsimp only
    split
    · exact List.forall_mem_nil _
    · split
      · exact List.forall_mem_nil _
      · split
        · unfold handleTextFrame handleRequest handleDeferred
          split
          · exact List.forall_mem_nil _
          · split
            · exact List.forall_mem_nil _
            · split
              · dsimp only
                split
                · exact List.forall_mem_nil _
                · split
                  · exact answer_printed _ receiver _
                  · intro report hr
                    rw [List.mem_singleton.mp hr]
                    exact trivial
                  · exact answer_printed _ receiver _
              · split <;> exact answer_printed server receiver _
        next frame _ _ _ _ =>
          unfold enqueue
          split
          · exact List.forall_mem_nil _
          · intro report hr
            rw [List.mem_singleton.mp hr]
            exact trivial
        · exact List.forall_mem_nil _
        · exact List.forall_mem_nil _
  | completeDeferredResponse token result =>
    unfold emits act completeDeferredResponse
    dsimp only
    split
    · exact List.forall_mem_nil _
    · exact enqueueResponse_printed fun payload hprint => ⟨payload, hprint, rfl⟩
  | notify method params =>
    unfold emits act notify
    dsimp only
    split
    · exact List.forall_mem_nil _
    · intro report hr
      obtain ⟨entry, -, rfl⟩ := List.mem_map.mp hr
      exact trivial
  | drainOutgoing receiver =>
    unfold emits act drainOutgoing
    dsimp only
    split <;> exact List.forall_mem_nil _

end CdpServer

end Omoikane.Cdp
