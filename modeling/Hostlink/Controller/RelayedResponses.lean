import Hostlink.Controller.StaleHolder

/-! A unary request as a REST handler serves it: from the agent's Control stream on its own replica,
or relayed to the replica that holds it. Which of the two a client gets is up to the balancer. -/

namespace Hostlink.Controller

variable {π : Type}

/-- What `service.dispatch` reads. `peers` are the registries behind the peer addresses, absent
where the peer plane is off; with `gaveUp` an expired call ends on the client before the server's
status comes. -/
structure Replica (π : Type) where
  registry : Held π
  peers : Option (String → Held π)
  locate : String → Except GoError String
  selfAddr : String
  gaveUp : Bool

def HeldConn.expires (held : HeldConn π) (req : DispatchRequest) : Bool :=
  held.setupErr.isNone && held.agent req.method req.payload = .silent

def deadlineStatus : Grpc.Status := ⟨.deadlineExceeded, "context deadline exceeded"⟩

def respondDispatched : Except GoError AgentResult → HttpResponse
  | .ok result => respondAgentResult result
  | .error err => mapDispatchError err

namespace Replica

def relay (r : Replica π) (registry : Held π) (req : DispatchRequest) :
    Except GoError AgentResult :=
  if r.gaveUp && (registry req.agentId).any (·.expires req) then
    PeerClients.dispatch (.error deadlineStatus)
  else relayDispatch registry req

def dispatch (r : Replica π) (req : DispatchRequest) : Except GoError AgentResult :=
  match r.registry req.agentId with
  | some held => held.dispatch req.method req.payload
  | none =>
    match r.peers with
    | none => .error errAgentNotConnected
    | some peers =>
      match r.locate req.agentId with
      | .error err => .error err
      | .ok addr =>
        if addr = "" ∨ addr = r.selfAddr then .error errAgentNotConnected
        else r.relay (peers addr) req

def respond (r : Replica π) (req : DispatchRequest) : HttpResponse :=
  respondDispatched (r.dispatch req)

structure RelaysTo (r : Replica π) (agentId : String) (held : HeldConn π) : Prop where
  unheld : r.registry agentId = none
  located : ∃ peers addr, r.peers = some peers ∧ r.locate agentId = .ok addr ∧
    addr ≠ "" ∧ addr ≠ r.selfAddr ∧ peers addr agentId = some held

end Replica

/-! ### Errors on the two ways -/

theorem mapDispatchError_disconnected :
    mapDispatchError errAgentDisconnected = ⟨502, .error "agent request failed"⟩ := by decide

theorem mapDispatchError_deadline :
    mapDispatchError errDeadlineExceeded = ⟨504, .error "agent did not respond in time"⟩ := by
  decide

theorem mapDispatchError_normalize (st : Grpc.Status) :
    mapDispatchError (PeerClients.normalize st) =
      if st.code = .failedPrecondition then ⟨404, .error "agent not connected"⟩
      else ⟨502, .error "agent request failed"⟩ := by
  unfold mapDispatchError
  rw [normalize_is]
  by_cases hcode : st.code = .failedPrecondition
  · rw [if_pos (decide_eq_true hcode), if_pos hcode]
  · have hdeadline : (PeerClients.normalize st).is errDeadlineExceeded = false := by
      rw [PeerClients.normalize, if_neg hcode]
      exact st.err_is_new (by decide)
    simp only [hcode, hdeadline, decide_false, Bool.false_eq_true, if_false]

theorem mapDispatchError_send {held : HeldConn π} {err : GoError} (h : held.send = some err) :
    mapDispatchError err = ⟨502, .error "agent request failed"⟩ := by
  obtain ⟨fault, -, rfl⟩ := Option.map_eq_some_iff.mp h
  have hsend (text : String) (htext : text.toList.head? ≠ some 'r') (heof : text ≠ "EOF") :
      (sendErr held.conn.agentId fault.err).is (.new text) = false :=
    Bool.or_eq_false_iff.mpr
      ⟨decide_eq_false (fun he => by cases he), fault.err_is_new htext heof⟩
  unfold mapDispatchError errAgentNotConnected errDeadlineExceeded
  rw [hsend _ (by decide) (by decide), hsend _ (by decide) (by decide)]
  rfl

theorem mapDispatchError_failed (agentId : String) (err : GoError) :
    mapDispatchError (PeerClients.normalize (PeerServer.failed "dispatch" agentId err)) =
      if err.is errAgentDisconnected then ⟨404, .error "agent not connected"⟩
      else ⟨502, .error "agent request failed"⟩ := by
  rw [mapDispatchError_normalize]
  simp only [failed_code]

/-! ### The two responses -/

section
variable {held : HeldConn π} {req : DispatchRequest} {err : GoError}

theorem HeldConn.setupErr_eq_none :
    held.setupErr = none ↔ held.conn.closed = false ∧ held.fault = none := by
  unfold setupErr send
  by_cases hclosed : held.conn.closed = true
  · simp only [hclosed, if_true, reduceCtorEq, false_and]
  · simp only [eq_false_of_ne_true hclosed, Bool.false_eq_true, if_false, Option.map_eq_none_iff,
      true_and]

theorem Replica.respond_held {r : Replica π} (h : r.registry req.agentId = some held) :
    r.respond req = respondDispatched (held.dispatch req.method req.payload) := by
  rw [respond, dispatch, h]

theorem Replica.RelaysTo.respond {r : Replica π} (h : r.RelaysTo req.agentId held) :
    r.respond req = respondDispatched (if r.gaveUp && held.expires req then
      .error (PeerClients.normalize deadlineStatus)
    else (held.dispatch req.method req.payload).mapError
      fun err => PeerClients.normalize (PeerServer.failed "dispatch" req.agentId err)) := by
  obtain ⟨peers, addr, hpeers, hlocate, hempty, hself, hheld⟩ := h.located
  have hdispatch : r.dispatch req = r.relay (peers addr) req := by
    simp only [Replica.dispatch, h.unheld, hpeers, hlocate, hempty, hself, or_self, if_false]
  have hrelay : relayDispatch (peers addr) req = (held.dispatch req.method req.payload).mapError
      fun err => PeerClients.normalize (PeerServer.failed "dispatch" req.agentId err) := by
    simp only [relayDispatch, PeerServer.dispatch, hheld, PeerClients.dispatch]
    cases held.dispatch req.method req.payload <;> rfl
  rw [Replica.respond, hdispatch, relay, hrelay, hheld, Option.any_some]
  rfl

theorem responds_alike_of_setupErr {r : Replica π} (h : r.RelaysTo req.agentId held)
    (herr : held.setupErr = some err) :
    respondDispatched (held.dispatch req.method req.payload) = r.respond req ↔
      held.conn.closed = false := by
  have hdispatch : held.dispatch req.method req.payload = .error err := by
    rw [HeldConn.dispatch, herr]
  have hexpires : held.expires req = false := by
    rw [HeldConn.expires, herr]
    rfl
  rw [h.respond, hexpires, Bool.and_false, if_neg Bool.false_ne_true, hdispatch]
  show mapDispatchError err = mapDispatchError _ ↔ _
  rw [mapDispatchError_failed, setupErr_is_disconnected herr]
  by_cases hclosed : held.conn.closed = true
  · have : err = errAgentDisconnected := by
      rw [HeldConn.setupErr, if_pos hclosed] at herr
      exact (Option.some.inj herr).symm
    rw [this, hclosed, mapDispatchError_disconnected]
    decide
  · rw [HeldConn.setupErr, if_neg hclosed] at herr
    rw [eq_false_of_ne_true hclosed, mapDispatchError_send herr]
    exact iff_of_true rfl rfl

theorem responds_alike_of_sent {r : Replica π} (h : r.RelaysTo req.agentId held)
    (hsent : held.setupErr = none) :
    respondDispatched (held.dispatch req.method req.payload) = r.respond req ↔
      ∃ result, held.agent req.method req.payload = .answers result := by
  have hdispatch : held.dispatch req.method req.payload =
      (held.agent req.method req.payload).waited := by
    rw [HeldConn.dispatch, hsent]
  rw [h.respond, hdispatch, HeldConn.expires, hsent]
  cases hagent : held.agent req.method req.payload with
  | answers result =>
    refine iff_of_true ?_ ⟨result, rfl⟩
    simp only [reduceCtorEq, decide_false, Bool.and_false, Bool.false_eq_true, if_false]
    rfl
  | disconnects =>
    refine iff_of_false ?_ (fun h => by cases h.choose_spec)
    simp only [reduceCtorEq, decide_false, Bool.and_false, Bool.false_eq_true, if_false]
    show mapDispatchError errAgentDisconnected ≠ mapDispatchError _
    rw [mapDispatchError_failed, mapDispatchError_disconnected]
    decide
  | silent =>
    refine iff_of_false ?_ (fun h => by cases h.choose_spec)
    have hlocal : respondDispatched AgentBehaviour.silent.waited =
        ⟨504, .error "agent did not respond in time"⟩ := mapDispatchError_deadline
    rw [hlocal]
    split
    · show _ ≠ mapDispatchError _
      rw [mapDispatchError_normalize]
      decide
    · show _ ≠ mapDispatchError _
      rw [mapDispatchError_failed]
      decide

end

namespace Replica

theorem respond_alike_iff {here there : Replica π} {req : DispatchRequest} {held : HeldConn π}
    (hheld : here.registry req.agentId = some held) (hrelays : there.RelaysTo req.agentId held) :
    here.respond req = there.respond req ↔
      held.conn.closed = false ∧ (held.fault.isSome = true ∨
        ∃ result, held.agent req.method req.payload = .answers result) := by
  rw [respond_held hheld]
  cases hsetup : held.setupErr with
  | none =>
    obtain ⟨hopen, hfault⟩ := HeldConn.setupErr_eq_none.mp hsetup
    rw [responds_alike_of_sent hrelays hsetup, hopen, hfault]
    simp only [Option.isSome_none, Bool.false_eq_true, false_or, true_and]
  | some err =>
    rw [responds_alike_of_setupErr hrelays hsetup]
    refine ⟨fun hopen => ⟨hopen, .inl ?_⟩, And.left⟩
    rw [Option.isSome_iff_ne_none]
    intro hfault
    rw [HeldConn.setupErr_eq_none.mpr ⟨hopen, hfault⟩] at hsetup
    cases hsetup

def agentOf (behaviour : AgentBehaviour) : HeldConn Unit where
  conn := newAgentConn "web-1"
  agent := fun _ _ => behaviour

def holder (behaviour : AgentBehaviour) : Replica Unit where
  registry := fun _ => some (agentOf behaviour)
  peers := none
  locate := fun _ => .ok "10.0.0.1:7000"
  selfAddr := "10.0.0.1:7000"
  gaveUp := false

def sibling (behaviour : AgentBehaviour) (gaveUp : Bool) : Replica Unit where
  registry := fun _ => none
  peers := some fun _ => (holder behaviour).registry
  locate := fun _ => .ok "10.0.0.1:7000"
  selfAddr := "10.0.0.2:7000"
  gaveUp := gaveUp

theorem sibling_relaysTo (behaviour : AgentBehaviour) (gaveUp : Bool) (agentId : String) :
    (sibling behaviour gaveUp).RelaysTo agentId (agentOf behaviour) where
  unheld := rfl
  located := ⟨_, _, rfl, rfl, by decide, show "10.0.0.1:7000" ≠ "10.0.0.2:7000" by decide, rfl⟩

theorem respond_alike_iff_answered :
    (holder (.answers { code := 200, payload := [91, 93] })).respond ⟨"web-1", "images.list", []⟩ =
      (sibling (.answers { code := 200, payload := [91, 93] }) false).respond
        ⟨"web-1", "images.list", []⟩ :=
  (respond_alike_iff rfl (sibling_relaysTo _ false _)).mpr ⟨rfl, .inr ⟨_, rfl⟩⟩

/-- An agent that disconnects before its answer is a failed request on its own replica and not
connected on another; a deadline that passes is a timeout on the one and a failed request on the
other. -/
theorem respond_not_alike :
    (holder .disconnects).respond ⟨"web-1", "images.list", []⟩ =
        ⟨502, .error "agent request failed"⟩ ∧
    (sibling .disconnects false).respond ⟨"web-1", "images.list", []⟩ =
        ⟨404, .error "agent not connected"⟩ ∧
    (holder .silent).respond ⟨"web-1", "images.list", []⟩ =
        ⟨504, .error "agent did not respond in time"⟩ ∧
    (sibling .silent true).respond ⟨"web-1", "images.list", []⟩ =
        ⟨502, .error "agent request failed"⟩ := by
  decide +kernel

end Replica

end Hostlink.Controller
