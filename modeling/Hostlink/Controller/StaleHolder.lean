import Hostlink.Controller.PeerRelay

/-! A request relayed to a controller that has lost the agent: `errAgentNotConnected` tells the
caller to resolve the holder again or to answer 404. -/

namespace Hostlink.Controller
open Agent (Bytes)
open PeerServer (notHeld refusal PairOutcome)

variable {π : Type} {registry : Held π} {holder what : String} {st : Grpc.Status}

def gone (registry : Held π) (agentId : String) : Bool :=
  (registry agentId).all (·.conn.closed)

def stale (registry : Held π) (agentId : String) : Bool :=
  (registry agentId).all fun held => held.conn.closed || held.fault.isSome

/-- A body whose `Read` fails with an error of its own. -/
structure RequestBody extends BodyReader where
  foreign : err.is errAgentNotConnected = false

inductive RelayedCall where
  | dispatch (req : DispatchRequest)
  | dispatchStream (req : DispatchRequest)
  | upload (req : DispatchRequest) (body : RequestBody) (arrival : Nat)
      (served : Except Grpc.Status AgentResult)
  | forward (sessionId agentId target : String) (outcome : PairOutcome)

def isNotConnected {α : Type} : Except GoError α → Bool
  | .ok _ => false
  | .error err => err.is errAgentNotConnected

namespace RelayedCall

def agentId : RelayedCall → String
  | .dispatch req | .dispatchStream req | .upload req _ _ _ => req.agentId
  | .forward _ agentId _ _ => agentId

def notConnected (registry : Held π) : RelayedCall → Bool
  | .dispatch req => isNotConnected (relayDispatch registry req)
  | .dispatchStream req => isNotConnected (relayDispatchStream registry req)
  | .upload req body arrival served =>
    isNotConnected (relayUpload registry req body.toBodyReader arrival served)
  | .forward sessionId agentId target outcome =>
    isNotConnected (relayForward registry sessionId agentId target outcome)

/-- The holder refuses the call as stale, and where the caller looks for it. An opening frame that is
not valid is refused before the holder looks for the agent. -/
def Noticed (registry : Held π) : RelayedCall → Prop
  | .dispatch req => gone registry req.agentId = true
  | .dispatchStream _ => False
  | .upload req body arrival _ =>
    gone registry req.agentId = true ∧ body.err.is .eof = true ∧ body.sends ≤ arrival
  | .forward sessionId agentId target _ =>
    registry agentId = none ∧ sessionId ≠ "" ∧ agentId ≠ "" ∧ target ≠ ""

end RelayedCall

/-! ### What a refusal says -/

theorem normalize_is (st : Grpc.Status) :
    (PeerClients.normalize st).is errAgentNotConnected = decide (st.code = .failedPrecondition) := by
  unfold PeerClients.normalize
  split
  · next h => rw [decide_eq_true h]; rfl
  · next h =>
    rw [decide_eq_false h]
    exact st.err_is_new (by decide)

theorem failed_code (err : GoError) :
    (PeerServer.failed what holder err).code = .failedPrecondition ↔
      err.is errAgentDisconnected = true := by
  unfold PeerServer.failed
  split <;> simp_all

theorem send_is_disconnected (held : HeldConn π) {err : GoError} (h : held.send = some err) :
    err.is errAgentDisconnected = false := by
  obtain ⟨fault, -, rfl⟩ := Option.map_eq_some_iff.mp h
  have hnew : fault.err.is (.new "agent disconnected before result") = false :=
    fault.err_is_new (by decide) (by decide)
  exact Bool.or_eq_false_iff.mpr ⟨decide_eq_false (fun he => by cases he), hnew⟩

theorem setupErr_is_disconnected {held : HeldConn π} {err : GoError}
    (h : held.setupErr = some err) : err.is errAgentDisconnected = held.conn.closed := by
  unfold HeldConn.setupErr at h
  split at h
  · next hclosed =>
    rw [hclosed, ← Option.some.inj h]
    decide
  · next hclosed =>
    rw [send_is_disconnected held h, eq_false_of_ne_true hclosed]

theorem refusal_of_stale (what : String) (h : stale registry holder = true) :
    ∃ st, refusal what registry holder = some st := by
  unfold stale at h
  unfold refusal
  cases hheld : registry holder with
  | none => exact ⟨_, rfl⟩
  | some held =>
    rw [hheld, Option.all_some] at h
    refine Option.isSome_iff_exists.mp ?_
    show (held.setupErr.map _).isSome = true
    rw [Option.isSome_map, HeldConn.setupErr]
    by_cases hclosed : held.conn.closed = true
    · rw [if_pos hclosed]
      rfl
    · rw [if_neg hclosed, HeldConn.send, Option.isSome_map]
      simpa only [eq_false_of_ne_true hclosed, Bool.false_or] using h

theorem refusal_code (h : refusal what registry holder = some st) :
    st.code = .failedPrecondition ↔ gone registry holder = true := by
  unfold refusal at h
  unfold gone
  split at h
  · next hheld =>
    rw [← Option.some.inj h, hheld]
    exact iff_of_true rfl rfl
  · next held hheld =>
    obtain ⟨err, herr, rfl⟩ := Option.map_eq_some_iff.mp h
    rw [failed_code, setupErr_is_disconnected herr, hheld, Option.all_some]

theorem isNotConnected_refusal {α : Type} (h : refusal what registry holder = some st) :
    isNotConnected (.error (PeerClients.normalize st) : Except GoError α) = true ↔
      gone registry holder = true := by
  rw [← refusal_code h, isNotConnected, normalize_is, decide_eq_true_iff]

/-! ### Each call -/

theorem dispatch_of_refusal {req : DispatchRequest}
    (h : refusal "dispatch" registry req.agentId = some st) :
    PeerServer.dispatch registry req = .error st := by
  unfold refusal at h
  unfold PeerServer.dispatch
  split at h
  · exact congrArg Except.error (Option.some.inj h)
  · next held hheld =>
    obtain ⟨err, herr, rfl⟩ := Option.map_eq_some_iff.mp h
    simp only [HeldConn.dispatch, herr]
    rfl

theorem dispatch_notConnected_iff {req : DispatchRequest}
    (h : stale registry req.agentId = true) :
    isNotConnected (relayDispatch registry req) = true ↔ gone registry req.agentId = true := by
  obtain ⟨st, hst⟩ := refusal_of_stale "dispatch" h
  rw [relayDispatch, dispatch_of_refusal hst]
  exact isNotConnected_refusal hst

/-- The call itself never fails: a refusal is met by the goroutine that receives the frames. -/
theorem dispatchStream_not_notConnected (registry : Held π) (req : DispatchRequest) :
    isNotConnected (relayDispatchStream registry req) = false := rfl

theorem sendPiece_sendUntil {arrival n : Nat} (hn : n ≤ arrival) (data : Bytes) :
    sendPiece (Grpc.sendUntil arrival) n data =
      if n + pieceSends data ≤ arrival then .ok (n + pieceSends data) else .error .eof := by
  unfold sendPiece pieceSends
  by_cases hdata : data = []
  · simp only [hdata, if_true, Nat.add_zero, hn]
  · rw [if_neg hdata, if_neg hdata, Grpc.sendUntil]
    by_cases hlt : n < arrival
    · rw [if_pos hlt, if_pos (Nat.succ_le_of_lt hlt)]
    · rw [if_neg hlt, if_neg (fun h => hlt (Nat.lt_of_succ_le h))]

theorem streamUploadBody_sendUntil {arrival n : Nat} (hn : n ≤ arrival) (tail : Bytes)
    (err : GoError) (pieces : List Bytes) :
    streamUploadBody (Grpc.sendUntil arrival) tail err n pieces =
      if n + dataSends tail pieces ≤ arrival then
        if err.is .eof then Grpc.sendUntil arrival (n + dataSends tail pieces) else some err
      else some .eof := by
  induction pieces generalizing n with
  | nil =>
    rw [streamUploadBody, sendPiece_sendUntil hn, dataSends]
    by_cases hsent : n + pieceSends tail ≤ arrival
    · rw [if_pos hsent, if_pos hsent]
    · rw [if_neg hsent, if_neg hsent]
  | cons piece pieces ih =>
    rw [streamUploadBody, sendPiece_sendUntil hn, dataSends]
    by_cases hsent : n + pieceSends piece ≤ arrival
    · rw [if_pos hsent, ← Nat.add_assoc]
      exact ih hsent
    · rw [if_neg hsent, if_neg (by omega)]

theorem upload_notConnected_iff {req : DispatchRequest} (body : RequestBody) (arrival : Nat)
    (served : Except Grpc.Status AgentResult) (h : stale registry req.agentId = true) :
    isNotConnected (relayUpload registry req body.toBodyReader arrival served) = true ↔
      gone registry req.agentId = true ∧ body.err.is .eof = true ∧ body.sends ≤ arrival := by
  obtain ⟨st, hst⟩ := refusal_of_stale "upload" h
  have heofErr : isNotConnected (.error .eof : Except GoError AgentResult) = false := by decide
  simp only [relayUpload, PeerServer.upload, hst, PeerClients.upload,
    streamUploadBody_sendUntil (Nat.zero_le arrival), Nat.zero_add, BodyReader.sends]
  by_cases hdata : dataSends body.tail body.pieces ≤ arrival
  · rw [if_pos hdata]
    by_cases heof : body.err.is .eof = true
    · rw [if_pos heof]
      by_cases hlast : dataSends body.tail body.pieces < arrival
      · rw [Grpc.sendUntil, if_pos hlast, and_iff_left ⟨heof, hlast⟩]
        exact isNotConnected_refusal hst
      · rw [Grpc.sendUntil, if_neg hlast]
        simp only [heofErr, Bool.false_eq_true, false_iff]
        exact fun h => hlast h.2.2
    · rw [if_neg heof]
      rw [isNotConnected, body.foreign]
      exact ⟨fun h => (by cases h), fun h => absurd h.2.1 heof⟩
  · rw [if_neg hdata]
    simp only [heofErr, Bool.false_eq_true, false_iff]
    exact fun h => hdata (Nat.le_of_succ_le h.2.2)

theorem isNotConnected_forward (st : Grpc.Status) :
    isNotConnected (PeerClients.forward none none (.error st)) =
      decide (st.code = .failedPrecondition) :=
  normalize_is st

theorem isNotConnected_paired (outcome : PairOutcome) :
    isNotConnected (PeerClients.forward none none (PeerServer.paired outcome)) = false := by
  unfold PeerServer.paired
  split
  · decide
  · decide
  · exact isNotConnected_forward _
  · exact isNotConnected_forward _
  · exact isNotConnected_forward _

/-- Only an agent that is not there at all is told from one that failed: `Forward` sends without a
look at `closed`, and what `send` returns is never `errAgentDisconnected`. -/
theorem pair_notConnected_iff (outcome : PairOutcome) :
    isNotConnected (PeerClients.forward none none (PeerServer.pair registry holder outcome)) = true ↔
      registry holder = none := by
  unfold PeerServer.pair
  cases hheld : registry holder with
  | none => exact iff_of_true (isNotConnected_forward _) rfl
  | some held =>
    refine iff_of_false (fun h => Bool.false_ne_true (Eq.trans (Eq.symm ?_) h))
      (fun h => by cases h)
    cases hsend : held.send with
    | none =>
      simp only [hsend]
      exact isNotConnected_paired outcome
    | some err =>
      simp only [hsend, send_is_disconnected held hsend]
      exact isNotConnected_forward _

theorem validOpen_openFrame (sessionId agentId target : String) :
    validOpen (openFrame sessionId agentId target) = true ↔
      sessionId ≠ "" ∧ agentId ≠ "" ∧ target ≠ "" := by
  simp [validOpen, openFrame, openAgentId, openTarget, and_assoc]

theorem forward_notConnected_iff (sessionId target : String) (outcome : PairOutcome) :
    isNotConnected (relayForward registry sessionId holder target outcome) = true ↔
      registry holder = none ∧ sessionId ≠ "" ∧ holder ≠ "" ∧ target ≠ "" := by
  rw [← validOpen_openFrame, ← PeerServer.receiveAndValidateOpenFrame_eq_none, relayForward,
    PeerServer.forward]
  cases hopen : PeerServer.receiveAndValidateOpenFrame (openFrame sessionId holder target) with
  | none => exact (pair_notConnected_iff outcome).trans (and_iff_left rfl).symm
  | some st =>
    refine iff_of_false ?_ fun h => by cases h.2
    rw [isNotConnected_forward, PeerServer.invalidArgument_of_refused hopen]
    decide

/-! ### All of them -/

namespace RelayedCall

theorem notConnected_iff_of_stale (registry : Held π) (call : RelayedCall)
    (hstale : stale registry call.agentId = true) :
    call.notConnected registry = true ↔ call.Noticed registry := by
  cases call with
  | dispatch req => exact dispatch_notConnected_iff hstale
  | dispatchStream req =>
    rw [notConnected, dispatchStream_not_notConnected]
    exact iff_of_false Bool.false_ne_true id
  | upload req body arrival served => exact upload_notConnected_iff body arrival served hstale
  | forward sessionId agentId target outcome =>
    exact forward_notConnected_iff sessionId target outcome

def noAgents : Held Unit := fun _ => none

theorem notConnected_iff_of_stale_unheld :
    (RelayedCall.dispatch ⟨"web-1", "images.list", []⟩).notConnected noAgents = true :=
  (notConnected_iff_of_stale noAgents (.dispatch ⟨"web-1", "images.list", []⟩) rfl).mpr rfl

def brokenStream : Held Unit := fun agentId =>
  some { conn := newAgentConn agentId, fault := some .eof, agent := fun _ _ => .silent }

def twoPieces : RequestBody := ⟨⟨[[1], [2]], [], .eof⟩, rfl⟩

/-- A stream relayed to a replica without the agent is opened all the same; an upload whose second
chunk meets the refusal fails with `io.EOF`; and a stream that broke down is an internal error. -/
theorem stale_not_noticed :
    stale noAgents "web-1" = true ∧ stale brokenStream "web-1" = true ∧
    (RelayedCall.dispatchStream ⟨"web-1", "containers.logs", []⟩).notConnected noAgents = false ∧
    relayUpload noAgents ⟨"web-1", "fs.write", []⟩ twoPieces.toBodyReader 1 (.ok {}) =
      .error .eof ∧
    relayDispatch brokenStream ⟨"web-1", "images.list", []⟩ = .error
      (.new "rpc error: code = Internal desc = dispatch to agent \"web-1\" failed") := by
  decide +kernel

end RelayedCall

end Hostlink.Controller
