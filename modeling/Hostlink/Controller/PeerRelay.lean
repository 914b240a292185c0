import Hostlink.Lib.Grpc
import Hostlink.Controller.Forwarding
import Hostlink.Controller.Responses
import Hostlink.Controller.Streaming
import Hostlink.Controller.UploadBody

/-! The ControllerPeer plane: `peerServer` on the replica that holds an agent and `peerClients` on
the one that relays to it. A call that was set up and not refused goes on as the models of streams,
uploads and forwarding say; here is what a refusal becomes on its way to the caller. -/

namespace Hostlink.Controller
open Agent (Bytes)
open Tunnel (FrameType)

variable {π : Type}

inductive AgentBehaviour where
  | answers (result : AgentResult)
  | disconnects
  | silent
  deriving DecidableEq, Repr

def AgentBehaviour.waited : AgentBehaviour → Except GoError AgentResult
  | .answers result => .ok result
  | .disconnects => .error errAgentDisconnected
  | .silent => .error errDeadlineExceeded

/-- An entry of the registry: `fault` is what the stream's next `Send` fails with, `agent` how the
agent behind it behaves. -/
structure HeldConn (π : Type) where
  conn : AgentConn π
  fault : Option Grpc.SendFault := none
  agent : String → Bytes → AgentBehaviour

/-- `registry.get`. -/
abbrev Held (π : Type) := String → Option (HeldConn π)

structure DispatchRequest where
  agentId : String
  method : String
  payload : Bytes
  deriving DecidableEq, Repr

namespace AgentConn
variable {c : AgentConn π} {d : Nat} {call : Call π}

theorem calls_register (h : c.calls[d]? = some call) :
    (c.register d call).calls[d]? = some (if c.closed then
      { call with pc := .returned, err := some errAgentDisconnected }
    else { call with pc := .send }) := by
  unfold register
  split
  · exact getElem?_setCall h
  · rw [apply_ite calls, ite_self]
    exact getElem?_setCall h

theorem agentId_register : (c.register d call).agentId = c.agentId := by
  unfold register
  split
  · rfl
  · rw [apply_ite agentId, ite_self]
    rfl

end AgentConn

namespace HeldConn

/-- `agentConn.send`. -/
def send (held : HeldConn π) : Option GoError :=
  held.fault.map fun fault => sendErr held.conn.agentId fault.err

/-- With what `dispatch`, `dispatchStream` and `dispatchUpload` fail before they wait. -/
def setupErr (held : HeldConn π) : Option GoError :=
  if held.conn.closed then some errAgentDisconnected else held.send

def dispatch (held : HeldConn π) (method : String) (payload : Bytes) :
    Except GoError AgentResult :=
  match held.setupErr with
  | some err => .error err
  | none => (held.agent method payload).waited

def setupLabels (held : HeldConn π) (kind : CallKind) : List (ConnLabel π) :=
  let d := held.conn.calls.length
  [.start kind, .call d .register] ++
    if held.conn.closed then [] else [.call d (.send (held.fault.map (·.err)))]

theorem setupErr_eq (held : HeldConn π) (kind : CallKind) :
    ∃ c, Lts.exec (fun c l => (AgentConn.step c l).map Prod.fst) held.conn
        (held.setupLabels kind) = some c ∧
      (c.calls[held.conn.calls.length]?).bind (·.err) = held.setupErr := by
  let call : Call π := { kind := kind, id := held.conn.nextSeq }
  obtain ⟨c, hstart, hcall, hclosed, hagentId⟩ : ∃ c : AgentConn π,
      held.conn.step (.start kind) = some (c, none) ∧
      c.calls[held.conn.calls.length]? = some call ∧
      c.closed = held.conn.closed ∧ c.agentId = held.conn.agentId :=
    ⟨_, rfl, List.getElem?_concat_length, rfl, rfl⟩
  have hregister : c.step (.call held.conn.calls.length .register) =
      some (c.register held.conn.calls.length call, none) := by
    rw [AgentConn.step, hcall]
    rfl
  have hnext := AgentConn.calls_register hcall
  rw [hclosed] at hnext
  unfold setupLabels setupErr send
  split
  · next hclosed =>
    rw [if_pos hclosed] at hnext
    refine ⟨_, by rw [List.append_nil, Lts.exec, hstart, Option.map_some, Option.bind_some, Lts.exec,
      hregister]; rfl, ?_⟩
    rw [hnext]
    rfl
  · next hopen =>
    rw [if_neg hopen] at hnext
    refine ⟨_, by
      rw [List.cons_append, Lts.exec, hstart, Option.map_some, Option.bind_some, List.cons_append,
        Lts.exec, hregister, Option.map_some, Option.bind_some, List.nil_append, Lts.exec,
        AgentConn.step, hnext]
      rfl, ?_⟩
    rw [AgentConn.getElem?_setCall hnext, AgentConn.agentId_register, hagentId]
    cases held.fault <;> rfl

end HeldConn

/-! ### The serving side -/

namespace PeerServer

def notHeld (agentId : String) : Grpc.Status :=
  ⟨.failedPrecondition, "agent \"" ++ agentId ++ "\" not held by this controller"⟩

def failed (what agentId : String) (err : GoError) : Grpc.Status :=
  if err.is errAgentDisconnected then
    ⟨.failedPrecondition, "agent \"" ++ agentId ++ "\" disconnected during " ++ what⟩
  else ⟨.internal, what ++ " to agent \"" ++ agentId ++ "\" failed"⟩

def dispatch (registry : Held π) (req : DispatchRequest) : Except Grpc.Status AgentResult :=
  match registry req.agentId with
  | none => .error (notHeld req.agentId)
  | some held => (held.dispatch req.method req.payload).mapError (failed "dispatch" req.agentId)

def refusal (what : String) (registry : Held π) (agentId : String) : Option Grpc.Status :=
  match registry agentId with
  | none => some (notHeld agentId)
  | some held => held.setupErr.map (failed what agentId)

def dispatchStream (registry : Held π) (req : DispatchRequest) : Option Grpc.Status :=
  refusal "dispatch" registry req.agentId

/-- The opening frame carries `req`. -/
def upload (registry : Held π) (req : DispatchRequest) : Option Grpc.Status :=
  refusal "upload" registry req.agentId

inductive PairOutcome where
  | session (first : FrameType)
  | timeout
  | ctxDone (deadline : Bool)
  deriving DecidableEq, Repr

/-- What the caller receives first: a frame or the status. A context's error is turned into a status
by gRPC. -/
def paired : PairOutcome → Except Grpc.Status FrameType
  | .session .reset => .ok .reset
  | .session _ => .ok .ready
  | .timeout => .error ⟨.deadlineExceeded, "timed out waiting for agent forward stream"⟩
  | .ctxDone true => .error ⟨.deadlineExceeded, errDeadlineExceeded.text⟩
  | .ctxDone false => .error ⟨.canceled, "context canceled"⟩

/-- The checks of an opening frame that was received. -/
def receiveAndValidateOpenFrame (first : Tunnel.Frame) : Option Grpc.Status :=
  if first.type ≠ .open then
    some ⟨.invalidArgument, "first forward frame must be OPEN, got " ++ first.type.name⟩
  else if first.sessionId = "" then
    some ⟨.invalidArgument, "opening forward frame is missing session ID"⟩
  else if openAgentId first = "" ∨ openTarget first = "" then
    some ⟨.invalidArgument, "opening forward frame is missing agent ID or target"⟩
  else none

/-- The command is sent without asking whether the connection is closed. -/
def pair (registry : Held π) (agentId : String) (outcome : PairOutcome) :
    Except Grpc.Status FrameType :=
  match registry agentId with
  | none => .error (notHeld agentId)
  | some held =>
    match held.send with
    | none => paired outcome
    | some err =>
      if err.is errAgentDisconnected then
        .error ⟨.failedPrecondition,
          "agent \"" ++ agentId ++ "\" disconnected during forward setup"⟩
      else .error ⟨.internal, "open forward on agent \"" ++ agentId ++ "\": " ++ err.text⟩

def forward (registry : Held π) (first : Tunnel.Frame) (outcome : PairOutcome) :
    Except Grpc.Status FrameType :=
  match receiveAndValidateOpenFrame first with
  | some st => .error st
  | none => pair registry (openAgentId first) outcome

/-- The same checks as in the handler's own steps. -/
theorem receiveAndValidateOpenFrame_eq_none {first : Tunnel.Frame} :
    receiveAndValidateOpenFrame first = none ↔ validOpen first = true := by
  unfold receiveAndValidateOpenFrame validOpen
  split_ifs with htype hsession hopen
  · simp [htype]
  · simp [hsession]
  · rcases hopen with hopen | hopen <;> simp [hopen]
  · simp [not_not.mp htype, hsession, not_or.mp hopen]

theorem invalidArgument_of_refused {first : Tunnel.Frame} {st : Grpc.Status}
    (h : receiveAndValidateOpenFrame first = some st) : st.code = .invalidArgument := by
  unfold receiveAndValidateOpenFrame at h
  split_ifs at h <;> exact congrArg Grpc.Status.code (Option.some.inj h).symm

end PeerServer

/-! ### The relaying side -/

def errForwardReset : GoError := .new "controller: forward reset by remote"

namespace PeerClients

def normalize (st : Grpc.Status) : GoError :=
  if st.code = .failedPrecondition then errAgentNotConnected else st.err

def dispatch (reply : Except Grpc.Status AgentResult) : Except GoError AgentResult :=
  reply.mapError normalize

/-- The goroutine that receives the frames is `StreamRelay.stepClient`. -/
def dispatchStream (opened : Option Grpc.Status) : Except GoError (StreamRelay AgentResult) :=
  match opened with
  | some st => .error (normalize st)
  | none => .ok {}

def upload (opened : Option Grpc.Status) (sendOpen : Option GoError)
    (send : Nat → Option GoError) (body : BodyReader)
    (closeAndRecv : Except Grpc.Status AgentResult) : Except GoError AgentResult :=
  match opened, sendOpen with
  | some st, _ => .error st.err
  | none, some err => .error err
  | none, none =>
    match streamUploadBody send body.tail body.err 0 body.pieces with
    | some err => .error err
    | none => closeAndRecv.mapError normalize

def forward (opened sendOpen : Option Grpc.Status) (recv : Except Grpc.Status FrameType) :
    Except GoError Unit :=
  match opened, sendOpen, recv with
  | some st, _, _ | none, some st, _ | none, none, .error st => .error (normalize st)
  | none, none, .ok .ready => .ok ()
  | none, none, .ok .reset => .error errForwardReset
  | none, none, .ok type =>
    .error (.new ("unexpected peer forward readiness frame type " ++ type.name))

end PeerClients

/-! ### The two sides over gRPC

Opening a call and sending its first message do not wait for the handler. Its status is what the
client receives next; sends after it has arrived fail. -/

def relayDispatch (registry : Held π) (req : DispatchRequest) : Except GoError AgentResult :=
  PeerClients.dispatch (PeerServer.dispatch registry req)

def relayDispatchStream (registry : Held π) (req : DispatchRequest) :
    Except GoError (StreamRelay AgentResult) :=
  (PeerClients.dispatchStream none).map fun relay =>
    match PeerServer.dispatchStream registry req with
    | some _ => (relay.stepClient .recvErr).getD relay
    | none => relay

/-- The status arrives after `arrival` chunks were sent; `served` is how an upload ends that is not
refused. -/
def relayUpload (registry : Held π) (req : DispatchRequest) (body : BodyReader) (arrival : Nat)
    (served : Except Grpc.Status AgentResult) : Except GoError AgentResult :=
  PeerClients.upload none none (Grpc.sendUntil arrival) body
    (match PeerServer.upload registry req with
    | some st => .error st
    | none => served)

def relayForward (registry : Held π) (sessionId agentId target : String)
    (outcome : PeerServer.PairOutcome) : Except GoError Unit :=
  PeerClients.forward none none
    (PeerServer.forward registry (openFrame sessionId agentId target) outcome)

end Hostlink.Controller
