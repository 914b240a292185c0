import Hostlink.Agent.Inbound
import Hostlink.Controller.SharedConn
import Hostlink.Controller.UploadBody

/-! Uploads through one Control session: `service.dispatchUpload` on the replica that holds the
agent, or relayed to it by `peerClients.upload` and `peerServer.Upload`, down the Control stream to
the agent's handlers, and their results back. The body of a result is its code. -/

namespace Hostlink
open Controller (AgentConn Reply Command CallKind Call ConnLabel CallLabel BodySender BodyLabel)
open Agent (Bytes UploadChunk Inbound InboundLabel UploadHandler)

inductive UploadCommand where
  | opening (requestId : String)
  | chunk (requestId : String) (chunk : UploadChunk)
  | other
  deriving DecidableEq, Repr

/-- Where `peerServer.Upload` stands after the opening frame. -/
inductive UploadServerPc where
  | recv
  | send (chunk : UploadChunk)
  | await
  | returned
  deriving DecidableEq, Repr

/-- `hop` carries the frames that follow the opening one, `result` what `SendAndClose` sent. -/
structure UploadRelay where
  hop : Fifo UploadChunk := .ofList []
  server : UploadServerPc := .recv
  result : Option (Reply Nat) := none

/-- One `dispatchUpload`; `result` is what it returns. -/
structure UploadSender where
  body : BodySender := {}
  relay : Option UploadRelay := none
  result : Option (Reply Nat) := none

/-- `senders` has an entry for each dispatcher, empty for one that does not upload. -/
structure UploadLink where
  conn : AgentConn Nat
  senders : List (Option UploadSender) := []
  down : Fifo UploadCommand := .ofList []
  up : Fifo (Reply Nat) := .ofList []
  agent : Inbound := {}

inductive UploadServerLabel where
  | recv
  | recvErr
  | sent (err : Option GoError)
  | sendAndClose
  deriving DecidableEq, Repr

inductive UploadLinkLabel where
  | conn (l : ConnLabel Nat)
  | dispatchUpload (relayed : Bool)
  | body (d : Nat) (l : BodyLabel)
  | server (d : Nat) (l : UploadServerLabel)
  | await (d : Nat)
  | result (d : Nat)
  | serve
  | recv (before : Option Bytes) (exclusive : Bool)
  | agent (l : InboundLabel)
  | uploadReply (h : Nat) (ok : Bool)
  | reply (r : Reply Nat)
  | broken
  deriving DecidableEq, Repr

namespace UploadLink

def init (agentId : String) : UploadLink := { conn := Controller.newAgentConn agentId }

def toCommand : Command → UploadCommand
  | .request requestId .upload _ => .opening requestId
  | .request _ _ _ | .chunk _ _ | .cancel _ _ => .other

def leaves : ConnLabel Nat → Bool
  | .start kind => kind ≠ .upload
  | .call _ (.chunk _ _) | .call _ .await | .receive _ => false
  | _ => true

def connStep (s : UploadLink) (l : ConnLabel Nat) : Option UploadLink :=
  (s.conn.step l).map fun x =>
    { s with
      conn := x.1
      down := match x.2 with
        | some cmd => s.down.push (toCommand cmd)
        | none => s.down }

def setSender (s : UploadLink) (d : Nat) (u : UploadSender) : UploadLink :=
  { s with senders := s.senders.set d (some u) }

def sendChunk (s : UploadLink) (d : Nat) (chunk : UploadChunk) (err : Option GoError) :
    Option UploadLink :=
  (s.conn.step (.call d (.chunk chunk.last err))).map fun x =>
    { s with
      conn := x.1
      down := match x.2 with
        | some (.chunk requestId _) => s.down.push (.chunk requestId chunk)
        | _ => s.down }

/-- `streamUploadBody` with `sendChunk` as its `send`. -/
def bodyLocal (s : UploadLink) (d : Nat) (u : UploadSender) (call : Call Nat) :
    BodyLabel → Option UploadLink
  | .read data err =>
    if call.pc = .body then
      (u.body.step (.read data err)).map fun body => s.setSender d { u with body := body }
    else none
  | .sent err => do
    let chunk ← u.body.next
    let s ← s.sendChunk d chunk err
    let body ← u.body.step (.sent err)
    some (s.setSender d { u with body := body })

/-- `streamUploadBody` with the relay's stream as its `send`. -/
def bodyRelayed (s : UploadLink) (d : Nat) (u : UploadSender) (relay : UploadRelay) :
    BodyLabel → Option UploadLink
  | .read data err =>
    (u.body.step (.read data err)).map fun body => s.setSender d { u with body := body }
  | .sent err => do
    let chunk ← u.body.next
    let body ← u.body.step (.sent err)
    let hop := if err.isNone then relay.hop.push chunk else relay.hop
    some (s.setSender d { u with body := body, relay := some { relay with hop := hop } })

def setRelay (s : UploadLink) (d : Nat) (u : UploadSender) (relay : UploadRelay) : UploadLink :=
  s.setSender d { u with relay := some relay }

def awaited (call : Call Nat) : Option (Reply Nat) :=
  if call.pc = .returned && call.err.isNone then call.taken.head? else none

def serverStep (s : UploadLink) (d : Nat) (u : UploadSender) (relay : UploadRelay)
    (call : Call Nat) : UploadServerLabel → Option UploadLink
  | .recv =>
    match relay.server with
    | .recv => relay.hop.pop?.map fun x =>
        s.setRelay d u { relay with hop := x.2, server := .send x.1 }
    | _ => none
  | .recvErr =>
    match relay.server with
    | .recv => some (s.setRelay d u { relay with server := .returned })
    | _ => none
  | .sent err =>
    match relay.server with
    | .send chunk => (s.sendChunk d chunk err).map fun s =>
        let server := if err.isSome then .returned else if chunk.last then .await else .recv
        s.setRelay d u { relay with server := server }
    | _ => none
  | .sendAndClose =>
    match relay.server with
    | .await => (awaited call).map fun r =>
        s.setRelay d u { relay with server := .returned, result := some r }
    | _ => none

def awaits (u : UploadSender) : Bool :=
  match u.relay with
  | none => u.body.pc = .returned none
  | some relay => relay.server = .await

/-- `service.dispatchUpload` returns what `await` or `CloseAndRecv` returned. -/
def returns (u : UploadSender) (call : Call Nat) : Option (Reply Nat) :=
  if u.body.pc = .returned none then
    match u.relay with
    | none => awaited call
    | some relay => relay.result
  else none

def receiveCommand (a : Inbound) (before : Option Bytes) (exclusive : Bool) :
    UploadCommand → Inbound
  | .opening requestId => a.registerInbound requestId before exclusive
  | .chunk requestId chunk => a.routeChunk requestId chunk
  | .other => a

def uploadReply (s : UploadLink) (h : Nat) (ok : Bool) (x : UploadHandler) : Option UploadLink :=
  match x.upload.pc with
  | .finished code =>
    if x.replied then none
    else some { s with
      up := if ok then s.up.push (.result x.requestId code) else s.up
      agent := s.agent.setHandler h { x with replied := true } }
  | _ => none

def step (s : UploadLink) : UploadLinkLabel → Option UploadLink
  | .conn l =>
    if leaves l then
      (s.connStep l).map fun t =>
        match l with
        | .start _ => { t with senders := t.senders ++ [none] }
        | _ => t
    else none
  | .dispatchUpload relayed =>
    (s.connStep (.start .upload)).map fun t =>
      { t with senders := t.senders ++ [some { relay := if relayed then some {} else none }] }
  | .body d l => do
    let u ← (s.senders[d]?).join
    let call ← s.conn.calls[d]?
    match u.relay with
    | none => s.bodyLocal d u call l
    | some relay => s.bodyRelayed d u relay l
  | .server d l => do
    let u ← (s.senders[d]?).join
    let relay ← u.relay
    let call ← s.conn.calls[d]?
    s.serverStep d u relay call l
  | .await d => do
    let u ← (s.senders[d]?).join
    if awaits u then s.connStep (.call d .await) else none
  | .result d => do
    let u ← (s.senders[d]?).join
    let call ← s.conn.calls[d]?
    let r ← returns u call
    some (s.setSender d { u with result := some r })
  | .serve => do
    let x ← s.up.pop?
    let t ← s.connStep (.receive x.1)
    some { t with up := x.2 }
  | .recv before exclusive =>
    if s.agent.routing.isNone then
      s.down.pop?.map fun x =>
        { s with down := x.2, agent := receiveCommand s.agent before exclusive x.1 }
    else none
  | .agent l => (s.agent.step l).map fun a => { s with agent := a }
  | .uploadReply h ok => (s.agent.handlers[h]?).bind (s.uploadReply h ok)
  -- the other handlers of the agent
  | .reply r =>
    if s.conn.calls.any fun call => call.requestId = r.requestId && call.kind != .upload then
      some { s with up := s.up.push r }
    else none
  | .broken => some { s with up := s.up.fail, down := s.down.fail }

def numbers : UploadLinkLabel → Bool
  | .conn l => AgentConn.Counts l
  | .dispatchUpload _ => true
  | _ => false

end UploadLink
end Hostlink
