import Hostlink.Lib.Fifo
import Hostlink.Controller.SharedConn

/-! A streamed request from the agent to `consumeStream`: the agent's replies come up the Control
stream, whose handler delivers them one at a time. The consumer reads the channel of the request,
or `peerServer.DispatchStream` reads it and sends the frames to `peerClients.dispatchStream` on the
consumer's own replica. -/

namespace Hostlink.Controller
variable {π : Type}

def streamReliable (method : String) : Bool :=
  method = "fs.read" || method = "metrics.scrape" || method = "containers.logs"

/-- What a frame says besides is left open. -/
structure StreamFrame (π : Type) where
  body : π
  final : Bool
  deriving DecidableEq, Repr

def Reply.frame (r : Reply π) : StreamFrame π := ⟨r.body, r.isResult⟩

/-- Where `consumeStream` stands. -/
inductive ConsumerPc where
  | select
  | drain
  | returned (aborted : Bool)
  deriving DecidableEq, Repr

/-- Where `peerServer.DispatchStream` stands. -/
inductive RelayServerPc (π : Type) where
  | select
  | drain
  | send (frame : StreamFrame π) (draining : Bool)
  | returned
  deriving DecidableEq, Repr

/-- Where the goroutine of `peerClients.dispatchStream` stands. -/
inductive RelayClientPc (π : Type) where
  | recv
  | put (frame : StreamFrame π)
  | returned
  deriving DecidableEq, Repr

/-- A relayed stream; `frames` and `done` are what the consumer reads. -/
structure StreamRelay (π : Type) where
  server : RelayServerPc π := .select
  hop : Fifo (StreamFrame π) := .ofList []
  client : RelayClientPc π := .recv
  frames : List (StreamFrame π) := []
  done : Bool := false

/-- `passed` is what was given to `onFrame`. -/
structure StreamConsumer (π : Type) where
  method : String
  relay : Option (StreamRelay π) := none
  pc : ConsumerPc := .select
  passed : List (StreamFrame π) := []

/-- `stop` is what `onFrame` answers to a frame that is not final. -/
inductive ConsumeLabel where
  | frame (stop : Bool)
  | done
  | abort
  | ctxDone
  deriving DecidableEq, Repr

inductive RelayServerLabel where
  | frame
  | sent (ok : Bool)
  | done
  | abort
  | ctxDone
  deriving DecidableEq, Repr

inductive RelayClientLabel where
  | recv
  | recvErr
  | put
  | ctxDone
  deriving DecidableEq, Repr

namespace StreamConsumer

def reading (k : StreamConsumer π) : Bool :=
  match k.pc with
  | .select | .drain => true
  | .returned _ => false

/-- `onFrame` ends the stream with the final frame, and where it says so. -/
def onFrame (k : StreamConsumer π) (frame : StreamFrame π) (stop : Bool) : StreamConsumer π :=
  { k with
    passed := k.passed ++ [frame]
    pc := if frame.final || stop then .returned false else k.pc }

def leave (k : StreamConsumer π) (empty done : Bool) : ConsumeLabel → Option (StreamConsumer π)
  | .done =>
    match k.pc with
    | .select => if done then some { k with pc := .drain } else none
    | _ => none
  | .abort =>
    match k.pc with
    | .drain => if empty then some { k with pc := .returned true } else none
    | _ => none
  | .ctxDone =>
    match k.pc with
    | .select => some { k with pc := .returned false }
    | _ => none
  | .frame _ => none

end StreamConsumer

namespace StreamRelay

/-- `case frame := <-frames` of `DispatchStream`. -/
def take (relay : StreamRelay π) (frame : StreamFrame π) : Option (StreamRelay π) :=
  match relay.server with
  | .select => some { relay with server := .send frame false }
  | .drain => some { relay with server := .send frame true }
  | _ => none

def stepServer (relay : StreamRelay π) (empty done : Bool) :
    RelayServerLabel → Option (StreamRelay π)
  | .sent ok =>
    match relay.server with
    | .send frame draining =>
      if ok then
        some { relay with
          hop := relay.hop.push frame
          server := if frame.final then .returned else if draining then .drain else .select }
      else some { relay with server := .returned }
    | _ => none
  | .done =>
    match relay.server with
    | .select => if done then some { relay with server := .drain } else none
    | _ => none
  | .abort =>
    match relay.server with
    | .drain => if empty then some { relay with server := .returned } else none
    | _ => none
  | .ctxDone =>
    match relay.server with
    | .select => some { relay with server := .returned }
    | _ => none
  | .frame => none

/-- The goroutine closes `done` when it returns. -/
def stepClient (relay : StreamRelay π) : RelayClientLabel → Option (StreamRelay π)
  | .recv =>
    match relay.client with
    | .recv => relay.hop.pop?.map fun x => { relay with hop := x.2, client := .put x.1 }
    | _ => none
  | .recvErr =>
    match relay.client with
    | .recv => some { relay with client := .returned, done := true }
    | _ => none
  | .put =>
    match relay.client with
    | .put frame =>
      if relay.frames.length < streamBuffer then
        some { relay with
          frames := relay.frames ++ [frame]
          client := if frame.final then .returned else .recv
          done := relay.done || frame.final }
      else none
    | _ => none
  | .ctxDone =>
    match relay.client with
    | .put _ => some { relay with client := .returned, done := true }
    | _ => none

end StreamRelay

/-- `up` carries the agent's replies; `consumers` has an entry for each dispatcher, empty for one
that does not stream. -/
structure StreamLink (π : Type) where
  up : Fifo (Reply π) := .ofList []
  conn : AgentConn π
  consumers : List (Option (StreamConsumer π)) := []

inductive StreamLabel (π : Type) where
  | conn (l : ConnLabel π)
  | dispatchStream (method : String) (relayed : Bool)
  | reply (r : Reply π)
  | receive
  | broken
  | consume (d : Nat) (l : ConsumeLabel)
  | server (d : Nat) (l : RelayServerLabel)
  | client (d : Nat) (l : RelayClientLabel)
  deriving DecidableEq, Repr

namespace StreamLink

def init (agentId : String) : StreamLink π := { conn := newAgentConn agentId }

def asked (s : StreamLink π) (id : String) : Bool :=
  s.conn.calls.any fun call => call.requestId = id && call.pc != .register

def leaves (s : StreamLink π) : ConnLabel π → Bool
  | .start kind => !kind.isStream
  | .call d .take => (s.conn.calls[d]?).all fun call => !call.kind.isStream
  | .receive _ => false
  | _ => true

def takeFrame (s : StreamLink π) (d : Nat) (call : Call π) :
    Option (StreamFrame π × AgentConn π) :=
  if call.pc = .consume then do
    let r ← call.frames.head?
    let x ← s.conn.step (.call d .take)
    some (r.frame, x.1)
  else none

def setConsumer (s : StreamLink π) (d : Nat) (k : StreamConsumer π) : StreamLink π :=
  { s with consumers := s.consumers.set d (some k) }

def consumeLocal (s : StreamLink π) (d : Nat) (k : StreamConsumer π) (call : Call π) :
    ConsumeLabel → Option (StreamLink π)
  | .frame stop =>
    if k.reading then
      (s.takeFrame d call).map fun x => { s with conn := x.2 }.setConsumer d (k.onFrame x.1 stop)
    else none
  | l =>
    if call.pc = .consume then
      (k.leave call.frames.isEmpty call.done l).map (s.setConsumer d)
    else none

def consumeRelayed (s : StreamLink π) (d : Nat) (k : StreamConsumer π) (relay : StreamRelay π) :
    ConsumeLabel → Option (StreamLink π)
  | .frame stop =>
    match relay.frames with
    | frame :: frames =>
      if k.reading then
        some (s.setConsumer d
          ({ k with relay := some { relay with frames := frames } }.onFrame frame stop))
      else none
    | [] => none
  | l => (k.leave relay.frames.isEmpty relay.done l).map (s.setConsumer d)

def setRelay (s : StreamLink π) (d : Nat) (k : StreamConsumer π) (relay : StreamRelay π) :
    StreamLink π :=
  s.setConsumer d { k with relay := some relay }

def serve (s : StreamLink π) (d : Nat) (k : StreamConsumer π) (relay : StreamRelay π)
    (call : Call π) : RelayServerLabel → Option (StreamLink π)
  | .frame => do
    let x ← s.takeFrame d call
    let relay ← relay.take x.1
    some ({ s with conn := x.2 }.setRelay d k relay)
  | l =>
    if call.pc = .consume then
      (relay.stepServer call.frames.isEmpty call.done l).map (s.setRelay d k)
    else none

def step (s : StreamLink π) : StreamLabel π → Option (StreamLink π)
  | .conn l =>
    if s.leaves l then
      (s.conn.step l).map fun x =>
        { s with
          conn := x.1
          consumers := match l with
            | .start _ => s.consumers ++ [none]
            | _ => s.consumers }
    else none
  | .dispatchStream method relayed =>
    (s.conn.step (.start (.stream (streamReliable method)))).map fun x =>
      { s with
        conn := x.1
        consumers := s.consumers ++
          [some { method := method, relay := if relayed then some {} else none }] }
  | .reply r => if s.asked r.requestId then some { s with up := s.up.push r } else none
  | .receive => do
    let x ← s.up.pop?
    let y ← s.conn.step (.receive x.1)
    some { s with up := x.2, conn := y.1 }
  | .broken => some { s with up := s.up.fail }
  | .consume d l => do
    let k ← (s.consumers[d]?).join
    let call ← s.conn.calls[d]?
    match k.relay with
    | none => s.consumeLocal d k call l
    | some relay => s.consumeRelayed d k relay l
  | .server d l => do
    let k ← (s.consumers[d]?).join
    let relay ← k.relay
    let call ← s.conn.calls[d]?
    s.serve d k relay call l
  | .client d l => do
    let k ← (s.consumers[d]?).join
    let relay ← k.relay
    (relay.stepClient l).map (s.setRelay d k)

def numbers : StreamLabel π → Bool
  | .conn l => AgentConn.Counts l
  | .dispatchStream _ _ => true
  | _ => false

def sentFor (s : StreamLink π) (id : String) : List (StreamFrame π) :=
  (s.up.sent.filter (·.requestId = id)).map Reply.frame

end StreamLink
end Hostlink.Controller
