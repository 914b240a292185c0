import Hostlink.Lib.Fifo
import Hostlink.Lib.Run
import Hostlink.Controller.Correlation

/-! An agent, the Control sessions it opens one after the other (`runSession`) and the `agentConn`
that serves each. A reply bears the number of the handler that made it. How a handler works and
when it notices that its context is done is left to the labels: a session that ends does not wait
for its handlers, nor for its receive loop. -/

namespace Hostlink
open Controller (AgentConn Reply Command CallKind ConnLabel)

/-- The `AgentEvent` kinds; the agent's id matters in a Hello only. -/
inductive AgentEvent where
  | hello (agentId : String)
  | heartbeat
  | event
  | reply (r : Reply Nat)
  deriving DecidableEq, Repr

/-- A receive loop: not started, at the head of the loop, in `Recv` on the stream it read from
`a.stream`, returned. -/
inductive LoopPc where
  | off
  | head
  | recv (stream : Nat)
  | returned
  deriving DecidableEq, Repr

/-- One Control stream with the goroutines of both ends: the agent's receive loop and the
controller's `Control` handler, whose connection exists from the `Hello` on. -/
structure Session where
  up : Fifo AgentEvent := .ofList []
  down : Fifo Command := .ofList []
  loop : LoopPc := .off
  serving : Bool := true
  conn : Option (AgentConn Nat) := none

/-- The goroutine of one request. Its dispatcher is call `call` of session `session`. -/
structure Handler where
  session : Nat
  call : Nat
  requestId : String
  kind : CallKind
  finished : Bool := false
  deriving DecidableEq, Repr

/-- The supervisor: between two sessions, before the `Hello` of session `k`, in the main loop of
that session, returned. -/
inductive SupervisorPc where
  | between
  | hello (k : Nat)
  | running (k : Nat)
  | stopped
  deriving DecidableEq, Repr

/-- `nodeName` and `stream` are the agent's fields of that name. -/
structure AgentLink where
  nodeName : String
  pc : SupervisorPc := .between
  stream : Option Nat := none
  sessions : List Session := []
  handlers : List Handler := []

inductive LinkLabel where
  | control
  | hello (ok : Bool)
  | heartbeat (ok : Bool)
  | dockerEvent (ok : Bool)
  | sessionEnd
  | stop
  | loopHead (i : Nat)
  | loopRecv (i : Nat)
  | loopReturn (i : Nat)
  | progress (h : Nat) (ok : Bool)
  | result (h : Nat) (ok : Bool)
  | broken (k : Nat)
  | serve (k : Nat)
  | serveReturn (k : Nat)
  | conn (k : Nat) (l : ConnLabel Nat)
  deriving DecidableEq, Repr

namespace AgentLink

def setSession (s : AgentLink) (k : Nat) (session : Session) : AgentLink :=
  { s with sessions := s.sessions.set k session }

def control (s : AgentLink) : AgentLink :=
  { s with
    pc := .hello s.sessions.length
    stream := some s.sessions.length
    sessions := s.sessions ++ [{}] }

/-- `agent.send`: the event goes to the stream that is installed now. -/
def send (s : AgentLink) (ev : AgentEvent) (ok : Bool) : Option AgentLink :=
  s.stream.bind fun k => (s.sessions[k]?).map fun session =>
    if ok then s.setSession k { session with up := session.up.push ev } else s

/-- `startRequest` and `routeChunk`, for a command taken from stream `k`. A chunk or a cancel
starts no handler. -/
def startRequest (s : AgentLink) (k : Nat) : Command → AgentLink
  | .request requestId kind call =>
    { s with handlers := s.handlers ++
        [{ session := k, call := call, requestId := requestId, kind := kind }] }
  | .chunk _ _ | .cancel _ _ => s

/-- `receiveCommands`, iteration `Recv` of the loop of session `i` on stream `k`. -/
def loopRecv (s : AgentLink) (i k : Nat) (loop : Session) : Option AgentLink :=
  let s := s.setSession i { loop with loop := .head }
  (s.sessions[k]?).bind fun session => session.down.pop?.map fun x =>
    (s.setSession k { session with down := x.2 }).startRequest k x.1

def handleAgentEvent (conn : Option (AgentConn Nat)) : AgentEvent → Option (Option (AgentConn Nat))
  -- a second Hello keeps the connection
  | .hello agentId => some (some (conn.getD (Controller.newAgentConn agentId)))
  | .heartbeat | .event => some conn
  | .reply r =>
    match conn with
    | none => some none
    | some c => (c.step (.receive r)).map fun x => some x.1

def serve (s : AgentLink) (k : Nat) (session : Session) : Option AgentLink :=
  if session.serving && session.conn.all fun c => c.delivery = .idle then
    session.up.pop?.bind fun x => (handleAgentEvent session.conn x.1).map fun conn =>
      s.setSession k { session with up := x.2, conn := conn }
  else none

/-- A step of session `k`'s connection; what it sends goes down its own stream. -/
def connStep (s : AgentLink) (k : Nat) (session : Session) (l : ConnLabel Nat) : Option AgentLink :=
  session.conn.bind fun c => (c.step l).map fun x =>
    s.setSession k { session with
      conn := some x.1
      down := match x.2 with
        | some cmd => session.down.push cmd
        | none => session.down }

def step (s : AgentLink) : LinkLabel → Option AgentLink
  | .control =>
    match s.pc with
    | .between => some s.control
    | _ => none
  | .hello ok =>
    match s.pc with
    | .hello k => (s.send (.hello s.nodeName) ok).bind fun s =>
        if ok then (s.sessions[k]?).map fun session =>
          { s.setSession k { session with loop := .head } with pc := .running k }
        else some { s with pc := .between }
    | _ => none
  | .heartbeat ok =>
    match s.pc with
    | .running k => (s.send .heartbeat ok).map fun s =>
        { s with pc := if ok then .running k else .between }
    | _ => none
  | .dockerEvent ok => s.send .event ok
  | .sessionEnd =>
    match s.pc with
    | .running k => (s.sessions[k]?).bind fun session =>
        if session.loop = .returned then some { s with pc := .between } else none
    | _ => none
  | .stop =>
    match s.pc with
    | .between | .running _ => some { s with pc := .stopped }
    | _ => none
  | .loopHead i => (s.sessions[i]?).bind fun session =>
      -- `a.stream` is read anew before each `Recv`
      match session.loop, s.stream with
      | .head, some k => some (s.setSession i { session with loop := .recv k })
      | _, _ => none
  | .loopRecv i => (s.sessions[i]?).bind fun session =>
      match session.loop with
      | .recv k => s.loopRecv i k session
      | _ => none
  | .loopReturn i => (s.sessions[i]?).bind fun session =>
      match session.loop with
      | .recv _ => some (s.setSession i { session with loop := .returned })
      | _ => none
  | .progress h ok => (s.handlers[h]?).bind fun handler =>
      if handler.kind.isStream && !handler.finished then
        s.send (.reply (.progress handler.requestId h)) ok
      else none
  | .result h ok => (s.handlers[h]?).bind fun handler =>
      if handler.finished then none
      else (s.send (.reply (.result handler.requestId h)) ok).map fun s =>
        { s with handlers := s.handlers.set h { handler with finished := true } }
  | .broken k => (s.sessions[k]?).map fun session =>
      s.setSession k { session with up := session.up.fail, down := session.down.fail }
  | .serve k => (s.sessions[k]?).bind (s.serve k)
  | .serveReturn k => (s.sessions[k]?).bind fun session =>
      if session.serving && session.conn.all fun c => c.delivery = .idle then
        some (s.setSession k { session with serving := false })
      else none
  | .conn k l =>
    match l with
    | .receive _ => none
    | l => (s.sessions[k]?).bind fun session => s.connStep k session l

def init (nodeName : String) : AgentLink := { nodeName := nodeName }

def connOf (s : AgentLink) (k : Nat) : Option (AgentConn Nat) := (s.sessions[k]?).bind Session.conn

/-- A reply leaves the agent only while the stream its request came on is installed, and no
connection numbers more requests than its counter holds. -/
def InSession (s : AgentLink) : LinkLabel → Prop
  | .progress h true | .result h true =>
    ∀ handler ∈ s.handlers[h]?, s.stream = some handler.session
  | .conn k l => AgentConn.Counts l = true → ∀ c ∈ s.connOf k, c.seq + 1 < UInt64.size
  | _ => True

instance (s : AgentLink) : (l : LinkLabel) → Decidable (s.InSession l)
  | .progress h true | .result h true => inferInstanceAs
      (Decidable (∀ handler ∈ s.handlers[h]?, s.stream = some (Handler.session handler)))
  | .conn k l => inferInstanceAs
      (Decidable (AgentConn.Counts l = true → ∀ c ∈ s.connOf k, c.seq + 1 < UInt64.size))
  | .progress _ false | .result _ false | .control | .hello _ | .heartbeat _ | .dockerEvent _
  | .sessionEnd | .stop | .loopHead _ | .loopRecv _ | .loopReturn _ | .broken _ | .serve _
  | .serveReturn _ => inferInstanceAs (Decidable True)

end AgentLink
end Hostlink
