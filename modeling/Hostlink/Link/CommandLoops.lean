import Hostlink.Lib.GoMap
import Hostlink.Lib.Slots
import Hostlink.Agent.Inbound
import Hostlink.Link.Sessions

/-! The agent's receive loops with what they do with a command: `startRequest`, `routeChunk` and the
registrations of the handlers they start, over any number of Control sessions. What the controller
sends on a stream is left to the labels, and so is how long a handler runs: a session that ends waits
neither for its handlers nor for its loop. -/

namespace Hostlink
open Agent (UploadChunk inboundBuffer)

/-- `target` is what the payload of a `request.cancel` decodes to, if it does. -/
structure AgentRequest where
  requestId : String
  method : String
  target : Option String := none
  deriving DecidableEq, Repr

def AgentRequest.isCancel (req : AgentRequest) : Bool := req.method = "request.cancel"

def AgentRequest.isCancellable (req : AgentRequest) : Bool :=
  req.method = "images.pull" || req.method = "fs.read" || req.method = "metrics.scrape" ||
    req.method = "containers.logs"

inductive AgentCommand where
  | openForward (sessionId target : String)
  | request (req : AgentRequest)
  | chunk (requestId : String) (chunk : UploadChunk)
  | other
  deriving DecidableEq, Repr

inductive TaskKind where
  | cancellable
  | write
  | single
  | forward
  deriving DecidableEq, Repr

/-- A goroutine that a command has started: the session whose context it runs under and the one on
whose stream the command came. `cancelled` is its own context, `ch` the channel of an upload. -/
structure AgentTask where
  ctx : Nat
  stream : Nat
  requestId : String
  kind : TaskKind
  cancelled : Bool := false
  ch : List UploadChunk := []
  finished : Bool := false
  deriving DecidableEq, Repr

def AgentTask.running (x : AgentTask) : Bool := x.kind = .cancellable && !x.finished

/-- Where a receive loop stands: `recv` has read `a.stream`, `handle` has a command from stream `k`,
`route` is in the `select` of `routeChunk`. -/
inductive CommandLoopPc where
  | off
  | head
  | recv (k : Nat)
  | handle (k : Nat) (cmd : AgentCommand)
  | route (h : Nat) (chunk : UploadChunk)
  | returned
  deriving DecidableEq, Repr

/-- `ended` is the session's context. -/
structure CommandSession where
  down : Fifo AgentCommand := .ofList []
  loop : CommandLoopPc := .off
  ended : Bool := false

structure HandledCommand where
  loop : Nat
  stream : Nat
  cmd : AgentCommand
  deriving DecidableEq, Repr

/-- `stream`, `cancels` and `inbound` are the agent's fields of that name; `handled` is history. -/
structure CommandAgent where
  pc : SupervisorPc := .between
  stream : Option Nat := none
  sessions : List CommandSession := []
  tasks : List AgentTask := []
  cancels : GoMap String Nat := .empty
  inbound : GoMap String Nat := .empty
  handled : List HandledCommand := []

inductive CommandLabel where
  | control
  | hello (ok : Bool)
  | heartbeat (ok : Bool)
  | sessionEnd
  | stop
  | push (k : Nat) (cmd : AgentCommand)
  | broken (k : Nat)
  | loopHead (i : Nat)
  | loopRecv (i : Nat)
  | loopReturn (i : Nat)
  | handle (i : Nat)
  | routePut (i : Nat)
  | routeDrop (i : Nat)
  | take (h : Nat)
  | finish (h : Nat)
  deriving DecidableEq, Repr

namespace CommandAgent

def setSession (s : CommandAgent) (k : Nat) (session : CommandSession) : CommandAgent :=
  { s with sessions := s.sessions.set k session }

def setTask (s : CommandAgent) (h : Nat) (x : AgentTask) : CommandAgent :=
  { s with tasks := s.tasks.set h x }

/-! ### A command -/

def start (s : CommandAgent) (x : AgentTask) : CommandAgent := { s with tasks := s.tasks ++ [x] }

/-- The handler's number stands for its `cancel`. -/
def startCancellable (s : CommandAgent) (i k : Nat) (req : AgentRequest) : CommandAgent :=
  { s.start { ctx := i, stream := k, requestId := req.requestId, kind := .cancellable } with
    cancels := s.cancels.insert req.requestId s.tasks.length }

def registerInbound (s : CommandAgent) (i k : Nat) (req : AgentRequest) : CommandAgent :=
  { s.start { ctx := i, stream := k, requestId := req.requestId, kind := .write } with
    inbound := s.inbound.insert req.requestId s.tasks.length }

def cancelTask (s : CommandAgent) (h : Nat) : CommandAgent :=
  match s.tasks[h]? with
  | some x => s.setTask h { x with cancelled := true }
  | none => s

def cancelInflight (s : CommandAgent) (req : AgentRequest) : CommandAgent :=
  match req.target.bind s.cancels.get with
  | some h => s.cancelTask h
  | none => s

def startRequest (s : CommandAgent) (i k : Nat) (req : AgentRequest) : CommandAgent :=
  if req.isCancel then s.cancelInflight req
  else if req.isCancellable then s.startCancellable i k req
  else if req.method = "fs.write" then s.registerInbound i k req
  else s.start { ctx := i, stream := k, requestId := req.requestId, kind := .single }

def handleOpenForward (s : CommandAgent) (i k : Nat) (sessionId target : String) : CommandAgent :=
  if sessionId = "" || target = "" then s
  else s.start { ctx := i, stream := k, requestId := sessionId, kind := .forward }

def handleCommand (s : CommandAgent) (i k : Nat) : AgentCommand → CommandAgent × CommandLoopPc
  | .openForward sessionId target => (s.handleOpenForward i k sessionId target, .head)
  | .request req => (s.startRequest i k req, .head)
  | .chunk requestId chunk =>
    match s.inbound.get requestId with
    | some h => (s, .route h chunk)
    | none => (s, .head)
  | .other => (s, .head)

/-- What a handler does when it has finished: its deferred calls. -/
def finish (s : CommandAgent) (h : Nat) (x : AgentTask) : CommandAgent :=
  match x.kind with
  | .cancellable =>
    -- the key goes whoever registered it last
    { s.setTask h { x with finished := true, cancelled := true } with
      cancels := s.cancels.erase x.requestId }
  | .write =>
    { s.setTask h { x with finished := true } with
      inbound := if s.inbound.get x.requestId = some h then s.inbound.erase x.requestId
        else s.inbound }
  | .single | .forward => s.setTask h { x with finished := true }

/-! ### The system -/

def endSession (s : CommandAgent) (k : Nat) (pc : SupervisorPc) : Option CommandAgent :=
  (s.sessions[k]?).map fun session => { s.setSession k { session with ended := true } with pc := pc }

def stepSupervisor (s : CommandAgent) : CommandLabel → Option CommandAgent
  | .control =>
    match s.pc with
    | .between => some { s with
        pc := .hello s.sessions.length
        stream := some s.sessions.length
        sessions := s.sessions ++ [{}] }
    | _ => none
  | .hello ok =>
    match s.pc with
    | .hello k =>
      if ok then (s.sessions[k]?).map fun session =>
        { s.setSession k { session with loop := .head } with pc := .running k }
      else s.endSession k .between
    | _ => none
  | .heartbeat ok =>
    match s.pc with
    | .running k => if ok then some s else s.endSession k .between
    | _ => none
  | .sessionEnd =>
    match s.pc with
    | .running k => (s.sessions[k]?).bind fun session =>
        if session.loop = .returned then s.endSession k .between else none
    | _ => none
  | .stop =>
    match s.pc with
    | .between => some { s with pc := .stopped }
    | .running k => s.endSession k .stopped
    | _ => none
  | _ => none

def stepLoop (s : CommandAgent) (i : Nat) (session : CommandSession) :
    CommandLabel → Option CommandAgent
  | .loopHead _ =>
    -- `a.stream` is read anew before each `Recv`
    match session.loop, s.stream with
    | .head, some k => some (s.setSession i { session with loop := .recv k })
    | _, _ => none
  | .loopRecv _ =>
    match session.loop with
    | .recv k => (s.sessions[k]?).bind fun from_ => from_.down.pop?.bind fun x =>
        let s := s.setSession k { from_ with down := x.2 }
        (s.sessions[i]?).map fun session =>
          s.setSession i { session with loop := .handle k x.1 }
    | _ => none
  | .loopReturn _ =>
    match session.loop with
    | .recv _ => some (s.setSession i { session with loop := .returned })
    | _ => none
  | .handle _ =>
    match session.loop with
    | .handle k cmd =>
      let r := s.handleCommand i k cmd
      some { r.1.setSession i { session with loop := r.2 } with
        handled := s.handled ++ [⟨i, k, cmd⟩] }
    | _ => none
  | .routePut _ =>
    match session.loop with
    | .route h chunk => (s.tasks[h]?).bind fun x =>
        if x.ch.length < inboundBuffer then
          some ((s.setTask h { x with ch := x.ch ++ [chunk] }).setSession i
            { session with loop := .head })
        else none
    | _ => none
  | .routeDrop _ =>
    match session.loop with
    | .route h _ => (s.tasks[h]?).bind fun x =>
        if x.finished then some (s.setSession i { session with loop := .head }) else none
    | _ => none
  | _ => none

def stepTask (s : CommandAgent) (h : Nat) (x : AgentTask) : CommandLabel → Option CommandAgent
  | .take _ =>
    match x.ch with
    | _ :: ch => if x.finished then none else some (s.setTask h { x with ch := ch })
    | [] => none
  | .finish _ => if x.finished then none else some (s.finish h x)
  | _ => none

def step (s : CommandAgent) : CommandLabel → Option CommandAgent
  | .push k cmd => (s.sessions[k]?).map fun session =>
      s.setSession k { session with down := session.down.push cmd }
  | .broken k => (s.sessions[k]?).map fun session =>
      s.setSession k { session with down := session.down.fail }
  | l@(.loopHead i) | l@(.loopRecv i) | l@(.loopReturn i) | l@(.handle i) | l@(.routePut i)
  | l@(.routeDrop i) => (s.sessions[i]?).bind fun session => s.stepLoop i session l
  | l@(.take h) | l@(.finish h) => (s.tasks[h]?).bind fun x => s.stepTask h x l
  | l => s.stepSupervisor l

def init : CommandAgent := {}

end CommandAgent
end Hostlink
