import Hostlink.Lib.GoError
import Hostlink.Lib.GoMap
import Hostlink.Lib.Slots
import Hostlink.Lib.Strconv

/-! One agent's Control stream as its dispatchers see it (`agentConn`): requests are numbered,
registered under their number and answered through a channel each. What a request or a reply says
is left open (`π`). Everything done under `mu` is one step; a send on a channel comes after it. -/

namespace Hostlink.Controller

def errAgentDisconnected : GoError := .new "agent disconnected before result"

/-- What `agentConn.send` makes of an error of the Control stream. -/
def sendErr (agentId : String) (err : GoError) : GoError :=
  .wrap ("send command to agent \"" ++ agentId ++ "\"") err

inductive Reply (π : Type) where
  | progress (requestId : String) (body : π)
  | result (requestId : String) (body : π)
  deriving DecidableEq, Repr

def Reply.requestId {π : Type} : Reply π → String
  | .progress requestId _ | .result requestId _ => requestId

def Reply.body {π : Type} : Reply π → π
  | .progress _ body | .result _ body => body

/-- `dispatch`, `dispatchUpload`, and `dispatchStream` for a method that is reliable or not. -/
inductive CallKind where
  | unary
  | upload
  | stream (reliable : Bool)
  deriving DecidableEq, Repr

def CallKind.isStream : CallKind → Bool
  | .stream _ => true
  | _ => false

/-- What a dispatcher sends down the stream; `call` is its number. -/
inductive Command where
  | request (requestId : String) (kind : CallKind) (call : Nat)
  | chunk (requestId : String) (last : Bool)
  | cancel (requestId target : String)
  deriving DecidableEq, Repr

inductive CallPc where
  | register
  | send
  | body
  | wait
  | unregister
  | consume
  | cancel
  | cancelClose (live closed failed : Bool)
  | cancelSend (failed : Bool)
  | returned
  deriving DecidableEq, Repr

/-- One dispatcher. `inbox` and `chanClosed` are the channel of a unary request or an upload,
`frames` and `done` those of a stream; `taken` is what the caller has received. -/
structure Call (π : Type) where
  kind : CallKind
  id : Nat
  pc : CallPc := .register
  inbox : Option (Reply π) := none
  chanClosed : Bool := false
  frames : List (Reply π) := []
  done : Bool := false
  taken : List (Reply π) := []
  err : Option GoError := none
  deriving DecidableEq, Repr

inductive Delivery (π : Type) where
  | idle
  | unary (d : Nat) (r : Reply π)
  | stream (d : Nat) (r : Reply π)
  | advisory (d : Nat) (r : Reply π)
  deriving DecidableEq, Repr

def Delivery.target {π : Type} : Delivery π → Option (Nat × Reply π)
  | .idle => none
  | .unary d r | .stream d r | .advisory d r => some (d, r)

def streamBuffer : Nat := 64

/-- `closing` holds the streams whose `done` a `closeAll` has still to close, `delivered` what was
put on the channel of a dispatcher. -/
structure AgentConn (π : Type) where
  agentId : String
  calls : List (Call π) := []
  pending : GoMap String Nat := .empty
  pendingStream : GoMap String Nat := .empty
  closed : Bool := false
  seq : Nat := 0
  delivery : Delivery π := .idle
  closing : List Nat := []
  delivered : List (Nat × Reply π) := []

def newAgentConn {π : Type} (agentId : String) : AgentConn π := { agentId := agentId }

inductive CallLabel where
  | register
  | send (err : Option GoError)
  | chunk (last : Bool) (err : Option GoError)
  | await
  | ctxDone (err : GoError)
  | take
  | unregister
  | cancel
  | cancelClose
  | cancelSend (err : Option GoError)
  deriving DecidableEq, Repr

inductive ConnLabel (π : Type) where
  | start (kind : CallKind)
  | call (d : Nat) (l : CallLabel)
  | receive (r : Reply π)
  | put
  | drop
  | closeAll
  | closeDone (d : Nat)
  deriving DecidableEq, Repr

namespace Call
variable {π : Type}

def requestId (call : Call π) : String := Strconv.formatUint call.id

def afterSend (call : Call π) : Option GoError → CallPc
  | none =>
    match call.kind with
    | .unary => .wait
    | .upload => .body
    | .stream _ => .consume
  | some _ => if call.kind.isStream then .cancel else .unregister

def afterCancel (failed : Bool) : CallPc := if failed then .returned else .consume

end Call

namespace AgentConn
variable {π : Type}

/-- `seq.Add(1)`. -/
def nextSeq (c : AgentConn π) : Nat := (c.seq + 1) % UInt64.size

def setCall (c : AgentConn π) (d : Nat) (call : Call π) : AgentConn π :=
  { c with calls := c.calls.set d call }

def register (c : AgentConn π) (d : Nat) (call : Call π) : AgentConn π :=
  if c.closed then
    c.setCall d { call with pc := .returned, err := some errAgentDisconnected }
  else
    let c := c.setCall d { call with pc := .send }
    if call.kind.isStream then
      { c with pendingStream := c.pendingStream.insert call.requestId d }
    else { c with pending := c.pending.insert call.requestId d }

/-- The part of `cancel` under the lock. -/
def cancelLock (c : AgentConn π) (d : Nat) (call : Call π) (failed : Bool) : AgentConn π :=
  let live : Bool := c.pendingStream.get call.requestId = some d
  let c := c.setCall d { call with pc := .cancelClose live c.closed failed }
  if live then { c with pendingStream := c.pendingStream.erase call.requestId } else c

def stepCall (c : AgentConn π) (d : Nat) (call : Call π) :
    CallLabel → Option (AgentConn π × Option Command)
  | .register =>
    match call.pc with
    | .register => some (c.register d call, none)
    | _ => none
  | .send err =>
    match call.pc with
    | .send => some (c.setCall d { call with
          pc := call.afterSend err
          err := err.map (sendErr c.agentId) },
        if err.isNone then some (.request call.requestId call.kind d) else none)
    | _ => none
  | .chunk last err =>
    match call.pc with
    | .body => some (c, if err.isNone then some (.chunk call.requestId last) else none)
    | _ => none
  | .await =>
    match call.pc with
    | .body => some (c.setCall d { call with pc := .wait }, none)
    | _ => none
  | .ctxDone err =>
    match call.pc with
    | .wait => some (c.setCall d { call with pc := .unregister, err := some err }, none)
    | _ => none
  | .take =>
    match call.pc with
    | .wait =>
      match call.inbox with
      | some r =>
        some (c.setCall d { call with pc := .unregister, inbox := none, taken := [r] }, none)
      -- what is in the channel comes out before its closing is seen
      | none =>
        if call.chanClosed then
          some (c.setCall d { call with pc := .unregister, err := some errAgentDisconnected }, none)
        else none
    | .consume =>
      match call.frames with
      | r :: frames =>
        some (c.setCall d { call with frames := frames, taken := call.taken ++ [r] }, none)
      | [] => none
    | _ => none
  | .unregister =>
    match call.pc with
    | .unregister =>
      some ({ c.setCall d { call with pc := .returned } with
        pending := c.pending.erase call.requestId }, none)
    | _ => none
  | .cancel =>
    match call.pc with
    | .consume => some (c.cancelLock d call false, none)
    | .cancel => some (c.cancelLock d call true, none)
    | _ => none
  | .cancelClose =>
    match call.pc with
    | .cancelClose live closed failed =>
      -- the agent is told only about a stream that was still registered
      let pc := if !live || closed then Call.afterCancel failed else .cancelSend failed
      some (c.setCall d { call with pc := pc, done := true }, none)
    | _ => none
  | .cancelSend err =>
    match call.pc with
    | .cancelSend failed =>
      some ({ c.setCall d { call with pc := Call.afterCancel failed } with seq := c.nextSeq },
        if err.isNone then some (.cancel (Strconv.formatUint c.nextSeq) call.requestId) else none)
    | _ => none

/-- The part of `deliver` and `deliverProgress` under the lock. -/
def receive (c : AgentConn π) (r : Reply π) : AgentConn π :=
  match r with
  | .result id _ =>
    -- streams first
    match c.pendingStream.get id with
    | some d => { c with pendingStream := c.pendingStream.erase id, delivery := .stream d r }
    | none =>
      match c.pending.get id with
      | some d => { c with pending := c.pending.erase id, delivery := .unary d r }
      | none => c
  | .progress id _ =>
    match c.pendingStream.get id with
    | some d =>
      let reliable := (c.calls[d]?).any fun call => call.kind = .stream true
      { c with delivery := if reliable then .stream d r else .advisory d r }
    | none => c

def putFrame (c : AgentConn π) (d : Nat) (r : Reply π) (call : Call π) : Option (AgentConn π) :=
  if call.frames.length < streamBuffer then
    some { c.setCall d { call with frames := call.frames ++ [r] } with
      delivery := .idle
      delivered := c.delivered ++ [(d, r)] }
  else none

def put (c : AgentConn π) : Option (AgentConn π) :=
  match c.delivery with
  | .idle => none
  | .unary d r => (c.calls[d]?).bind fun call =>
      if call.inbox.isNone && !call.chanClosed then
        some { c.setCall d { call with inbox := some r } with
          delivery := .idle
          delivered := c.delivered ++ [(d, r)] }
      else none
  | .stream d r | .advisory d r => (c.calls[d]?).bind (c.putFrame d r)

/-- The other ways out of `deliver` and `deliverProgress`: `done`, or a full buffer of an advisory
stream. -/
def drop (c : AgentConn π) : Option (AgentConn π) :=
  match c.delivery with
  | .stream d _ => (c.calls[d]?).bind fun call =>
      if call.done then some { c with delivery := .idle } else none
  | .advisory d _ => (c.calls[d]?).bind fun call =>
      if call.done || !decide (call.frames.length < streamBuffer) then
        some { c with delivery := .idle }
      else none
  | .idle | .unary _ _ => none

/-- The part of `closeAll` under the lock. -/
def closeAll (c : AgentConn π) : AgentConn π :=
  let waiting := c.pending.keys.filterMap c.pending.get
  { c with
    closed := true
    calls := c.calls.mapIdx fun d call =>
      if d ∈ waiting then { call with chanClosed := true } else call
    pending := .empty
    closing := c.closing ++ (c.pendingStream.keys.dedup.filterMap c.pendingStream.get)
    pendingStream := .empty }

def step (c : AgentConn π) : ConnLabel π → Option (AgentConn π × Option Command)
  | .start kind =>
    some ({ c with
      seq := c.nextSeq
      calls := c.calls ++ [{ kind := kind, id := c.nextSeq }] }, none)
  | .call d l => (c.calls[d]?).bind fun call => c.stepCall d call l
  | .receive r =>
    match c.delivery with
    | .idle => some (c.receive r, none)
    | _ => none
  | .put => c.put.map fun c => (c, none)
  | .drop => c.drop.map fun c => (c, none)
  | .closeAll => some (c.closeAll, none)
  | .closeDone d =>
    if d ∈ c.closing then
      (c.calls[d]?).map fun call =>
        ({ c.setCall d { call with done := true } with closing := c.closing.erase d }, none)
    else none

end AgentConn
end Hostlink.Controller
