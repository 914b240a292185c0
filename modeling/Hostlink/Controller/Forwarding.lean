import Hostlink.Lib.GoMap
import Hostlink.Lib.Run
import Hostlink.Controller.AgentConn
import Hostlink.Controller.Ports
import Hostlink.Tunnel.SpliceConn

/-! Public connections and the agent streams they are paired with, on any number of pods. Three
kinds of handlers run side by side: `handleConn` for a public connection, `peerServer.Forward` for
a relay opened by another pod, and `impl.Forward` for a stream opened by an agent. Each is numbered
in its list. What the registry, the directory and the network answer is in the labels; what a
handler does to the rest of the system is one `Effect` a step. -/

namespace Hostlink.Controller

inductive GrpcCode where
  | ok
  | canceled
  | unknown
  | invalidArgument
  | deadlineExceeded
  | failedPrecondition
  | internal
  | unavailable
  deriving DecidableEq, Repr

inductive ForwardFailure where
  | lookup
  | portNotFound
  | portSuspended
  | sessionId
  | sendCommand
  | agentReject
  | pairTimeout
  | splice
  | crossPodDisabled
  | locateHolder
  | holderUnavailable
  | holderSelf
  | remoteOpen
  deriving DecidableEq, Repr

/-- `stream` is the number of the agent's Forward RPC. -/
structure ForwardSession where
  stream : Nat
  first : Tunnel.Frame
  deriving DecidableEq, Repr

/-! ### The session table -/

structure Waiter where
  pod : Nat
  sessionId : String
  conn : Nat
  deriving DecidableEq, Repr

structure SessionTable where
  waiters : GoMap String Nat := .empty

namespace SessionTable

def expect (t : SessionTable) (sessionId : String) (w : Nat) : SessionTable :=
  ⟨t.waiters.insert sessionId w⟩

def cancel (t : SessionTable) (sessionId : String) (w : Nat) : SessionTable :=
  if t.waiters.get sessionId = some w then ⟨t.waiters.erase sessionId⟩ else t

/-- The part of `deliver` under the lock: the waiter that was found is no longer in the table. -/
def remove (t : SessionTable) (sessionId : String) : SessionTable := ⟨t.waiters.erase sessionId⟩

end SessionTable

/-! ### The handlers -/

inductive HandlerPc where
  | lookup
  | get
  | newSession
  | expect (sessionId : String)
  | send (sessionId : String) (w : Nat)
  | wait (w : Nat)
  | paired (w : Nat)
  | locate (attempt : Nat)
  | newPeerSession (attempt : Nat) (addr : String)
  | connect (attempt : Nat) (addr sessionId : String)
  | sendOpen (attempt q : Nat) (sessionId : String)
  | recvReply (attempt q : Nat)
  | splice (w : Option Nat)
  | cancel (w : Nat)
  | done
  deriving DecidableEq, Repr

/-- `handleConn` for one accepted connection. `endpoint` is the state of `SpliceConn` from its
call on, which is the only code that reads the connection; `resets` counts `rstClose`. -/
structure PublicConn where
  pod : Nat
  pc : HandlerPc := .lookup
  mapping : PortMapping := ⟨"", "", "", false⟩
  session : Option ForwardSession := none
  relay : Option Nat := none
  endpoint : Option Tunnel.Endpoint := none
  resets : Nat := 0
  failures : List ForwardFailure := []
  deriving DecidableEq, Repr

inductive HandlerLabel where
  | lookup (r : Except GoError PortMapping)
  | get (found : Bool)
  | sessionId (r : Except GoError String)
  | expect
  | send (err : Option GoError)
  | receive
  | timeout
  | ctxDone
  | paired
  | locate (r : Except GoError String)
  | connect (r : Except GrpcCode Nat)
  | sendOpen (err : Option GrpcCode)
  | recvReply
  | recvStatus
  | recvErr (code : GrpcCode)
  | splice (l : Tunnel.ConnLabel)
  | spliced
  | cancel

inductive PeerPc where
  | recvOpen
  | get (f : Tunnel.Frame)
  | expect (f : Tunnel.Frame)
  | send (f : Tunnel.Frame) (w : Nat)
  | wait (w : Nat)
  | paired (w : Nat)
  | ready (w : Nat)
  | splice (w : Nat)
  | finish (w : Nat) (code : GrpcCode)
  | cancel (w : Nat) (code : GrpcCode)
  | returned (code : GrpcCode)
  deriving DecidableEq, Repr

/-- `peerServer.Forward` on pod `pod` for a relay that public connection `conn` opened; `reply` is
the frame it has sent back. -/
structure PeerForward where
  conn : Nat
  pod : Nat
  pc : PeerPc := .recvOpen
  session : Option ForwardSession := none
  reply : Option Tunnel.FrameType := none
  deriving DecidableEq, Repr

inductive PeerLabel where
  | recvOpen
  | recvErr
  | ctxDone
  | get (found : Bool)
  | expect
  | send (err : Option GoError)
  | receive
  | timeout
  | reply (err : Option GrpcCode)
  | splice
  | spliced
  | finish
  | cancel
  deriving DecidableEq, Repr

inductive AgentPc where
  | recv
  | deliver
  | put
  | wait
  | returned
  deriving DecidableEq, Repr

/-- `impl.Forward` for one stream; `waiter` is what `deliver` found in the table. -/
structure AgentForward where
  pod : Nat
  pc : AgentPc := .recv
  first : Option Tunnel.Frame := none
  waiter : Option Nat := none
  deriving DecidableEq, Repr

inductive AgentLabel where
  | recv (f : Tunnel.Frame)
  | recvErr
  | take
  | put
  | done
  | ctxDone
  deriving DecidableEq, Repr

structure OpenForward where
  conn : Nat
  agentId : String
  sessionId : String
  target : String
  deriving DecidableEq, Repr

inductive Effect where
  | none
  | generate (sessionId : String) (conn : Nat)
  | expect (w : Waiter)
  | cancel (w : Nat)
  | receive (w : Nat)
  | send (o : OpenForward)
  | splice (stream conn : Nat)
  | closeDone (stream : Nat)
  | openPeer (conn pod : Nat)
  | request (q : Nat) (f : Tunnel.Frame)
  | take (pod : Nat) (sessionId : String)
  | put (w : Nat) (session : ForwardSession)
  deriving DecidableEq, Repr

/-- The configuration of a pod; without `peers` it does not forward across pods. -/
structure ForwardPod where
  addr : String
  peers : Bool := true
  deriving DecidableEq, Repr

/-- `inbox` holds what waits in a waiter's channel, `requests` the OPEN frame sent on a relay. The
fields from `generated` on record history: the session ids with the connection they were made for,
the commands sent, the agent streams spliced with a public connection and the sessions whose `done`
was closed. -/
structure Forwarding where
  pods : List ForwardPod
  sessions : Nat → SessionTable := fun _ => {}
  waiters : List Waiter := []
  inbox : Nat → Option ForwardSession := fun _ => none
  requests : Nat → Option Tunnel.Frame := fun _ => none
  conns : List PublicConn := []
  peers : List PeerForward := []
  agents : List AgentForward := []
  generated : List (String × Nat) := []
  sent : List OpenForward := []
  splices : List (Nat × Nat) := []
  closed : List Nat := []

def openFrame (sessionId agentId target : String) : Tunnel.Frame :=
  { sessionId := sessionId, type := .open, openRequest := some ⟨agentId, target⟩ }

/-- `GetOpen().GetAgentId()` and `GetOpen().GetTarget()`, which are empty on nil. -/
def openAgentId (f : Tunnel.Frame) : String := (f.openRequest.map (·.agentId)).getD ""
def openTarget (f : Tunnel.Frame) : String := (f.openRequest.map (·.target)).getD ""

/-- The checks of `receiveAndValidateOpenFrame`. -/
def validOpen (f : Tunnel.Frame) : Bool :=
  f.type = .open && f.sessionId != "" && openAgentId f != "" && openTarget f != ""

namespace PublicConn

def abort (c : PublicConn) (failure : Option ForwardFailure) (pc : HandlerPc) : PublicConn :=
  { c with pc := pc, resets := c.resets + 1, failures := c.failures ++ failure.toList }

def forwardErr (c : PublicConn) (attempt : Nat) (code : GrpcCode) : PublicConn :=
  if code = .failedPrecondition ∧ attempt = 0 then { c with pc := .locate 1 }
  else c.abort (some .remoteOpen) .done

def startSplice (c : PublicConn) (w : Option Nat) : PublicConn :=
  { c with pc := .splice w, endpoint := some (.init true []) }

def stepSetup (s : Forwarding) (k : Nat) (c : PublicConn) : HandlerLabel → Option (PublicConn × Effect)
  | .lookup r =>
    match c.pc with
    | .lookup =>
      match r with
      | .ok m =>
        let c := { c with mapping := m }
        some (if m.suspended then c.abort (some .portSuspended) .done else { c with pc := .get },
          .none)
      | .error err =>
        let failure := if err.is errPortNotFound then ForwardFailure.portNotFound else .lookup
        some (c.abort (some failure) .done, .none)
    | _ => none
  | .get found =>
    match c.pc with
    | .get =>
      if found then some ({ c with pc := .newSession }, .none)
      else if (s.pods[c.pod]?).any (·.peers) then some ({ c with pc := .locate 0 }, .none)
      else some (c.abort (some .crossPodDisabled) .done, .none)
    | _ => none
  | .sessionId r =>
    match c.pc, r with
    | .newSession, .ok sid => some ({ c with pc := .expect sid }, .generate sid k)
    | .newPeerSession attempt addr, .ok sid =>
      some ({ c with pc := .connect attempt addr sid }, .generate sid k)
    | .newSession, .error _ | .newPeerSession _ _, .error _ =>
      some (c.abort (some .sessionId) .done, .none)
    | _, _ => none
  | _ => none

def stepLocal (s : Forwarding) (k : Nat) (c : PublicConn) : HandlerLabel → Option (PublicConn × Effect)
  | .expect =>
    match c.pc with
    | .expect sid => some ({ c with pc := .send sid s.waiters.length }, .expect ⟨c.pod, sid, k⟩)
    | _ => none
  | .send err =>
    match c.pc with
    | .send sid w =>
      some (if err.isNone then { c with pc := .wait w } else c.abort (some .sendCommand) (.cancel w),
        .send ⟨k, c.mapping.agentId, sid, c.mapping.target⟩)
    | _ => none
  | .receive =>
    match c.pc with
    | .wait w =>
      (s.inbox w).map fun session => ({ c with pc := .paired w, session := some session }, .receive w)
    | _ => none
  | .timeout =>
    match c.pc with
    | .wait w => some (c.abort (some .pairTimeout) (.cancel w), .none)
    | _ => none
  | .ctxDone =>
    match c.pc with
    | .wait w => some (c.abort none (.cancel w), .none)
    | _ => none
  | .paired =>
    match c.pc, c.session with
    | .paired w, some session =>
      -- the agent could not reach the target
      if session.first.type = .reset then
        some (c.abort (some .agentReject) (.cancel w), .closeDone session.stream)
      else some (c.startSplice (some w), .splice session.stream k)
    | _, _ => none
  | .cancel =>
    match c.pc with
    | .cancel w => some ({ c with pc := .done }, .cancel w)
    | _ => none
  | _ => none

/-- `handleRemote` with `peerClients.forward`. gRPC itself never makes up a FAILED_PRECONDITION, so
a receive that fails in transit fails with another code. -/
def stepRemote (s : Forwarding) (k : Nat) (c : PublicConn) : HandlerLabel → Option (PublicConn × Effect)
  | .locate r =>
    match c.pc with
    | .locate attempt =>
      match r with
      | .error _ => some (c.abort (some .locateHolder) .done, .none)
      | .ok addr =>
        if addr = "" then some (c.abort (some .holderUnavailable) .done, .none)
        else if (s.pods[c.pod]?).any (·.addr = addr) then
          some (c.abort (some .holderSelf) .done, .none)
        else some ({ c with pc := .newPeerSession attempt addr }, .none)
    | _ => none
  | .connect r =>
    match c.pc with
    | .connect attempt addr sid =>
      match r with
      | .error code => some (c.forwardErr attempt code, .none)
      | .ok pod =>
        if (s.pods[pod]?).any (·.addr = addr) then
          some ({ c with pc := .sendOpen attempt s.peers.length sid }, .openPeer k pod)
        else none
    | _ => none
  | .sendOpen err =>
    match c.pc with
    | .sendOpen attempt q sid =>
      match err with
      | some code => some (c.forwardErr attempt code, .none)
      | none => some ({ c with pc := .recvReply attempt q },
          .request q (openFrame sid c.mapping.agentId c.mapping.target))
    | _ => none
  | .recvReply =>
    match c.pc with
    | .recvReply _ q =>
      ((s.peers[q]?).bind (·.reply)).map fun type =>
        (if type = .ready then { c.startSplice none with relay := some q }
          else c.abort (some .remoteOpen) .done, .none)
    | _ => none
  | .recvStatus =>
    match c.pc with
    | .recvReply attempt q =>
      (s.peers[q]?).bind fun p => match p.pc with
        | .returned code => some (c.forwardErr attempt code, .none)
        | _ => none
    | _ => none
  | .recvErr code =>
    match c.pc with
    | .recvReply attempt _ =>
      if code = .failedPrecondition then none else some (c.forwardErr attempt code, .none)
    | _ => none
  | _ => none

def stepSplice (c : PublicConn) : HandlerLabel → Option (PublicConn × Effect)
  | .splice l =>
    match c.pc, c.endpoint with
    | .splice _, some e => (e.step l).map fun e => ({ c with endpoint := some e }, .none)
    | _, _ => none
  | .spliced =>
    match c.pc, c.endpoint.bind (·.result) with
    | .splice w, some err =>
      let failures := if err.isSome then c.failures ++ [.splice] else c.failures
      match w, c.session with
      | some w, some session =>
        some ({ c with pc := .cancel w, failures := failures }, .closeDone session.stream)
      | some _, none => none
      | none, _ => some ({ c with pc := .done, failures := failures }, .none)
    | _, _ => none
  | _ => none

def step (s : Forwarding) (k : Nat) (c : PublicConn) : HandlerLabel → Option (PublicConn × Effect)
  | l@(.lookup _) | l@(.get _) | l@(.sessionId _) => c.stepSetup s k l
  | l@(.locate _) | l@(.connect _) | l@(.sendOpen _) | l@.recvReply | l@.recvStatus
  | l@(.recvErr _) => c.stepRemote s k l
  | l@(.splice _) | l@.spliced => c.stepSplice l
  | l => c.stepLocal s k l

end PublicConn

namespace PeerForward

def step (s : Forwarding) (q : Nat) (p : PeerForward) : PeerLabel → Option (PeerForward × Effect)
  | .recvOpen =>
    match p.pc with
    | .recvOpen => (s.requests q).map fun f =>
        ({ p with pc := if validOpen f then .get f else .returned .invalidArgument }, .none)
    | _ => none
  | .recvErr =>
    match p.pc with
    | .recvOpen => some ({ p with pc := .returned .invalidArgument }, .none)
    | _ => none
  | .ctxDone =>
    match p.pc with
    | .recvOpen => some ({ p with pc := .returned .canceled }, .none)
    | .wait w => some ({ p with pc := .cancel w .canceled }, .none)
    | _ => none
  | .get found =>
    match p.pc with
    | .get f =>
      some ({ p with pc := if found then .expect f else .returned .failedPrecondition }, .none)
    | _ => none
  | .expect =>
    match p.pc with
    | .expect f =>
      some ({ p with pc := .send f s.waiters.length }, .expect ⟨p.pod, f.sessionId, p.conn⟩)
    | _ => none
  | .send err =>
    match p.pc with
    | .send f w =>
      let effect := Effect.send ⟨p.conn, openAgentId f, f.sessionId, openTarget f⟩
      match err with
      | none => some ({ p with pc := .wait w }, effect)
      | some err =>
        -- an error of the stream is not one of this package's
        if err.is errAgentDisconnected then none
        else
          let code : GrpcCode := if (sendErr (openAgentId f) err).is errAgentDisconnected
            then .failedPrecondition else .internal
          some ({ p with pc := .cancel w code }, effect)
    | _ => none
  | .receive =>
    match p.pc with
    | .wait w =>
      (s.inbox w).map fun session => ({ p with pc := .paired w, session := some session }, .receive w)
    | _ => none
  | .timeout =>
    match p.pc with
    | .recvOpen => some ({ p with pc := .returned .invalidArgument }, .none)
    | .wait w => some ({ p with pc := .cancel w .deadlineExceeded }, .none)
    | _ => none
  | .reply err =>
    match p.pc, p.session with
    | .paired w, some session =>
      match err with
      | some code =>
        if code = .failedPrecondition then none else some ({ p with pc := .finish w code }, .none)
      | none =>
        if session.first.type = .reset then
          some ({ p with pc := .finish w .ok, reply := some .reset }, .none)
        else some ({ p with pc := .ready w, reply := some .ready }, .none)
    | _, _ => none
  | .splice =>
    match p.pc, p.session with
    | .ready w, some session => some ({ p with pc := .splice w }, .splice session.stream p.conn)
    | _, _ => none
  | .spliced =>
    match p.pc with
    | .splice w => some ({ p with pc := .finish w .ok }, .none)
    | _ => none
  | .finish =>
    match p.pc, p.session with
    | .finish w code, some session => some ({ p with pc := .cancel w code }, .closeDone session.stream)
    | _, _ => none
  | .cancel =>
    match p.pc with
    | .cancel w code => some ({ p with pc := .returned code }, .cancel w)
    | _ => none

end PeerForward

namespace AgentForward

def validFirst (f : Tunnel.Frame) : Bool :=
  f.sessionId != "" && (f.type = .open || f.type = .reset)

def step (s : Forwarding) (j : Nat) (a : AgentForward) : AgentLabel → Option (AgentForward × Effect)
  | .recv f =>
    match a.pc with
    | .recv => some ({ a with
        first := some f
        pc := if validFirst f then .deliver else .returned }, .none)
    | _ => none
  | .recvErr =>
    match a.pc with
    | .recv => some ({ a with pc := .returned }, .none)
    | _ => none
  | .take =>
    match a.pc, a.first with
    | .deliver, some f =>
      match (s.sessions a.pod).waiters.get f.sessionId with
      | some w => some ({ a with pc := .put, waiter := some w }, .take a.pod f.sessionId)
      | none => some ({ a with pc := .returned }, .none)
    | _, _ => none
  | .put =>
    match a.pc, a.first, a.waiter with
    | .put, some f, some w =>
      -- the channel of a waiter holds one session
      if (s.inbox w).isNone then some ({ a with pc := .wait }, .put w ⟨j, f⟩)
      else some ({ a with pc := .returned }, .none)
    | _, _, _ => none
  | .done =>
    match a.pc with
    | .wait => if j ∈ s.closed then some ({ a with pc := .returned }, .none) else none
    | _ => none
  | .ctxDone =>
    match a.pc with
    | .recv | .wait => some ({ a with pc := .returned }, .none)
    | _ => none

end AgentForward

/-! ### The system -/

inductive ForwardLabel where
  | accept (pod : Nat)
  | arrive (pod : Nat)
  | conn (k : Nat) (l : HandlerLabel)
  | peer (q : Nat) (l : PeerLabel)
  | agent (j : Nat) (l : AgentLabel)

namespace Forwarding

def setSessions (s : Forwarding) (pod : Nat) (t : SessionTable) : Forwarding :=
  { s with sessions := Function.update s.sessions pod t }

def apply (s : Forwarding) : Effect → Forwarding
  | .none => s
  | .generate sid k => { s with generated := (sid, k) :: s.generated }
  | .expect w =>
    { s.setSessions w.pod ((s.sessions w.pod).expect w.sessionId s.waiters.length) with
      waiters := s.waiters ++ [w] }
  | .cancel w =>
    match s.waiters[w]? with
    | some wt => s.setSessions wt.pod ((s.sessions wt.pod).cancel wt.sessionId w)
    | none => s
  | .receive w => { s with inbox := Function.update s.inbox w none }
  | .send o => { s with sent := s.sent ++ [o] }
  | .splice j k => { s with splices := (j, k) :: s.splices }
  | .closeDone j => { s with closed := j :: s.closed }
  | .openPeer k pod => { s with peers := s.peers ++ [{ conn := k, pod := pod }] }
  | .request q f => { s with requests := Function.update s.requests q (some f) }
  | .take pod sid => s.setSessions pod ((s.sessions pod).remove sid)
  | .put w session => { s with inbox := Function.update s.inbox w (some session) }

def setConn (s : Forwarding) (k : Nat) (c : PublicConn) : Forwarding :=
  { s with conns := s.conns.set k c }

def setPeer (s : Forwarding) (q : Nat) (p : PeerForward) : Forwarding :=
  { s with peers := s.peers.set q p }

def setAgent (s : Forwarding) (j : Nat) (a : AgentForward) : Forwarding :=
  { s with agents := s.agents.set j a }

def step (s : Forwarding) : ForwardLabel → Option Forwarding
  | .accept pod =>
    if pod < s.pods.length then some { s with conns := s.conns ++ [{ pod := pod }] } else none
  | .arrive pod =>
    if pod < s.pods.length then some { s with agents := s.agents ++ [{ pod := pod }] } else none
  | .conn k l => (s.conns[k]?).bind fun c =>
      (c.step s k l).map fun r => (s.apply r.2).setConn k r.1
  | .peer q l => (s.peers[q]?).bind fun p =>
      (p.step s q l).map fun r => (s.apply r.2).setPeer q r.1
  | .agent j l => (s.agents[j]?).bind fun a =>
      (a.step s j l).map fun r => (s.apply r.2).setAgent j r.1

def init (pods : List ForwardPod) : Forwarding := { pods := pods }

def Fresh (s : Forwarding) : ForwardLabel → Prop
  | .conn _ (.sessionId (.ok sid)) => sid ∉ s.generated.map Prod.fst
  | _ => True

instance (s : Forwarding) (l : ForwardLabel) : Decidable (Fresh s l) :=
  match l with
  | .conn _ (.sessionId (.ok sid)) => inferInstanceAs (Decidable (sid ∉ s.generated.map Prod.fst))
  | .conn _ (.sessionId (.error _)) | .conn _ (.lookup _) | .conn _ (.get _) | .conn _ .expect
  | .conn _ (.send _) | .conn _ .receive | .conn _ .timeout | .conn _ .ctxDone | .conn _ .paired
  | .conn _ (.locate _) | .conn _ (.connect _) | .conn _ (.sendOpen _) | .conn _ .recvReply
  | .conn _ .recvStatus | .conn _ (.recvErr _) | .conn _ (.splice _) | .conn _ .spliced
  | .conn _ .cancel | .accept _ | .arrive _ | .peer _ _ | .agent _ _ =>
    inferInstanceAs (Decidable True)

theorem step_cases {s t : Forwarding} {l : ForwardLabel} (h : s.step l = some t) :
    (∃ pod, l = .accept pod ∧ t = { s with conns := s.conns ++ [{ pod := pod }] }) ∨
    (∃ pod, l = .arrive pod ∧ t = { s with agents := s.agents ++ [{ pod := pod }] }) ∨
    (∃ k hl c r, l = .conn k hl ∧ s.conns[k]? = some c ∧ c.step s k hl = some r ∧
      t = (s.apply r.2).setConn k r.1) ∨
    (∃ q pl p r, l = .peer q pl ∧ s.peers[q]? = some p ∧ p.step s q pl = some r ∧
      t = (s.apply r.2).setPeer q r.1) ∨
    ∃ j al a r, l = .agent j al ∧ s.agents[j]? = some a ∧ a.step s j al = some r ∧
      t = (s.apply r.2).setAgent j r.1 := by
  cases l with
  | accept pod =>
    simp only [step] at h
    split at h
    · exact .inl ⟨pod, rfl, (Option.some.inj h).symm⟩
    · cases h
  | arrive pod =>
    simp only [step] at h
    split at h
    · exact .inr (.inl ⟨pod, rfl, (Option.some.inj h).symm⟩)
    · cases h
  | conn k hl =>
    obtain ⟨c, hc, h⟩ := Option.bind_eq_some_iff.mp h
    obtain ⟨r, hr, rfl⟩ := Option.map_eq_some_iff.mp h
    exact .inr (.inr (.inl ⟨k, hl, c, r, rfl, hc, hr, rfl⟩))
  | peer q pl =>
    obtain ⟨p, hp, h⟩ := Option.bind_eq_some_iff.mp h
    obtain ⟨r, hr, rfl⟩ := Option.map_eq_some_iff.mp h
    exact .inr (.inr (.inr (.inl ⟨q, pl, p, r, rfl, hp, hr, rfl⟩)))
  | agent j al =>
    obtain ⟨a, ha, h⟩ := Option.bind_eq_some_iff.mp h
    obtain ⟨r, hr, rfl⟩ := Option.map_eq_some_iff.mp h
    exact .inr (.inr (.inr (.inr ⟨j, al, a, r, rfl, ha, hr, rfl⟩)))

end Forwarding
end Hostlink.Controller
