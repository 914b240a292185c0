import Hostlink.Controller.Forwarding

/-! What a step of `handleConn` or of `peerServer.Forward` can do, as one relation each. -/

namespace Hostlink.Controller
open Forwarding

variable {s : Forwarding}

/-! ### `handleConn` -/

inductive HandlerStep (s : Forwarding) (k : Nat) (c : PublicConn) (l : HandlerLabel) :
    PublicConn × Effect → Prop
  | abort (failure : Option ForwardFailure) : HandlerStep s k c l (c.abort failure .done, .none)
  | abortWait (failure : Option ForwardFailure) (w : Nat) :
      HandlerStep s k c l (c.abort failure (.cancel w), .none)
  | suspended (m : PortMapping) (hpc : c.pc = .lookup) :
      HandlerStep s k c l (({ c with mapping := m }).abort (some .portSuspended) .done, .none)
  | lookup (m : PortMapping) (hpc : c.pc = .lookup) :
      HandlerStep s k c l ({ c with mapping := m, pc := .get }, .none)
  | held (hpc : c.pc = .get) : HandlerStep s k c l ({ c with pc := .newSession }, .none)
  | notHeld (hpc : c.pc = .get) : HandlerStep s k c l ({ c with pc := .locate 0 }, .none)
  | session (sid : String) (hl : l = .sessionId (.ok sid)) (hpc : c.pc = .newSession) :
      HandlerStep s k c l ({ c with pc := .expect sid }, .generate sid k)
  | peerSession (attempt : Nat) (addr sid : String) (hl : l = .sessionId (.ok sid))
      (hpc : c.pc = .newPeerSession attempt addr) :
      HandlerStep s k c l ({ c with pc := .connect attempt addr sid }, .generate sid k)
  | expect (sid : String) (hpc : c.pc = .expect sid) :
      HandlerStep s k c l ({ c with pc := .send sid s.waiters.length }, .expect ⟨c.pod, sid, k⟩)
  | send (sid : String) (w : Nat) (hpc : c.pc = .send sid w) :
      HandlerStep s k c l ({ c with pc := .wait w },
        .send ⟨k, c.mapping.agentId, sid, c.mapping.target⟩)
  | sendErr (sid : String) (w : Nat) (hpc : c.pc = .send sid w) :
      HandlerStep s k c l (c.abort (some .sendCommand) (.cancel w),
        .send ⟨k, c.mapping.agentId, sid, c.mapping.target⟩)
  | receive (w : Nat) (session : ForwardSession) (hpc : c.pc = .wait w)
      (hsession : s.inbox w = some session) :
      HandlerStep s k c l ({ c with pc := .paired w, session := some session }, .receive w)
  | reject (w : Nat) (session : ForwardSession) (hpc : c.pc = .paired w) :
      HandlerStep s k c l (c.abort (some .agentReject) (.cancel w), .closeDone session.stream)
  | splice (w : Nat) (session : ForwardSession) (hpc : c.pc = .paired w)
      (hsession : c.session = some session) (hfirst : session.first.type ≠ .reset) :
      HandlerStep s k c l (c.startSplice (some w), .splice session.stream k)
  | cancel (w : Nat) (hpc : c.pc = .cancel w) :
      HandlerStep s k c l ({ c with pc := .done }, .cancel w)
  | locate (attempt : Nat) (addr : String) (hpc : c.pc = .locate attempt) :
      HandlerStep s k c l ({ c with pc := .newPeerSession attempt addr }, .none)
  | connect (attempt pod : Nat) (addr sid : String) (hpc : c.pc = .connect attempt addr sid) :
      HandlerStep s k c l ({ c with pc := .sendOpen attempt s.peers.length sid }, .openPeer k pod)
  | connectErr (attempt : Nat) (addr sid : String) (code : GrpcCode)
      (hpc : c.pc = .connect attempt addr sid) :
      HandlerStep s k c l (c.forwardErr attempt code, .none)
  | sendOpen (attempt q : Nat) (sid : String) (hpc : c.pc = .sendOpen attempt q sid) :
      HandlerStep s k c l ({ c with pc := .recvReply attempt q },
        .request q (openFrame sid c.mapping.agentId c.mapping.target))
  | sendOpenErr (attempt q : Nat) (sid : String) (code : GrpcCode)
      (hpc : c.pc = .sendOpen attempt q sid) :
      HandlerStep s k c l (c.forwardErr attempt code, .none)
  | ready (attempt q : Nat) (p : PeerForward) (hpc : c.pc = .recvReply attempt q)
      (hp : s.peers[q]? = some p) (hreply : p.reply = some .ready) :
      HandlerStep s k c l ({ c.startSplice none with relay := some q }, .none)
  | status (attempt q : Nat) (p : PeerForward) (code : GrpcCode)
      (hpc : c.pc = .recvReply attempt q) (hp : s.peers[q]? = some p)
      (hcode : p.pc = .returned code) : HandlerStep s k c l (c.forwardErr attempt code, .none)
  | recvErr (attempt q : Nat) (code : GrpcCode) (hpc : c.pc = .recvReply attempt q)
      (hcode : code ≠ .failedPrecondition) :
      HandlerStep s k c l (c.forwardErr attempt code, .none)
  | copy (w : Option Nat) (e e' : Tunnel.Endpoint) (hpc : c.pc = .splice w)
      (he : c.endpoint = some e) : HandlerStep s k c l ({ c with endpoint := some e' }, .none)
  | spliced (w : Nat) (session : ForwardSession) (failures : List ForwardFailure)
      (hpc : c.pc = .splice (some w)) :
      HandlerStep s k c l ({ c with pc := .cancel w, failures := failures },
        .closeDone session.stream)
  | relayed (failures : List ForwardFailure) (hpc : c.pc = .splice none) :
      HandlerStep s k c l ({ c with pc := .done, failures := failures }, .none)

namespace PublicConn
variable {k : Nat} {c : PublicConn} {l : HandlerLabel} {r : PublicConn × Effect}

theorem stepSetup_cases (hr : c.stepSetup s k l = some r) : HandlerStep s k c l r := by
  cases l with
  | lookup res =>
    simp only [stepSetup] at hr
    split at hr
    · next hpc =>
      cases res with
      | ok m =>
        cases hr
        split
        · exact .suspended m hpc
        · exact .lookup m hpc
      | error err =>
        cases hr
        exact .abort _
    · cases hr
  | get found =>
    simp only [stepSetup] at hr
    split at hr
    · next hpc =>
      split at hr
      · cases hr
        exact .held hpc
      · split at hr
        · cases hr
          exact .notHeld hpc
        · cases hr
          exact .abort _
    · cases hr
  | sessionId res =>
    simp only [stepSetup] at hr
    split at hr
    · next sid hpc =>
      cases hr
      exact .session sid rfl hpc
    · next attempt addr sid hpc =>
      cases hr
      exact .peerSession attempt addr sid rfl hpc
    · cases hr
      exact .abort _
    · cases hr
      exact .abort _
    · cases hr
  | _ => cases hr

theorem stepLocal_cases (hr : c.stepLocal s k l = some r) : HandlerStep s k c l r := by
  cases l with
  | expect =>
    simp only [stepLocal] at hr
    split at hr
    · next sid hpc =>
      cases hr
      exact .expect sid hpc
    · cases hr
  | send err =>
    simp only [stepLocal] at hr
    split at hr
    · next sid w hpc =>
      cases hr
      split
      · exact .send sid w hpc
      · exact .sendErr sid w hpc
    · cases hr
  | receive =>
    simp only [stepLocal] at hr
    split at hr
    · next w hpc =>
      obtain ⟨session, hsession, rfl⟩ := Option.map_eq_some_iff.mp hr
      exact .receive w session hpc hsession
    · cases hr
  | timeout | ctxDone =>
    simp only [stepLocal] at hr
    split at hr
    · cases hr
      exact .abortWait _ _
    · cases hr
  | paired =>
    simp only [stepLocal] at hr
    split at hr
    · next w session hpc hsession =>
      split at hr
      · cases hr
        exact .reject w session hpc
      · next hfirst =>
        cases hr
        exact .splice w session hpc hsession hfirst
    · cases hr
  | cancel =>
    simp only [stepLocal] at hr
    split at hr
    · next w hpc =>
      cases hr
      exact .cancel w hpc
    · cases hr
  | _ => cases hr

theorem stepRemote_cases (hr : c.stepRemote s k l = some r) : HandlerStep s k c l r := by
  cases l with
  | locate res =>
    simp only [stepRemote] at hr
    split at hr
    · next attempt hpc =>
      cases res with
      | error err =>
        cases hr
        exact .abort _
      | ok addr =>
        dsimp only at hr
        split at hr
        · cases hr
          exact .abort _
        · split at hr
          · cases hr
            exact .abort _
          · cases hr
            exact .locate attempt addr hpc
    · cases hr
  | connect res =>
    simp only [stepRemote] at hr
    split at hr
    · next attempt addr sid hpc =>
      cases res with
      | error code =>
        cases hr
        exact .connectErr attempt addr sid code hpc
      | ok pod =>
        dsimp only at hr
        split at hr
        · cases hr
          exact .connect attempt pod addr sid hpc
        · cases hr
    · cases hr
  | sendOpen err =>
    simp only [stepRemote] at hr
    split at hr
    · next attempt q sid hpc =>
      cases err with
      | some code =>
        cases hr
        exact .sendOpenErr attempt q sid code hpc
      | none =>
        cases hr
        exact .sendOpen attempt q sid hpc
    · cases hr
  | recvReply =>
    simp only [stepRemote] at hr
    split at hr
    · next attempt q hpc =>
      obtain ⟨type, htype, rfl⟩ := Option.map_eq_some_iff.mp hr
      obtain ⟨p, hp, hreply⟩ := Option.bind_eq_some_iff.mp htype
      split
      · next hready =>
        subst hready
        exact .ready attempt q p hpc hp hreply
      · exact .abort _
    · cases hr
  | recvStatus =>
    simp only [stepRemote] at hr
    split at hr
    · next attempt q hpc =>
      obtain ⟨p, hp, hr⟩ := Option.bind_eq_some_iff.mp hr
      split at hr
      · next code hcode =>
        cases hr
        exact .status attempt q p code hpc hp hcode
      · cases hr
    · cases hr
  | recvErr code =>
    simp only [stepRemote] at hr
    split at hr
    · next attempt q hpc =>
      split at hr
      · cases hr
      · next hcode =>
        cases hr
        exact .recvErr attempt q code hpc hcode
    · cases hr
  | _ => cases hr

theorem stepSplice_cases (hr : c.stepSplice l = some r) : HandlerStep s k c l r := by
  cases l with
  | splice cl =>
    simp only [stepSplice] at hr
    split at hr
    · next w e hpc he =>
      obtain ⟨e', -, rfl⟩ := Option.map_eq_some_iff.mp hr
      exact .copy w e e' hpc he
    · cases hr
  | spliced =>
    simp only [stepSplice] at hr
    split at hr
    · next hpc _ =>
      split at hr
      · next w session _ =>
        cases hr
        exact .spliced w session _ hpc
      · cases hr
      · cases hr
        exact .relayed _ hpc
    · cases hr
  | _ => cases hr

theorem step_cases (hr : c.step s k l = some r) : HandlerStep s k c l r := by
  cases l with
  | lookup | get | sessionId => exact stepSetup_cases hr
  | expect | send | receive | timeout | ctxDone | paired | cancel => exact stepLocal_cases hr
  | locate | connect | sendOpen | recvReply | recvStatus | recvErr => exact stepRemote_cases hr
  | splice | spliced => exact stepSplice_cases hr

end PublicConn

/-! ### `peerServer.Forward` -/

inductive PeerStep (s : Forwarding) (q : Nat) (p : PeerForward) : PeerForward × Effect → Prop
  | recvOpen (f : Tunnel.Frame) (hpc : p.pc = .recvOpen) (hf : s.requests q = some f) :
      PeerStep s q p ({ p with pc := .get f }, .none)
  | recvErr (code : GrpcCode) (hpc : p.pc = .recvOpen) (hcode : code ≠ .failedPrecondition) :
      PeerStep s q p ({ p with pc := .returned code }, .none)
  | found (f : Tunnel.Frame) (hpc : p.pc = .get f) :
      PeerStep s q p ({ p with pc := .expect f }, .none)
  | refuse (f : Tunnel.Frame) (hpc : p.pc = .get f) :
      PeerStep s q p ({ p with pc := .returned .failedPrecondition }, .none)
  | expect (f : Tunnel.Frame) (hpc : p.pc = .expect f) :
      PeerStep s q p ({ p with pc := .send f s.waiters.length },
        .expect ⟨p.pod, f.sessionId, p.conn⟩)
  | send (f : Tunnel.Frame) (w : Nat) (hpc : p.pc = .send f w) :
      PeerStep s q p ({ p with pc := .wait w },
        .send ⟨p.conn, openAgentId f, f.sessionId, openTarget f⟩)
  | sendErr (f : Tunnel.Frame) (w : Nat) (code : GrpcCode) (hpc : p.pc = .send f w)
      (hcode : code ≠ .failedPrecondition) :
      PeerStep s q p ({ p with pc := .cancel w code },
        .send ⟨p.conn, openAgentId f, f.sessionId, openTarget f⟩)
  | stopWait (w : Nat) (code : GrpcCode) (hpc : p.pc = .wait w)
      (hcode : code ≠ .failedPrecondition) :
      PeerStep s q p ({ p with pc := .cancel w code }, .none)
  | receive (w : Nat) (session : ForwardSession) (hpc : p.pc = .wait w)
      (hsession : s.inbox w = some session) :
      PeerStep s q p ({ p with pc := .paired w, session := some session }, .receive w)
  | replyErr (w : Nat) (code : GrpcCode) (hpc : p.pc = .paired w)
      (hcode : code ≠ .failedPrecondition) :
      PeerStep s q p ({ p with pc := .finish w code }, .none)
  | reject (w : Nat) (hpc : p.pc = .paired w) :
      PeerStep s q p ({ p with pc := .finish w .ok, reply := some .reset }, .none)
  | ready (w : Nat) (session : ForwardSession) (hpc : p.pc = .paired w)
      (hsession : p.session = some session) (hfirst : session.first.type ≠ .reset) :
      PeerStep s q p ({ p with pc := .ready w, reply := some .ready }, .none)
  | splice (w : Nat) (session : ForwardSession) (hpc : p.pc = .ready w)
      (hsession : p.session = some session) :
      PeerStep s q p ({ p with pc := .splice w }, .splice session.stream p.conn)
  | spliced (w : Nat) (hpc : p.pc = .splice w) :
      PeerStep s q p ({ p with pc := .finish w .ok }, .none)
  | finish (w : Nat) (code : GrpcCode) (session : ForwardSession) (hpc : p.pc = .finish w code) :
      PeerStep s q p ({ p with pc := .cancel w code }, .closeDone session.stream)
  | cancel (w : Nat) (code : GrpcCode) (hpc : p.pc = .cancel w code) :
      PeerStep s q p ({ p with pc := .returned code }, .cancel w)

namespace PeerForward
variable {q : Nat} {p : PeerForward} {l : PeerLabel} {r : PeerForward × Effect}

theorem sendErr_not_disconnected {err : GoError} (agentId : String)
    (herr : ¬ err.is errAgentDisconnected = true) :
    (if (sendErr agentId err).is errAgentDisconnected then GrpcCode.failedPrecondition
      else .internal) ≠ .failedPrecondition := by
  simp [sendErr, GoError.is, errAgentDisconnected] at herr ⊢
  simp [herr]

theorem send_cases {err : Option GoError} (hr : p.step s q (.send err) = some r) : PeerStep s q p r := by
  simp only [step] at hr
  split at hr
  · next f w hpc =>
    cases err with
    | none =>
      cases hr
      exact .send f w hpc
    | some err =>
      dsimp only at hr
      split at hr
      · cases hr
      · next herr =>
        cases hr
        exact .sendErr f w _ hpc (sendErr_not_disconnected _ herr)
  · cases hr

theorem reply_cases {err : Option GrpcCode} (hr : p.step s q (.reply err) = some r) : PeerStep s q p r := by
  simp only [step] at hr
  split at hr
  · next w session hpc hsession =>
    cases err with
    | some code =>
      dsimp only at hr
      split at hr
      · cases hr
      · next hcode =>
        cases hr
        exact .replyErr w code hpc hcode
    | none =>
      dsimp only at hr
      split at hr
      · cases hr
        exact .reject w hpc
      · next hfirst =>
        cases hr
        exact .ready w session hpc hsession hfirst
  · cases hr

theorem step_cases (hr : p.step s q l = some r) : PeerStep s q p r := by
  cases l with
  | recvOpen =>
    simp only [step] at hr
    split at hr
    · next hpc =>
      obtain ⟨f, hf, rfl⟩ := Option.map_eq_some_iff.mp hr
      split
      · exact .recvOpen f hpc hf
      · exact .recvErr _ hpc (by decide)
    · cases hr
  | recvErr =>
    simp only [step] at hr
    split at hr
    · next hpc =>
      cases hr
      exact .recvErr _ hpc (by decide)
    · cases hr
  | ctxDone | timeout =>
    simp only [step] at hr
    split at hr
    · next hpc =>
      cases hr
      exact .recvErr _ hpc (by decide)
    · next w hpc =>
      cases hr
      exact .stopWait w _ hpc (by decide)
    · cases hr
  | get found =>
    simp only [step] at hr
    split at hr
    · next f hpc =>
      cases hr
      split
      · exact .found f hpc
      · exact .refuse f hpc
    · cases hr
  | expect =>
    simp only [step] at hr
    split at hr
    · next f hpc =>
      cases hr
      exact .expect f hpc
    · cases hr
  | send err => exact send_cases hr
  | receive =>
    simp only [step] at hr
    split at hr
    · next w hpc =>
      obtain ⟨session, hsession, rfl⟩ := Option.map_eq_some_iff.mp hr
      exact .receive w session hpc hsession
    · cases hr
  | reply err => exact reply_cases hr
  | splice =>
    simp only [step] at hr
    split at hr
    · next w session hpc hsession =>
      cases hr
      exact .splice w session hpc hsession
    · cases hr
  | spliced =>
    simp only [step] at hr
    split at hr
    · next w hpc =>
      cases hr
      exact .spliced w hpc
    · cases hr
  | finish =>
    simp only [step] at hr
    split at hr
    · next w code session hpc _ =>
      cases hr
      exact .finish w code session hpc
    · cases hr
  | cancel =>
    simp only [step] at hr
    split at hr
    · next w code hpc =>
      cases hr
      exact .cancel w code hpc
    · cases hr

end PeerForward
end Hostlink.Controller
