import Hostlink.Lib.Handoff
import Hostlink.Controller.ForwardingInv

/-! Who has to close `done` of an agent's Forward session: `deliver` hands the session over to the
handler that expects it, `handleLocal` or `peerServer.Forward`. Here is what a step of the system
does to that handover, as long as no handler gives up on a session that has found it. -/

namespace Hostlink.Controller
open Handoff (Stage)

inductive ForwardHandler where
  | conn (k : Nat)
  | peer (q : Nat)
  deriving DecidableEq, Repr

def PublicConn.stage (c : PublicConn) : Stage :=
  match c.pc, c.session with
  | .send _ w, _ | .wait w, _ => .waiting w
  | .paired w, some session | .splice (some w), some session => .holding w session.stream
  | .cancel w, _ => .leaving w
  | _, _ => .idle

def PeerForward.stage (p : PeerForward) : Stage :=
  match p.pc, p.session with
  | .send _ w, _ | .wait w, _ => .waiting w
  | .paired w, some session | .ready w, some session | .splice w, some session
  | .finish w _, some session => .holding w session.stream
  | .cancel w _, _ => .leaving w
  | _, _ => .idle

def HandlerLabel.givesUp : HandlerLabel → Bool
  | .timeout | .ctxDone | .send (some _) => true
  | _ => false

def PeerLabel.givesUp : PeerLabel → Bool
  | .timeout | .ctxDone | .send (some _) => true
  | _ => false

namespace Forwarding

def stage (s : Forwarding) : ForwardHandler → Stage
  | .conn k => ((s.conns[k]?).map PublicConn.stage).getD .idle
  | .peer q => ((s.peers[q]?).map PeerForward.stage).getD .idle

def returned (s : Forwarding) : ForwardHandler → Bool
  | .conn k => (s.conns[k]?).any (·.pc = .done)
  | .peer q => (s.peers[q]?).any fun p => match p.pc with
    | .returned _ => true
    | _ => false

def registered (s : Forwarding) : Set Nat :=
  { w | ∃ wt, s.waiters[w]? = some wt ∧ (s.sessions wt.pod).waiters.get wt.sessionId = some w }

def isMatched (s : Forwarding) (w : Nat) : Bool := s.agents.any (·.waiter = some w)

def isLeaving (s : Forwarding) (w : Nat) : Bool :=
  s.conns.any (·.stage = .leaving w) || s.peers.any (·.stage = .leaving w)

def lookup (s : Forwarding) (a : AgentForward) : Option Nat :=
  a.first.bind fun f => (s.sessions a.pod).waiters.get f.sessionId

/-- A handler gives up only on a waiter that is not matched, and no stream is matched with the
waiter of one that has given up. -/
def careful (s : Forwarding) : ForwardLabel → Bool
  | .conn k l => !l.givesUp || (s.stage (.conn k)).waiter.all fun w => !s.isMatched w
  | .peer q l => !l.givesUp || (s.stage (.peer q)).waiter.all fun w => !s.isMatched w
  | .agent j .take => ((s.agents[j]?).bind s.lookup).all fun w => !s.isLeaving w
  | _ => true

end Forwarding

/-! ### The system with its history -/

/-- `owners` has the handler that called `expect` for each waiter, `delivered` the waiters and
streams for which `deliver` returned true. -/
structure ForwardHistory where
  sys : Forwarding
  owners : List ForwardHandler := []
  delivered : List (Nat × Nat) := []

def ForwardLabel.handler : ForwardLabel → Option ForwardHandler
  | .conn k _ => some (.conn k)
  | .peer q _ => some (.peer q)
  | _ => none

namespace ForwardHistory

def delivers (s : Forwarding) : ForwardLabel → List (Nat × Nat)
  | .agent j .put =>
    (((s.agents[j]?).bind (·.waiter)).filter fun w => (s.inbox w).isNone).toList.map (·, j)
  | _ => []

def step (t : ForwardHistory) (l : ForwardLabel) : Option ForwardHistory :=
  (t.sys.step l).map fun s =>
    { sys := s
      owners := t.owners ++ if t.sys.waiters.length < s.waiters.length then l.handler.toList else []
      delivered := delivers t.sys l ++ t.delivered }

def init (pods : List ForwardPod) : ForwardHistory := { sys := .init pods }

def handoff (t : ForwardHistory) : Handoff.State ForwardHandler where
  stage := t.sys.stage
  owners := t.owners
  registered := t.sys.registered
  found := fun j => (t.sys.agents[j]?).bind (·.waiter)
  pending := { j | ∃ a, t.sys.agents[j]? = some a ∧ a.pc = .put }
  inbox := fun w => (t.sys.inbox w).map (·.stream)
  released := t.sys.closed
  delivered := t.delivered

structure Ok (t : ForwardHistory) : Prop where
  length : t.owners.length = t.sys.waiters.length
  sessions : ∀ (pod w : Nat) (sid : String), (t.sys.sessions pod).waiters.get sid = some w →
    ∃ k, t.sys.waiters[w]? = some ⟨pod, sid, k⟩
  agents : ∀ (j : Nat) (a : AgentForward), t.sys.agents[j]? = some a →
    a.pc = .recv ∨ a.pc = .deliver → a.waiter = none

end ForwardHistory

/-! ### What a step does to the stage of a handler -/

def Effect.isPlain : Effect → Bool
  | .none | .generate _ _ | .send _ | .splice _ _ | .openPeer _ _ | .request _ _ => true
  | _ => false

inductive StageMove (s : Forwarding) (givesUp : Bool) (x : Stage) : Stage → Effect → Prop
  | keep (e : Effect) (he : e.isPlain = true) : StageMove s givesUp x x e
  | expect (wt : Waiter) (hx : x = .idle) :
      StageMove s givesUp x (.waiting s.waiters.length) (.expect wt)
  | giveUp (w : Nat) (e : Effect) (he : e.isPlain = true) (hx : x = .waiting w)
      (hgives : givesUp = true) : StageMove s givesUp x (.leaving w) e
  | receive (w : Nat) (session : ForwardSession) (hx : x = .waiting w)
      (hinbox : s.inbox w = some session) :
      StageMove s givesUp x (.holding w session.stream) (.receive w)
  | closeDone (w j : Nat) (hx : x = .holding w j) :
      StageMove s givesUp x (.leaving w) (.closeDone j)
  | cancel (w : Nat) (hx : x = .leaving w) : StageMove s givesUp x .idle (.cancel w)

theorem StageMove.idle {s : Forwarding} {givesUp : Bool} {x y : Stage} {e : Effect}
    (he : e.isPlain = true) (hx : x = .idle) (hy : y = .idle) : StageMove s givesUp x y e := by
  rw [hx, hy]
  exact .keep e he

namespace PublicConn
variable {s : Forwarding} {k : Nat} {c : PublicConn} {l : HandlerLabel} {r : PublicConn × Effect}

theorem stage_of_pc {pc : HandlerPc} (hpc : c.pc = pc) :
    c.stage = ({ c with pc := pc } : PublicConn).stage := by
  rw [← hpc]

theorem stage_forwardErr (c : PublicConn) (attempt : Nat) (code : GrpcCode) :
    (c.forwardErr attempt code).stage = .idle := by
  unfold forwardErr
  split <;> rfl

theorem stepSetup_stage (hr : c.stepSetup s k l = some r) :
    StageMove s l.givesUp c.stage r.1.stage r.2 := by
  cases l with
  | lookup res =>
    simp only [stepSetup] at hr
    split at hr
    · next hpc =>
      cases res with
      | ok m =>
        cases hr
        refine .idle rfl (stage_of_pc hpc) ?_
        split <;> rfl
      | error err =>
        cases hr
        exact .idle rfl (stage_of_pc hpc) rfl
    · cases hr
  | get found =>
    simp only [stepSetup] at hr
    split at hr
    · next hpc =>
      have hidle : c.stage = .idle := stage_of_pc hpc
      split at hr
      · cases hr
        exact .idle rfl hidle rfl
      · split at hr
        · cases hr
          exact .idle rfl hidle rfl
        · cases hr
          exact .idle rfl hidle rfl
    · cases hr
  | sessionId res =>
    simp only [stepSetup] at hr
    split at hr
    · next hpc =>
      cases hr
      exact .idle rfl (stage_of_pc hpc) rfl
    · next hpc =>
      cases hr
      exact .idle rfl (stage_of_pc hpc) rfl
    · next hpc =>
      cases hr
      exact .idle rfl (stage_of_pc hpc) rfl
    · next hpc =>
      cases hr
      exact .idle rfl (stage_of_pc hpc) rfl
    · cases hr
  | _ => cases hr

theorem stepLocal_stage (hr : c.stepLocal s k l = some r) :
    StageMove s l.givesUp c.stage r.1.stage r.2 := by
  cases l with
  | expect =>
    simp only [stepLocal] at hr
    split at hr
    · next sid hpc =>
      cases hr
      exact .expect _ (stage_of_pc hpc)
    · cases hr
  | send err =>
    simp only [stepLocal] at hr
    split at hr
    · next sid w hpc =>
      have hwaits : c.stage = .waiting w := stage_of_pc hpc
      cases hr
      cases err with
      | none =>
        rw [hwaits]
        exact .keep _ rfl
      | some err => exact .giveUp w _ rfl hwaits rfl
    · cases hr
  | receive =>
    simp only [stepLocal] at hr
    split at hr
    · next w hpc =>
      obtain ⟨session, hsession, rfl⟩ := Option.map_eq_some_iff.mp hr
      exact .receive w session (stage_of_pc hpc) hsession
    · cases hr
  | timeout | ctxDone =>
    simp only [stepLocal] at hr
    split at hr
    · next w hpc =>
      cases hr
      exact .giveUp w _ rfl (stage_of_pc hpc) rfl
    · cases hr
  | paired =>
    simp only [stepLocal] at hr
    split at hr
    · next w session hpc hsession =>
      have hholds : c.stage = .holding w session.stream := by
        rw [stage_of_pc hpc, stage, hsession]
      split at hr
      · cases hr
        exact .closeDone w session.stream hholds
      · cases hr
        have hstays : (c.startSplice (some w)).stage = c.stage := by
          rw [hholds, stage, startSplice, hsession]
        rw [hstays]
        exact .keep _ rfl
    · cases hr
  | cancel =>
    simp only [stepLocal] at hr
    split at hr
    · next w hpc =>
      cases hr
      exact .cancel w (stage_of_pc hpc)
    · cases hr
  | _ => cases hr

theorem stepRemote_stage (hr : c.stepRemote s k l = some r) :
    StageMove s l.givesUp c.stage r.1.stage r.2 := by
  cases l with
  | locate res =>
    simp only [stepRemote] at hr
    split at hr
    · next hpc =>
      have hidle : c.stage = .idle := stage_of_pc hpc
      cases res with
      | error err =>
        cases hr
        exact .idle rfl hidle rfl
      | ok addr =>
        dsimp only at hr
        split at hr
        · cases hr
          exact .idle rfl hidle rfl
        · split at hr
          · cases hr
            exact .idle rfl hidle rfl
          · cases hr
            exact .idle rfl hidle rfl
    · cases hr
  | connect res =>
    simp only [stepRemote] at hr
    split at hr
    · next hpc =>
      have hidle : c.stage = .idle := stage_of_pc hpc
      cases res with
      | error code =>
        cases hr
        exact .idle rfl hidle (c.stage_forwardErr _ code)
      | ok pod =>
        dsimp only at hr
        split at hr
        · cases hr
          exact .idle rfl hidle rfl
        · cases hr
    · cases hr
  | sendOpen err =>
    simp only [stepRemote] at hr
    split at hr
    · next hpc =>
      have hidle : c.stage = .idle := stage_of_pc hpc
      cases err with
      | some code =>
        cases hr
        exact .idle rfl hidle (c.stage_forwardErr _ code)
      | none =>
        cases hr
        exact .idle rfl hidle rfl
    · cases hr
  | recvReply =>
    simp only [stepRemote] at hr
    split at hr
    · next hpc =>
      obtain ⟨type, -, rfl⟩ := Option.map_eq_some_iff.mp hr
      refine .idle rfl (stage_of_pc hpc) ?_
      split <;> rfl
    · cases hr
  | recvStatus =>
    simp only [stepRemote] at hr
    split at hr
    · next hpc =>
      obtain ⟨p, -, hr⟩ := Option.bind_eq_some_iff.mp hr
      split at hr
      · cases hr
        exact .idle rfl (stage_of_pc hpc) (c.stage_forwardErr _ _)
      · cases hr
    · cases hr
  | recvErr code =>
    simp only [stepRemote] at hr
    split at hr
    · next hpc =>
      split at hr
      · cases hr
      · cases hr
        exact .idle rfl (stage_of_pc hpc) (c.stage_forwardErr _ code)
    · cases hr
  | _ => cases hr

theorem stepSplice_stage (hr : c.stepSplice l = some r) :
    StageMove s l.givesUp c.stage r.1.stage r.2 := by
  cases l with
  | splice cl =>
    simp only [stepSplice] at hr
    split at hr
    · obtain ⟨e, -, rfl⟩ := Option.map_eq_some_iff.mp hr
      exact .keep _ rfl
    · cases hr
  | spliced =>
    simp only [stepSplice] at hr
    split at hr
    · next hpc _ =>
      split at hr
      · next w session hsession =>
        cases hr
        exact .closeDone w session.stream (by rw [stage_of_pc hpc, stage, hsession])
      · cases hr
      · cases hr
        exact .idle rfl (stage_of_pc hpc) rfl
    · cases hr
  | _ => cases hr

theorem step_stage (hr : c.step s k l = some r) :
    StageMove s l.givesUp c.stage r.1.stage r.2 := by
  cases l with
  | lookup | get | sessionId => exact stepSetup_stage (k := k) hr
  | expect | send | receive | timeout | ctxDone | paired | cancel => exact stepLocal_stage (k := k) hr
  | locate | connect | sendOpen | recvReply | recvStatus | recvErr => exact stepRemote_stage (k := k) hr
  | splice | spliced => exact stepSplice_stage hr

end PublicConn

namespace PeerForward
variable {s : Forwarding} {q : Nat} {p : PeerForward} {l : PeerLabel} {r : PeerForward × Effect}

theorem stage_of_pc {pc : PeerPc} (hpc : p.pc = pc) :
    p.stage = ({ p with pc := pc } : PeerForward).stage := by
  rw [← hpc]

theorem giveUp_stage (hl : l = .ctxDone ∨ l = .timeout) (hr : p.step s q l = some r) :
    StageMove s l.givesUp p.stage r.1.stage r.2 := by
  rcases hl with rfl | rfl
  all_goals
    simp only [step] at hr
    split at hr
    · next hpc =>
      cases hr
      exact .idle rfl (stage_of_pc hpc) rfl
    · next w hpc =>
      cases hr
      exact .giveUp w _ rfl (stage_of_pc hpc) rfl
    · cases hr

theorem send_stage {err : Option GoError} (hr : p.step s q (.send err) = some r) :
    StageMove s (PeerLabel.send err).givesUp p.stage r.1.stage r.2 := by
  simp only [step] at hr
  split at hr
  · next f w hpc =>
    have hwaits : p.stage = .waiting w := stage_of_pc hpc
    cases err with
    | none =>
      cases hr
      rw [hwaits]
      exact .keep _ rfl
    | some err =>
      dsimp only at hr
      split at hr
      · cases hr
      · cases hr
        exact .giveUp w _ rfl hwaits rfl
  · cases hr

theorem reply_stage {err : Option GrpcCode} (hr : p.step s q (.reply err) = some r) :
    StageMove s (PeerLabel.reply err).givesUp p.stage r.1.stage r.2 := by
  simp only [step] at hr
  split at hr
  · next w session hpc hsession =>
    have hholds : p.stage = .holding w session.stream := by
      rw [stage_of_pc hpc, stage, hsession]
    have hstays {p' : PeerForward} (hp' : p'.stage = .holding w session.stream) :
        StageMove s (PeerLabel.reply err).givesUp p.stage p'.stage .none := by
      rw [hholds, hp']
      exact .keep _ rfl
    cases err with
    | some code =>
      dsimp only at hr
      split at hr
      · cases hr
      · cases hr
        exact hstays (by rw [stage, hsession])
    | none =>
      dsimp only at hr
      split at hr
      · cases hr
        exact hstays (by rw [stage, hsession])
      · cases hr
        exact hstays (by rw [stage, hsession])
  · cases hr

theorem splicing_stage (hl : l = .splice ∨ l = .spliced ∨ l = .finish) (hr : p.step s q l = some r) :
    StageMove s l.givesUp p.stage r.1.stage r.2 := by
  rcases hl with rfl | rfl | rfl
  · simp only [step] at hr
    split at hr
    · next w session hpc hsession =>
      cases hr
      have hstays : ({ p with pc := .splice w } : PeerForward).stage = p.stage := by
        rw [stage_of_pc hpc, stage, stage, hsession]
      rw [hstays]
      exact .keep _ rfl
    · cases hr
  · simp only [step] at hr
    split at hr
    · next w hpc =>
      cases hr
      have hstays : ({ p with pc := .finish w .ok } : PeerForward).stage = p.stage := by
        rw [stage_of_pc hpc]
        cases p.session <;> rfl
      rw [hstays]
      exact .keep _ rfl
    · cases hr
  · simp only [step] at hr
    split at hr
    · next w code session hpc hsession =>
      cases hr
      exact .closeDone w session.stream (by rw [stage_of_pc hpc, stage, hsession])
    · cases hr

theorem opening_stage (hl : l = .recvOpen ∨ l = .recvErr ∨ ∃ found, l = .get found)
    (hr : p.step s q l = some r) : StageMove s l.givesUp p.stage r.1.stage r.2 := by
  rcases hl with rfl | rfl | ⟨found, rfl⟩
  · simp only [step] at hr
    split at hr
    · next hpc =>
      obtain ⟨f, -, rfl⟩ := Option.map_eq_some_iff.mp hr
      refine .idle rfl (stage_of_pc hpc) ?_
      dsimp only
      split <;> rfl
    · cases hr
  · simp only [step] at hr
    split at hr
    · next hpc =>
      cases hr
      exact .idle rfl (stage_of_pc hpc) rfl
    · cases hr
  · simp only [step] at hr
    split at hr
    · next hpc =>
      cases hr
      refine .idle rfl (stage_of_pc hpc) ?_
      dsimp only
      split <;> rfl
    · cases hr

theorem step_stage (hr : p.step s q l = some r) :
    StageMove s l.givesUp p.stage r.1.stage r.2 := by
  cases l with
  | recvOpen => exact opening_stage (.inl rfl) hr
  | recvErr => exact opening_stage (.inr (.inl rfl)) hr
  | get found => exact opening_stage (.inr (.inr ⟨found, rfl⟩)) hr
  | ctxDone => exact giveUp_stage (.inl rfl) hr
  | timeout => exact giveUp_stage (.inr rfl) hr
  | expect =>
    simp only [step] at hr
    split at hr
    · next hpc =>
      cases hr
      exact .expect _ (stage_of_pc hpc)
    · cases hr
  | send err => exact send_stage hr
  | receive =>
    simp only [step] at hr
    split at hr
    · next w hpc =>
      obtain ⟨session, hsession, rfl⟩ := Option.map_eq_some_iff.mp hr
      exact .receive w session (stage_of_pc hpc) hsession
    · cases hr
  | reply err => exact reply_stage hr
  | splice => exact splicing_stage (.inl rfl) hr
  | spliced => exact splicing_stage (.inr (.inl rfl)) hr
  | finish => exact splicing_stage (.inr (.inr rfl)) hr
  | cancel =>
    simp only [step] at hr
    split at hr
    · next w code hpc =>
      cases hr
      exact .cancel w (stage_of_pc hpc)
    · cases hr

end PeerForward
end Hostlink.Controller
