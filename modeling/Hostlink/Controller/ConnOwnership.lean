import Hostlink.Controller.Forwarding
import Hostlink.Controller.PeerRelay
import Hostlink.Tunnel.CloseDiscipline

/-! Who closes an accepted connection. `handleConn` is a function here of what everything it calls
comes back with, and its value is what it does to the connection, to the relay and to the metric, in
order and up to its return. -/

namespace List
variable {α : Type*} {p : α → Bool}

theorem mem_between {as bs xs ys zs : List α} {m a b : α} (hm : p m = false) (ha : p a = true)
    (hb : p b = true) (has : as.countP p ≤ 1) (hbs : bs.countP p ≤ 1)
    (h : as ++ m :: bs = xs ++ a :: (ys ++ b :: zs)) : m ∈ ys := by
  have hne : ∀ {x}, p x = true → m ≠ x := by
    rintro x hx rfl
    rw [hm] at hx
    cases hx
  rcases append_eq_append_iff.mp h with ⟨cs, rfl, hcs⟩ | ⟨cs, rfl, hcs⟩
  · -- both elements would be on the right
    rcases cons_eq_append_iff.mp hcs with ⟨-, heq⟩ | ⟨ds, -, rfl⟩
    · exact absurd (cons.inj heq).1.symm (hne ha)
    · simp only [countP_append, countP_cons_of_pos ha, countP_cons_of_pos hb] at hbs
      omega
  · rcases cons_eq_append_iff.mp hcs with ⟨-, heq⟩ | ⟨ds, rfl, hds⟩
    · exact absurd (cons.inj heq).1 (hne ha)
    · rcases append_eq_append_iff.mp hds with ⟨es, rfl, hes⟩ | ⟨es, rfl, hes⟩
      · -- both would be on the left
        rcases cons_eq_append_iff.mp hes with ⟨-, heq⟩ | ⟨fs, rfl, -⟩
        · exact absurd (cons.inj heq).1 (hne hb)
        · simp only [countP_append, countP_cons_of_pos ha, countP_cons_of_pos hb] at has
          omega
      · rcases cons_eq_append_iff.mp hes with ⟨-, heq⟩ | ⟨fs, rfl, -⟩
        · exact absurd (cons.inj heq).1.symm (hne hb)
        · exact mem_append_right _ mem_cons_self

end List

namespace Hostlink.Controller
open Tunnel (FrameType SpliceCall)

/-! ### What a connection meets -/

/-- A call of `SpliceConn` on the accepted connection that has returned `err`. -/
structure SplicedConn where
  labels : List Tunnel.ConnLabel
  call : SpliceCall
  err : Option GoError
  run : Lts.AnyRun SpliceCall.step (SpliceCall.init true) labels call
  returned : call.endpoint.result = some err

structure RpcError where
  code : UInt32
  err : GoError
  deriving DecidableEq, Repr

def codeFailedPrecondition : UInt32 := 9

def RpcError.normalize (e : RpcError) : GoError :=
  if e.code = codeFailedPrecondition then errAgentNotConnected else e.err

/-- What `peerClients.forward` meets: `conn`, the opening of the call, `Send` and `Recv`. -/
structure RelayOutcome where
  conn : Option GoError := none
  opened : Option RpcError := none
  sendOpen : Option RpcError := none
  recv : Except RpcError FrameType

inductive PairedWith where
  | session (first : FrameType)
  | timeout
  | ctxDone
  deriving DecidableEq, Repr

/-- `held` is whether the registry has the agent; the fields of `handleRemote` are by attempt. -/
structure ConnOutcomes where
  lookup : Except GoError PortMapping
  held : Bool
  sessionId : Except GoError String
  send : Option GoError
  paired : PairedWith
  locate : Nat → Except GoError String
  peerSessionId : Nat → Except GoError String
  relay : Nat → RelayOutcome
  splice : SplicedConn

/-- `forwarded` is the return of `peerClients.forward`, `openStream` the opening of its RPC. -/
inductive ConnEvent where
  | setLinger
  | close
  | splice (s : SplicedConn)
  | record (reason : ForwardFailure) (port : UInt32) (agentId peer : String)
  | expect (sessionId : String)
  | openForward (sessionId target : String)
  | closeDone
  | cancelWaiter (sessionId : String)
  | forward (addr : String)
  | openStream (addr : String)
  | sendOpen (sessionId agentId target : String)
  | closeSend
  | forwarded (err : Option GoError)

/-! ### The handler -/

/-- `peers` is whether the pod has `peerClients`. -/
structure Forwarder where
  selfAddr : String
  peers : Bool := true
  deriving DecidableEq, Repr

def rstClose : List ConnEvent := [.setLinger, .close]

def spliceConn (port : UInt32) (s : SplicedConn) (agentId peer : String) : List ConnEvent :=
  .splice s :: if s.err.isSome then [.record .splice port agentId peer] else []

namespace RelayOutcome

def recvErr : Except RpcError FrameType → Option GoError
  | .error e => some e.normalize
  | .ok .ready => none
  | .ok .reset => some errForwardReset
  | .ok type => some (.new ("unexpected peer forward readiness frame type " ++ type.name))

def readyErr (r : RelayOutcome) : Option GoError :=
  match r.sendOpen with
  | some e => some e.normalize
  | none => recvErr r.recv

def forward (r : RelayOutcome) (addr agentId target sessionId : String) :
    List ConnEvent × Option GoError :=
  match r.conn, r.opened with
  | some err, _ => ([], some err)
  | none, some e => ([], some e.normalize)
  | none, none =>
    (.openStream addr :: .sendOpen sessionId agentId target ::
      if r.readyErr.isSome then [.closeSend] else [], r.readyErr)

end RelayOutcome

namespace Forwarder

def paired (port : UInt32) (o : ConnOutcomes) (m : PortMapping) (first : FrameType) :
    List ConnEvent :=
  if first = .reset then .record .agentReject port m.agentId "" :: .closeDone :: rstClose
  else spliceConn port o.splice m.agentId "" ++ [.closeDone]

def await (port : UInt32) (o : ConnOutcomes) (m : PortMapping) : List ConnEvent :=
  match o.paired with
  | .session first => paired port o m first
  | .timeout => .record .pairTimeout port m.agentId "" :: rstClose
  | .ctxDone => rstClose

def sendCommand (port : UInt32) (o : ConnOutcomes) (m : PortMapping) : List ConnEvent :=
  match o.send with
  | some _ => .record .sendCommand port m.agentId "" :: rstClose
  | none => await port o m

def handleLocal (port : UInt32) (o : ConnOutcomes) (m : PortMapping) : List ConnEvent :=
  match o.sessionId with
  | .error _ => .record .sessionId port m.agentId "" :: rstClose
  | .ok sid => .expect sid :: .openForward sid m.target ::
    (sendCommand port o m ++ [.cancelWaiter sid])

/-- What the loop does after `peerClients.forward`; `retry` is the rest of the loop. -/
def afterForward (port : UInt32) (o : ConnOutcomes) (m : PortMapping) (attempt : Nat) (addr : String)
    (retry : List ConnEvent) : Option GoError → List ConnEvent
  | some err =>
    if err.is errAgentNotConnected ∧ attempt = 0 then retry
    else .record .remoteOpen port m.agentId addr :: rstClose
  | none => spliceConn port o.splice m.agentId addr ++ [.closeSend]

def openRelay (port : UInt32) (o : ConnOutcomes) (m : PortMapping) (attempt : Nat)
    (addr sid : String) (retry : List ConnEvent) : List ConnEvent :=
  let (events, err) := (o.relay attempt).forward addr m.agentId m.target sid
  .forward addr :: (events ++ .forwarded err :: afterForward port o m attempt addr retry err)

def located (port : UInt32) (o : ConnOutcomes) (m : PortMapping) (attempt : Nat) (addr : String)
    (retry : List ConnEvent) : List ConnEvent :=
  match o.peerSessionId attempt with
  | .error _ => .record .sessionId port m.agentId addr :: rstClose
  | .ok sid => openRelay port o m attempt addr sid retry

/-- The loop of `handleRemote`. A loop that runs out leaves the connection as it is. -/
def attempts (f : Forwarder) (port : UInt32) (o : ConnOutcomes) (m : PortMapping) :
    List Nat → List ConnEvent
  | [] => []
  | attempt :: rest =>
    match o.locate attempt with
    | .error _ => .record .locateHolder port m.agentId "" :: rstClose
    | .ok addr =>
      if addr = "" then .record .holderUnavailable port m.agentId "" :: rstClose
      else if addr = f.selfAddr then .record .holderSelf port m.agentId addr :: rstClose
      else located port o m attempt addr (f.attempts port o m rest)

def handleRemote (f : Forwarder) (port : UInt32) (o : ConnOutcomes) (m : PortMapping) :
    List ConnEvent :=
  if f.peers then f.attempts port o m [0, 1]
  else .record .crossPodDisabled port m.agentId "" :: rstClose

/-- `handleConn` up to its deferred function, and the variable `closed` that it leaves. -/
def serve (f : Forwarder) (port : UInt32) (o : ConnOutcomes) : Bool × List ConnEvent :=
  match o.lookup with
  | .error err =>
    (true, .record (if err.is errPortNotFound then .portNotFound else .lookup) port "" "" :: rstClose)
  | .ok m =>
    if m.suspended then (true, .record .portSuspended port m.agentId "" :: rstClose)
    else if o.held then (true, handleLocal port o m)
    else (true, f.handleRemote port o m)

/-- Nothing sets `handed`. -/
def handleConn (f : Forwarder) (port : UInt32) (o : ConnOutcomes) : List ConnEvent :=
  let handed := false
  let (closed, events) := f.serve port o
  events ++ if handed || closed then [] else [.close]

end Forwarder

/-! ### What is counted -/

namespace ConnEvent

def closes : ConnEvent → Nat
  | .close => 1
  | .splice s => s.call.endpoint.closes
  | _ => 0

def isRecord : ConnEvent → Bool
  | .record .. => true
  | _ => false

def isForward : ConnEvent → Bool
  | .forward _ => true
  | _ => false

def isOpenStream : ConnEvent → Bool
  | .openStream _ => true
  | _ => false

def totalCloses : List ConnEvent → Nat
  | [] => 0
  | e :: es => e.closes + totalCloses es

theorem totalCloses_append (as bs : List ConnEvent) :
    totalCloses (as ++ bs) = totalCloses as + totalCloses bs := by
  induction as with
  | nil => exact (Nat.zero_add _).symm
  | cons a as ih => rw [List.cons_append, totalCloses, totalCloses, ih, Nat.add_assoc]

end ConnEvent

open ConnEvent (totalCloses isRecord isForward isOpenStream)

theorem SplicedConn.closes_eq_one (s : SplicedConn) : s.call.endpoint.closes = 1 :=
  (SpliceCall.discipline_of_run s.run s.returned).1

structure Disposes (relays : Nat) (es : List ConnEvent) : Prop where
  closes : totalCloses es = 1
  records : es.countP isRecord ≤ 1
  relays : es.countP isForward ≤ relays
  streams : es.countP isOpenStream ≤ es.countP isForward

structure Untouched (es : List ConnEvent) : Prop where
  closes : totalCloses es = 0
  records : es.countP isRecord = 0
  streams : es.countP isOpenStream ≤ es.countP isForward

variable {as es : List ConnEvent} {n k : Nat}

theorem Disposes.after (h : Disposes n es) (has : Untouched as) (hk : as.countP isForward + n ≤ k) :
    Disposes k (as ++ es) where
  closes := by rw [ConnEvent.totalCloses_append, has.closes, h.closes]
  records := by
    rw [List.countP_append, has.records, Nat.zero_add]
    exact h.records
  relays := by
    rw [List.countP_append]
    exact (Nat.add_le_add_left h.relays _).trans hk
  streams := by
    rw [List.countP_append, List.countP_append]
    exact Nat.add_le_add has.streams h.streams

theorem Disposes.before (h : Disposes n es) (has : Untouched as) (hnone : as.countP isForward = 0) :
    Disposes n (es ++ as) where
  closes := by rw [ConnEvent.totalCloses_append, has.closes, h.closes]
  records := by
    rw [List.countP_append, has.records]
    exact h.records
  relays := by
    rw [List.countP_append, hnone]
    exact h.relays
  streams := by
    rw [List.countP_append, List.countP_append]
    exact Nat.add_le_add h.streams has.streams

theorem Disposes.mono (h : Disposes n es) (hk : n ≤ k) : Disposes k es :=
  ⟨h.closes, h.records, h.relays.trans hk, h.streams⟩

theorem disposes_rstClose : Disposes 0 rstClose := ⟨rfl, Nat.zero_le _, Nat.le_refl _, Nat.le_refl _⟩

theorem disposes_fail (reason : ForwardFailure) (port : UInt32) (agentId peer : String) :
    Disposes 0 (.record reason port agentId peer :: rstClose) :=
  ⟨rfl, Nat.le_refl _, Nat.le_refl _, Nat.le_refl _⟩

theorem disposes_spliceConn (port : UInt32) (s : SplicedConn) (agentId peer : String) :
    Disposes 0 (spliceConn port s agentId peer) := by
  have hone := s.closes_eq_one
  unfold spliceConn
  split
  · exact ⟨hone, Nat.le_refl _, Nat.le_refl _, Nat.le_refl _⟩
  · exact ⟨hone, Nat.zero_le _, Nat.le_refl _, Nat.le_refl _⟩

/-! ### The two paths -/

namespace Forwarder
variable {f : Forwarder} {port : UInt32} {o : ConnOutcomes} {m : PortMapping}

theorem disposes_paired (first : FrameType) : Disposes 0 (paired port o m first) := by
  unfold paired
  split
  · -- closing `done` comes between the count and the reset
    exact ⟨rfl, Nat.le_refl _, Nat.le_refl _, Nat.le_refl _⟩
  · exact (disposes_spliceConn ..).before ⟨rfl, rfl, Nat.le_refl _⟩ rfl

theorem disposes_sendCommand : Disposes 0 (sendCommand port o m) := by
  unfold sendCommand
  split
  · exact disposes_fail ..
  unfold await
  split
  · exact disposes_paired _
  · exact disposes_fail ..
  · exact disposes_rstClose

theorem disposes_handleLocal : Disposes 0 (handleLocal port o m) := by
  unfold handleLocal
  split
  · exact disposes_fail ..
  · next sid _ =>
    have hopened : Untouched [.expect sid, .openForward sid m.target] := ⟨rfl, rfl, Nat.le_refl _⟩
    have hcancelled : Untouched [.cancelWaiter sid] := ⟨rfl, rfl, Nat.le_refl _⟩
    exact (disposes_sendCommand.before hcancelled rfl).after hopened (Nat.le_refl _)

theorem untouched_forward (r : RelayOutcome) (addr agentId target sid : String) :
    Untouched (.forward addr :: (r.forward addr agentId target sid).1) ∧
      (ConnEvent.forward addr :: (r.forward addr agentId target sid).1).countP isForward = 1 := by
  unfold RelayOutcome.forward
  split
  · exact ⟨⟨rfl, rfl, Nat.zero_le _⟩, rfl⟩
  · exact ⟨⟨rfl, rfl, Nat.zero_le _⟩, rfl⟩
  · dsimp only
    split
    · exact ⟨⟨rfl, rfl, Nat.le_refl _⟩, rfl⟩
    · exact ⟨⟨rfl, rfl, Nat.le_refl _⟩, rfl⟩

theorem afterForward_cases (attempt : Nat) (addr : String) (retry : List ConnEvent)
    (err : Option GoError) :
    Disposes 0 (afterForward port o m attempt addr retry err) ∨
    attempt = 0 ∧ ∃ cause, err = some cause ∧ cause.is errAgentNotConnected = true ∧
      afterForward port o m attempt addr retry err = retry := by
  rcases err with _ | cause
  · have hclosed : Untouched [.closeSend] := ⟨rfl, rfl, Nat.le_refl _⟩
    exact .inl ((disposes_spliceConn ..).before hclosed rfl)
  · rw [afterForward]
    split
    · next hretry => exact .inr ⟨hretry.2, cause, rfl, hretry.1, rfl⟩
    · exact .inl (disposes_fail ..)

theorem openRelay_cases (attempt : Nat) (addr sid : String) (retry : List ConnEvent) :
    Disposes 1 (openRelay port o m attempt addr sid retry) ∨
    attempt = 0 ∧ ∃ as err, err.is errAgentNotConnected = true ∧ Untouched as ∧
      as.countP isForward = 1 ∧ openRelay port o m attempt addr sid retry =
        as ++ .forwarded (some err) :: retry := by
  obtain ⟨hopened, hone⟩ := untouched_forward (o.relay attempt) addr m.agentId m.target sid
  unfold openRelay
  generalize (o.relay attempt).forward addr m.agentId m.target sid = r at hopened hone ⊢
  obtain ⟨events, err⟩ := r
  rcases afterForward_cases attempt addr retry err with hlast | ⟨h0, cause, rfl, hcause, hretry⟩
  · have hreturned : Untouched [.forwarded err] := ⟨rfl, rfl, Nat.le_refl _⟩
    exact .inl ((hlast.after hreturned (Nat.le_refl _)).after hopened (Nat.le_of_eq hone))
  · refine .inr ⟨h0, _, cause, hcause, hopened, hone, ?_⟩
    dsimp only
    rw [hretry]
    rfl

theorem attempts_cons (attempt : Nat) (rest : List Nat) :
    Disposes 1 (f.attempts port o m (attempt :: rest)) ∨
    attempt = 0 ∧ ∃ as err, err.is errAgentNotConnected = true ∧ Untouched as ∧
      as.countP isForward = 1 ∧ f.attempts port o m (attempt :: rest) =
        as ++ .forwarded (some err) :: f.attempts port o m rest := by
  have hfail : ∀ reason peer, Disposes 1 (.record reason port m.agentId peer :: rstClose) :=
    fun reason peer => (disposes_fail reason port m.agentId peer).mono (Nat.zero_le _)
  rw [attempts]
  split
  · exact .inl (hfail _ _)
  split
  · exact .inl (hfail _ _)
  split
  · exact .inl (hfail _ _)
  unfold located
  split
  · exact .inl (hfail _ _)
  · exact openRelay_cases ..

def RetriesOnce (es : List ConnEvent) : Prop :=
  ∀ as bs cs first second, es = as ++ .forward first :: (bs ++ .forward second :: cs) →
    ∃ err, ConnEvent.forwarded (some err) ∈ bs ∧ err.is errAgentNotConnected = true

theorem retriesOnce_of_le_one (h : es.countP isForward ≤ 1) : RetriesOnce es := by
  rintro as bs cs first second rfl
  rw [List.countP_append, List.countP_cons_of_pos rfl, List.countP_append,
    List.countP_cons_of_pos rfl] at h
  omega

theorem handleRemote_spec :
    Disposes 2 (f.handleRemote port o m) ∧ RetriesOnce (f.handleRemote port o m) := by
  unfold handleRemote
  split
  · rcases attempts_cons 0 [1] with hlast | ⟨-, as, err, herr, has, hone, heq⟩
    · exact ⟨hlast.mono (Nat.le_succ _), retriesOnce_of_le_one hlast.relays⟩
    · -- the second attempt never goes on
      have hlast : Disposes 1 (f.attempts port o m [1]) :=
        (attempts_cons 1 []).resolve_right fun h => absurd h.1 Nat.one_ne_zero
      have hreturned : Untouched [.forwarded (some err)] := ⟨rfl, rfl, Nat.le_refl _⟩
      have hsecond : Disposes 1 (.forwarded (some err) :: f.attempts port o m [1]) :=
        hlast.after hreturned (Nat.le_refl _)
      rw [heq]
      refine ⟨hsecond.after has (by rw [hone]), ?_⟩
      intro xs ys zs first second hsplit
      exact ⟨err, List.mem_between rfl rfl rfl (Nat.le_of_eq hone) hlast.relays hsplit, herr⟩
  · have hfail := disposes_fail .crossPodDisabled port m.agentId ""
    exact ⟨hfail.mono (Nat.zero_le _), retriesOnce_of_le_one (hfail.relays.trans (Nat.zero_le _))⟩

theorem serve_spec (f : Forwarder) (port : UInt32) (o : ConnOutcomes) :
    (f.serve port o).1 = true ∧ Disposes 2 (f.serve port o).2 ∧ RetriesOnce (f.serve port o).2 := by
  have hfew : ∀ {es}, Disposes 0 es → Disposes 2 es ∧ RetriesOnce es := fun h =>
    ⟨h.mono (Nat.zero_le _), retriesOnce_of_le_one (h.relays.trans (Nat.zero_le _))⟩
  unfold serve
  split
  · exact ⟨rfl, hfew (disposes_fail ..)⟩
  split
  · exact ⟨rfl, hfew (disposes_fail ..)⟩
  split
  · exact ⟨rfl, hfew disposes_handleLocal⟩
  · exact ⟨rfl, handleRemote_spec⟩

theorem handleConn_eq_serve : f.handleConn port o = (f.serve port o).2 := by
  have hclosed : (f.serve port o).1 = true := (serve_spec f port o).1
  unfold handleConn
  dsimp only
  rw [hclosed, Bool.false_or, if_pos rfl, List.append_nil]

/-- Whatever an accepted connection meets, it is closed exactly once by the time `handleConn`
returns, at most two relays are opened for it, the second only after the first one failed with
`errAgentNotConnected`, and at most one failure is counted. -/
theorem owned_by_handleConn (f : Forwarder) (port : UInt32) (o : ConnOutcomes) :
    totalCloses (f.handleConn port o) = 1 ∧
      (f.handleConn port o).countP isForward ≤ 2 ∧
      (f.handleConn port o).countP isOpenStream ≤ (f.handleConn port o).countP isForward ∧
      (∀ as bs cs first second,
        f.handleConn port o = as ++ .forward first :: (bs ++ .forward second :: cs) →
        ∃ err, ConnEvent.forwarded (some err) ∈ bs ∧ err.is errAgentNotConnected = true) ∧
      (f.handleConn port o).countP isRecord ≤ 1 := by
  obtain ⟨-, hdisposes, hretry⟩ := serve_spec f port o
  rw [handleConn_eq_serve]
  exact ⟨hdisposes.closes, hdisposes.relays, hdisposes.streams, hretry, hdisposes.records⟩

/-- The first holder has lost the agent, the second one is ready, and the splice is reset. -/
theorem owned_by_handleConn_retry : ∃ (o : ConnOutcomes) (as bs cs : List ConnEvent) (err : GoError),
    let es := (⟨"10.0.0.1", true⟩ : Forwarder).handleConn 8080 o
    es = as ++ .forward "10.0.0.2" :: (bs ++ .forward "10.0.0.3" :: cs) ∧
      .forwarded (some err) ∈ bs ∧ err.is errAgentNotConnected = true ∧
      totalCloses es = 1 ∧ es.countP isRecord = 1 := by
  let call := (Lts.exec SpliceCall.step (.init true) [.read [1] (some .eof), .sendUp none,
    .recv .reset, .sendUp none, .failDown none none, .ret none]).get (by decide +kernel)
  have hrun := Lts.anyRun_of_exec (t := call) (Option.some_get _).symm
  have hreturned : call.endpoint.result = some (some Tunnel.errReset) := by decide +kernel
  let o : ConnOutcomes :=
    { lookup := .ok ⟨"agent", "127.0.0.1:80", "", false⟩, held := false, sessionId := .ok "a",
      send := none, paired := .timeout,
      locate := fun attempt => .ok (if attempt = 0 then "10.0.0.2" else "10.0.0.3"),
      peerSessionId := fun _ => .ok "b",
      relay := fun attempt =>
        if attempt = 0 then { recv := .error ⟨9, .new "not held"⟩ } else { recv := .ok .ready },
      splice := ⟨_, call, _, hrun, hreturned⟩ }
  obtain ⟨hcloses, -, -, hretry, -⟩ := owned_by_handleConn ⟨"10.0.0.1", true⟩ 8080 o
  let bs : List ConnEvent := [.openStream "10.0.0.2", .sendOpen "b" "agent" "127.0.0.1:80",
    .closeSend, .forwarded (some errAgentNotConnected)]
  have hevents : (⟨"10.0.0.1", true⟩ : Forwarder).handleConn 8080 o =
      [] ++ .forward "10.0.0.2" :: (bs ++ .forward "10.0.0.3" ::
        ((⟨"10.0.0.1", true⟩ : Forwarder).handleConn 8080 o).drop 6) := rfl
  obtain ⟨err, hmem, herr⟩ := hretry _ _ _ _ _ hevents
  exact ⟨o, [], bs, _, err, hevents, hmem, herr, hcloses, rfl⟩

end Forwarder
end Hostlink.Controller
