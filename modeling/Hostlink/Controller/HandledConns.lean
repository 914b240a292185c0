import Hostlink.Controller.ConnOwnership
import Hostlink.Controller.Pairing

/-! Every public connection of the forwarding system is a call of `handleConn`: whatever the other
connections, the relays and the agents do, there are outcomes for which the function does what the
connection has done. -/

namespace Hostlink.Controller
open Tunnel (FrameType SpliceCall)
open Forwarder

/-! ### What the system records of a connection -/

structure ConnSummary where
  resets : Nat := 0
  failures : List ForwardFailure := []
  splices : List Tunnel.Endpoint := []
  streams : Nat := 0
  deriving DecidableEq, Repr

namespace ConnSummary

def add (a : ConnSummary) : ConnEvent → ConnSummary
  | .close => { a with resets := a.resets + 1 }
  | .record reason _ _ _ => { a with failures := a.failures ++ [reason] }
  | .splice s => { a with splices := a.splices ++ [s.call.endpoint] }
  | .openStream _ => { a with streams := a.streams + 1 }
  | _ => a

def after (a : ConnSummary) (es : List ConnEvent) : ConnSummary := es.foldl add a

theorem after_append (a : ConnSummary) (es es' : List ConnEvent) :
    a.after (es ++ es') = (a.after es).after es' := List.foldl_append

def closes (a : ConnSummary) : Nat := a.splices.foldl (fun n e => n + e.closes) 0 + a.resets

theorem closes_add (a : ConnSummary) (e : ConnEvent) : (a.add e).closes = a.closes + e.closes := by
  cases e with
  | close => rfl
  | splice s =>
    simp only [closes, add, ConnEvent.closes, List.foldl_append, List.foldl_cons, List.foldl_nil]
    omega
  | setLinger | record | expect | openForward | closeDone | cancelWaiter | forward | openStream
  | sendOpen | closeSend | forwarded => rfl

theorem failures_add (a : ConnSummary) (e : ConnEvent) :
    (a.add e).failures.length = a.failures.length + [e].countP ConnEvent.isRecord := by
  cases e with
  | record => exact List.length_append
  | close | splice | setLinger | expect | openForward | closeDone | cancelWaiter | forward
  | openStream | sendOpen | closeSend | forwarded => rfl

theorem streams_add (a : ConnSummary) (e : ConnEvent) :
    (a.add e).streams = a.streams + [e].countP ConnEvent.isOpenStream := by
  cases e <;> rfl

theorem after_counts (a : ConnSummary) (es : List ConnEvent) :
    (a.after es).closes = a.closes + ConnEvent.totalCloses es ∧
      (a.after es).failures.length = a.failures.length + es.countP ConnEvent.isRecord ∧
      (a.after es).streams = a.streams + es.countP ConnEvent.isOpenStream := by
  induction es generalizing a with
  | nil => exact ⟨rfl, rfl, rfl⟩
  | cons e es ih =>
    obtain ⟨hcloses, hfailures, hstreams⟩ := ih (a.add e)
    rw [closes_add] at hcloses
    rw [failures_add] at hfailures
    rw [streams_add] at hstreams
    rw [← List.singleton_append, List.countP_append, List.countP_append]
    refine ⟨hcloses.trans (Nat.add_assoc ..), hfailures.trans (Nat.add_assoc ..),
      hstreams.trans (Nat.add_assoc ..)⟩

end ConnSummary

namespace ConnOutcomes

def setLocate (o : ConnOutcomes) (attempt : Nat) (r : Except GoError String) : ConnOutcomes :=
  { o with locate := Function.update o.locate attempt r }

def setSession (o : ConnOutcomes) (attempt : Nat) (r : Except GoError String) : ConnOutcomes :=
  { o with peerSessionId := Function.update o.peerSessionId attempt r }

def setRelay (o : ConnOutcomes) (attempt : Nat) (r : RelayOutcome) : ConnOutcomes :=
  { o with relay := Function.update o.relay attempt r }

end ConnOutcomes

namespace PublicConn

def summary (c : PublicConn) (relays : Nat) : ConnSummary where
  resets := c.resets
  failures := c.failures
  splices := match c.pc with
    | .splice _ => []
    | _ => c.endpoint.toList
  streams := relays

def retries (attempt : Nat) : List Nat := if attempt = 0 then [1] else []

/-- What is left of `handleConn`, but for the calls that the system records elsewhere. -/
def rest (f : Forwarder) (port : UInt32) (o : ConnOutcomes) (c : PublicConn) : List ConnEvent :=
  match c.pc with
  | .lookup => (f.serve port o).2
  | .get => if o.held then handleLocal port o c.mapping else f.handleRemote port o c.mapping
  | .newSession => handleLocal port o c.mapping
  | .expect _ | .send _ _ => sendCommand port o c.mapping
  | .wait _ => await port o c.mapping
  | .paired _ =>
    match c.session with
    | some session => paired port o c.mapping session.first.type
    | none => []
  | .locate attempt => f.attempts port o c.mapping (attempt :: retries attempt)
  | .newPeerSession attempt addr =>
    located port o c.mapping attempt addr (f.attempts port o c.mapping (retries attempt))
  | .connect attempt addr sid =>
    openRelay port o c.mapping attempt addr sid (f.attempts port o c.mapping (retries attempt))
  | .sendOpen attempt _ _ =>
    afterForward port o c.mapping attempt "" (f.attempts port o c.mapping (retries attempt))
      (o.relay attempt).readyErr
  | .recvReply attempt _ =>
    afterForward port o c.mapping attempt "" (f.attempts port o c.mapping (retries attempt))
      (RelayOutcome.recvErr (o.relay attempt).recv)
  | .splice _ => spliceConn port o.splice c.mapping.agentId ""
  | .cancel _ | .done => []

/-- A step of `c` is what some outcomes make `handleConn` do next. -/
def Follows (f : Forwarder) (port : UInt32) (c : PublicConn) (relays : Nat) (c' : PublicConn)
    (relays' : Nat) : Prop :=
  ∀ o, ∃ o', (c.summary relays).after (c.rest f port o') =
    (c'.summary relays').after (c'.rest f port o)

variable {s : Forwarding} {k relays : Nat} {c : PublicConn} {l : HandlerLabel}
  {r : PublicConn × Effect} {pod : ForwardPod} {port : UInt32}

theorem ne_of_mem_retries {attempt i : Nat} (h : i ∈ retries attempt) : i ≠ attempt := by
  unfold retries at h
  split at h
  · next h0 =>
    rw [h0, List.mem_singleton.mp h]
    exact Nat.one_ne_zero
  · cases h

theorem attempts_congr {f : Forwarder} {o o' : ConnOutcomes} {m : PortMapping} {as : List Nat}
    (hlocate : ∀ i ∈ as, o'.locate i = o.locate i)
    (hsession : ∀ i ∈ as, o'.peerSessionId i = o.peerSessionId i)
    (hrelay : ∀ i ∈ as, o'.relay i = o.relay i) (hsplice : o'.splice = o.splice) :
    f.attempts port o' m as = f.attempts port o m as := by
  induction as with
  | nil => rfl
  | cons a as ih =>
    have hrest := ih (fun i hi => hlocate i (List.mem_cons_of_mem a hi))
      (fun i hi => hsession i (List.mem_cons_of_mem a hi))
      (fun i hi => hrelay i (List.mem_cons_of_mem a hi))
    have hafter : ∀ addr retry, afterForward port o' m a addr retry =
        afterForward port o m a addr retry := by
      intro addr retry
      funext err
      rcases err with _ | err
      · rw [afterForward, afterForward, hsplice]
      · rfl
    rw [attempts, attempts, hlocate a List.mem_cons_self, hrest]
    simp only [located, openRelay, hsession a List.mem_cons_self, hrelay a List.mem_cons_self, hafter]

theorem attempts_setLocate {f : Forwarder} (o : ConnOutcomes) (m : PortMapping) (attempt : Nat)
    (r : Except GoError String) : f.attempts port (o.setLocate attempt r) m (retries attempt) =
      f.attempts port o m (retries attempt) :=
  attempts_congr (fun _ hi => Function.update_of_ne (ne_of_mem_retries hi) _ _) (fun _ _ => rfl)
    (fun _ _ => rfl) rfl

theorem attempts_setSession {f : Forwarder} (o : ConnOutcomes) (m : PortMapping) (attempt : Nat)
    (r : Except GoError String) : f.attempts port (o.setSession attempt r) m (retries attempt) =
      f.attempts port o m (retries attempt) :=
  attempts_congr (fun _ _ => rfl) (fun _ hi => Function.update_of_ne (ne_of_mem_retries hi) _ _)
    (fun _ _ => rfl) rfl

theorem attempts_setRelay {f : Forwarder} (o : ConnOutcomes) (m : PortMapping) (attempt : Nat)
    (r : RelayOutcome) : f.attempts port (o.setRelay attempt r) m (retries attempt) =
      f.attempts port o m (retries attempt) :=
  attempts_congr (fun _ _ => rfl) (fun _ _ => rfl)
    (fun _ hi => Function.update_of_ne (ne_of_mem_retries hi) _ _) rfl

theorem stepSetup_follows (hpod : s.pods[c.pod]? = some pod) (hr : c.stepSetup s k l = some r) :
    Follows ⟨pod.addr, pod.peers⟩ port c relays r.1
      (relays + r.2.newPeers.countP (·.conn = k)) := by
  unfold stepSetup at hr
  split at hr
  · next result =>
    split at hr
    · next hpc =>
      intro o
      refine ⟨{ o with lookup := result }, ?_⟩
      simp only [summary, rest, hpc]
      split at hr
      · next m =>
        obtain rfl := Option.some.inj hr
        simp only [serve]
        split
        · rfl
        · simp only [apply_ite Prod.snd]
          rfl
      · next err =>
        obtain rfl := Option.some.inj hr
        rfl
    · cases hr
  · next found =>
    split at hr
    · next hpc =>
      intro o
      refine ⟨{ o with held := found }, ?_⟩
      simp only [summary, rest, hpc]
      split at hr
      · next hfound =>
        obtain rfl := Option.some.inj hr
        rw [if_pos hfound]
        rfl
      · next hfound =>
        rw [if_neg hfound, handleRemote]
        rw [hpod, Option.any_some] at hr
        split at hr
        · next hpeers =>
          obtain rfl := Option.some.inj hr
          rw [if_pos hpeers]
          rfl
        · next hpeers =>
          obtain rfl := Option.some.inj hr
          rw [if_neg hpeers]
          rfl
    · cases hr
  · next result =>
    split at hr
    · next sid hpc =>
      obtain rfl := Option.some.inj hr
      intro o
      refine ⟨{ o with sessionId := .ok sid }, ?_⟩
      simp only [summary, rest, hpc, handleLocal]
      exact ConnSummary.after_append _ (sendCommand port o c.mapping) [.cancelWaiter sid]
    · next attempt addr sid hpc =>
      obtain rfl := Option.some.inj hr
      intro o
      refine ⟨o.setSession attempt (.ok sid), ?_⟩
      have hsid : (o.setSession attempt (.ok sid)).peerSessionId attempt = .ok sid :=
        Function.update_self ..
      simp only [summary, rest, hpc, located, hsid, attempts_setSession]
      rfl
    · next err hpc =>
      obtain rfl := Option.some.inj hr
      intro o
      refine ⟨{ o with sessionId := .error err }, ?_⟩
      simp only [summary, rest, hpc]
      rfl
    · next attempt addr err hpc =>
      obtain rfl := Option.some.inj hr
      intro o
      refine ⟨o.setSession attempt (.error err), ?_⟩
      have herr : (o.setSession attempt (.error err)).peerSessionId attempt = .error err :=
        Function.update_self ..
      simp only [summary, rest, hpc, located, herr]
      rfl
    · cases hr
  · cases hr

theorem stepLocal_follows {f : Forwarder} (hendpoint : c.pc.late = false → c.endpoint = none)
    (hr : c.stepLocal s k l = some r) :
    Follows f port c relays r.1 (relays + r.2.newPeers.countP (·.conn = k)) := by
  unfold stepLocal at hr
  split at hr
  · -- expect
    split at hr
    · next sid hpc =>
      obtain rfl := Option.some.inj hr
      intro o
      refine ⟨o, ?_⟩
      simp only [summary, rest, hpc]
      rfl
    · cases hr
  · next err =>
    split at hr
    · next sid w hpc =>
      obtain rfl := Option.some.inj hr
      intro o
      refine ⟨{ o with send := err }, ?_⟩
      simp only [summary, rest, hpc, sendCommand]
      rcases err with _ | err
      · rfl
      · rfl
    · cases hr
  · -- receive
    split at hr
    · next w hpc =>
      obtain ⟨session, -, rfl⟩ := Option.map_eq_some_iff.mp hr
      intro o
      refine ⟨{ o with paired := .session session.first.type }, ?_⟩
      simp only [summary, rest, hpc, await]
      rfl
    · cases hr
  · -- timeout
    split at hr
    · next w hpc =>
      obtain rfl := Option.some.inj hr
      intro o
      refine ⟨{ o with paired := .timeout }, ?_⟩
      simp only [summary, rest, hpc, await]
      rfl
    · cases hr
  · -- ctxDone
    split at hr
    · next w hpc =>
      obtain rfl := Option.some.inj hr
      intro o
      refine ⟨{ o with paired := .ctxDone }, ?_⟩
      simp only [summary, rest, hpc, await]
      simp only [abort, Option.toList_none, List.append_nil]
      rfl
    · cases hr
  · -- paired
    split at hr
    · next w session hpc hsession =>
      intro o
      refine ⟨o, ?_⟩
      simp only [summary, rest, hpc, hsession, paired]
      split at hr
      · next hreset =>
        obtain rfl := Option.some.inj hr
        rw [if_pos hreset]
        rfl
      · next hreset =>
        obtain rfl := Option.some.inj hr
        have hnone : c.endpoint = none := hendpoint (by rw [hpc]; rfl)
        rw [if_neg hreset, hnone]
        exact ConnSummary.after_append _ (spliceConn port o.splice c.mapping.agentId "") [.closeDone]
    · cases hr
  · -- cancel
    split at hr
    · next w hpc =>
      obtain rfl := Option.some.inj hr
      intro o
      refine ⟨o, ?_⟩
      simp only [summary, rest, hpc]
      rfl
    · cases hr
  · cases hr

/-! ### `handleRemote` -/

def rpcError (code : GrpcCode) : RpcError :=
  ⟨if code = .failedPrecondition then codeFailedPrecondition else 2, .new "rpc error"⟩

theorem rpcError_is (code : GrpcCode) :
    (rpcError code).normalize.is errAgentNotConnected = decide (code = .failedPrecondition) := by
  cases code <;> decide

theorem summary_of_early {relays : Nat} (h : c.pc.late = false) :
    c.summary relays = ⟨c.resets, c.failures, c.endpoint.toList, relays⟩ := by
  unfold summary
  split
  · next hpc =>
    rw [hpc] at h
    cases h
  · rfl

theorem after_forwardErr {f : Forwarder} (o : ConnOutcomes) (addr : String) (attempt : Nat)
    (code : GrpcCode) (hearly : c.pc.late = false) :
    (c.summary relays).after (afterForward port o c.mapping attempt addr
      (f.attempts port o c.mapping (retries attempt)) (some (rpcError code).normalize)) =
    ((c.forwardErr attempt code).summary relays).after ((c.forwardErr attempt code).rest f port o) := by
  rw [summary_of_early hearly, afterForward, rpcError_is, forwardErr]
  simp only [decide_eq_true_eq]
  split
  · next hretry =>
    rw [hretry.2]
    rfl
  · rfl

theorem recvErr_other {type : FrameType} (h : type ≠ .ready) :
    ∃ err, RelayOutcome.recvErr (.ok type) = some err ∧ err.is errAgentNotConnected = false := by
  have hunexpected : ∀ name : String, (GoError.new ("unexpected peer forward readiness frame type " ++
      name)).is errAgentNotConnected = false := by
    intro name
    refine decide_eq_false fun heq => ?_
    have hhead := congrArg (fun text => text.toList.head?) (GoError.new.inj heq)
    rw [String.toList_append] at hhead
    cases hhead
  cases type with
  | ready => exact absurd rfl h
  | reset => exact ⟨_, rfl, by decide⟩
  | data | halfClose | «open» | unknown code => exact ⟨_, rfl, hunexpected _⟩

theorem after_addr (a : ConnSummary) (o : ConnOutcomes) (m : PortMapping) (attempt : Nat)
    (addr : String) (retry : List ConnEvent) (err : Option GoError) :
    a.after (afterForward port o m attempt addr retry err) =
      a.after (afterForward port o m attempt "" retry err) := by
  rcases err with _ | err
  · simp only [afterForward, spliceConn]
    split
    · rfl
    · rfl
  · simp only [afterForward]
    split
    · rfl
    · rfl

theorem relay_setRelay (o : ConnOutcomes) (attempt : Nat) (r : RelayOutcome) :
    (o.setRelay attempt r).relay attempt = r := Function.update_self ..

theorem follows_recvErr {f : Forwarder} {attempt q : Nat} {code : GrpcCode}
    (hpc : c.pc = .recvReply attempt q) :
    Follows f port c relays (c.forwardErr attempt code) relays := by
  intro o
  refine ⟨o.setRelay attempt { o.relay attempt with recv := .error (rpcError code) }, ?_⟩
  simp only [rest, hpc, relay_setRelay, attempts_setRelay]
  exact after_forwardErr o "" attempt code (by rw [hpc]; rfl)

theorem locate_follows {result : Except GoError String} (hpod : s.pods[c.pod]? = some pod)
    (hr : c.stepRemote s k (.locate result) = some r) :
    Follows ⟨pod.addr, pod.peers⟩ port c relays r.1 (relays + r.2.newPeers.countP (·.conn = k)) := by
  simp only [stepRemote] at hr
  split at hr
  · next attempt hpc =>
    intro o
    refine ⟨o.setLocate attempt result, ?_⟩
    have hresult : (o.setLocate attempt result).locate attempt = result := Function.update_self ..
    cases result with
    | error err =>
      simp only [summary, rest, hpc, attempts, hresult]
      obtain rfl := Option.some.inj hr
      rfl
    | ok addr =>
      simp only [summary, rest, hpc, attempts, hresult, attempts_setLocate]
      simp only [hpod, Option.any_some, decide_eq_true_eq] at hr
      split at hr
      · next hempty =>
        obtain rfl := Option.some.inj hr
        rw [if_pos hempty]
        rfl
      · next hempty =>
        rw [if_neg hempty]
        split at hr
        · next hself =>
          obtain rfl := Option.some.inj hr
          rw [if_pos hself.symm]
          rfl
        · next hself =>
          obtain rfl := Option.some.inj hr
          rw [if_neg (Ne.symm hself)]
          rfl
  · cases hr

theorem connect_follows {result : Except GrpcCode Nat} (hr : c.stepRemote s k (.connect result) = some r) :
    Follows ⟨pod.addr, pod.peers⟩ port c relays r.1 (relays + r.2.newPeers.countP (·.conn = k)) := by
  simp only [stepRemote] at hr
  split at hr
  · next attempt addr sid hpc =>
    have hearly : c.pc.late = false := by rw [hpc]; rfl
    intro o
    cases result with
    | error code =>
      obtain rfl := Option.some.inj hr
      refine ⟨o.setRelay attempt { o.relay attempt with conn := none, opened := some (rpcError code) }, ?_⟩
      simp only [rest, hpc, openRelay, relay_setRelay, RelayOutcome.forward, attempts_setRelay]
      exact after_forwardErr o addr attempt code hearly
    | ok q =>
      dsimp only at hr
      split at hr
      · obtain rfl := Option.some.inj hr
        refine ⟨o.setRelay attempt { o.relay attempt with conn := none, opened := none }, ?_⟩
        simp only [rest, hpc, openRelay, relay_setRelay, RelayOutcome.forward, attempts_setRelay,
          summary_of_early hearly]
        have hone : (Effect.openPeer k q).newPeers.countP (·.conn = k) = 1 :=
          List.countP_cons_of_pos (decide_eq_true rfl)
        rw [hone]
        refine Eq.trans ?_ (after_addr _ o _ attempt addr _ _)
        split
        · rfl
        · rfl
      · cases hr
  · cases hr

theorem recvReply_follows (hendpoint : c.pc.late = false → c.endpoint = none)
    (hr : c.stepRemote s k .recvReply = some r) :
    Follows ⟨pod.addr, pod.peers⟩ port c relays r.1 (relays + r.2.newPeers.countP (·.conn = k)) := by
  simp only [stepRemote] at hr
  split at hr
  · next attempt q hpc =>
    have hearly : c.pc.late = false := by rw [hpc]; rfl
    obtain ⟨type, -, rfl⟩ := Option.map_eq_some_iff.mp hr
    intro o
    refine ⟨o.setRelay attempt { o.relay attempt with recv := .ok type }, ?_⟩
    simp only [rest, hpc, relay_setRelay, attempts_setRelay, summary_of_early hearly]
    by_cases htype : type = .ready
    · rw [if_pos htype, htype, hendpoint hearly]
      exact ConnSummary.after_append _ (spliceConn port o.splice c.mapping.agentId "") [.closeSend]
    · obtain ⟨err, herr, hother⟩ := recvErr_other htype
      rw [if_neg htype, herr, afterForward, hother, if_neg (by rintro ⟨⟨⟩, -⟩)]
      rfl
  · cases hr

theorem stepRemote_follows (hpod : s.pods[c.pod]? = some pod)
    (hendpoint : c.pc.late = false → c.endpoint = none) (hr : c.stepRemote s k l = some r) :
    Follows ⟨pod.addr, pod.peers⟩ port c relays r.1
      (relays + r.2.newPeers.countP (·.conn = k)) := by
  cases l with
  | locate result => exact locate_follows hpod hr
  | connect result => exact connect_follows hr
  | sendOpen err =>
    simp only [stepRemote] at hr
    split at hr
    · next attempt q sid hpc =>
      have hearly : c.pc.late = false := by rw [hpc]; rfl
      intro o
      refine ⟨o.setRelay attempt { o.relay attempt with sendOpen := err.map rpcError }, ?_⟩
      simp only [rest, hpc, relay_setRelay, RelayOutcome.readyErr, attempts_setRelay]
      cases err with
      | some code =>
        obtain rfl := Option.some.inj hr
        exact after_forwardErr o "" attempt code hearly
      | none =>
        obtain rfl := Option.some.inj hr
        rw [summary_of_early hearly]
        rfl
    · cases hr
  | recvReply => exact recvReply_follows hendpoint hr
  | recvStatus =>
    simp only [stepRemote] at hr
    split at hr
    · next attempt q hpc =>
      obtain ⟨p, -, hr⟩ := Option.bind_eq_some_iff.mp hr
      split at hr
      · next code hcode =>
        obtain rfl := Option.some.inj hr
        exact follows_recvErr hpc
      · cases hr
    · cases hr
  | recvErr code =>
    simp only [stepRemote] at hr
    split at hr
    · next attempt q hpc =>
      split at hr
      · cases hr
      · obtain rfl := Option.some.inj hr
        exact follows_recvErr hpc
    · cases hr
  | _ => cases hr

/-! ### `SpliceConn` -/

def InSplice (e : Tunnel.Endpoint) : Prop :=
  ∃ ls call, Lts.AnyRun SpliceCall.step (SpliceCall.init true) ls call ∧ call.endpoint = e

theorem InSplice.init : InSplice (.init true []) := ⟨[], .init true, .nil, rfl⟩

theorem InSplice.step {e e' : Tunnel.Endpoint} {l : Tunnel.ConnLabel} (h : InSplice e)
    (hstep : e.step l = some e') : InSplice e' := by
  obtain ⟨ls, call, hrun, rfl⟩ := h
  refine ⟨ls ++ [l], ⟨e', call.offered ++ call.endpoint.offers l⟩, .snoc hrun trivial ?_, rfl⟩
  exact Option.map_eq_some_iff.mpr ⟨e', Tunnel.Endpoint.stepAny_of_step hstep, rfl⟩

theorem stepSplice_follows {f : Forwarder} (hspliced : ∀ e, c.endpoint = some e → InSplice e)
    (hr : c.stepSplice l = some r) :
    Follows f port c relays r.1 (relays + r.2.newPeers.countP (·.conn = k)) := by
  unfold stepSplice at hr
  split at hr
  · split at hr
    · next w e hpc he =>
      obtain ⟨e', -, rfl⟩ := Option.map_eq_some_iff.mp hr
      intro o
      refine ⟨o, ?_⟩
      simp only [summary, rest, hpc]
      rfl
    · cases hr
  · split at hr
    · next w err hpc hresult =>
      obtain ⟨e, he, hresult⟩ := Option.bind_eq_some_iff.mp hresult
      obtain ⟨ls, call, hrun, rfl⟩ := hspliced e he
      intro o
      refine ⟨{ o with splice := ⟨ls, call, err, hrun, hresult⟩ }, ?_⟩
      have hafter : (c.summary relays).after (c.rest f port { o with
          splice := ⟨ls, call, err, hrun, hresult⟩ }) = ⟨c.resets,
          if err.isSome then c.failures ++ [.splice] else c.failures, [call.endpoint], relays⟩ := by
        simp only [summary, rest, hpc, spliceConn]
        split
        · rfl
        · rfl
      rw [hafter]
      generalize (if err.isSome then c.failures ++ [.splice] else c.failures) = failures at hr ⊢
      split at hr
      · obtain rfl := Option.some.inj hr
        simp only [summary, rest, he]
        rfl
      · cases hr
      · obtain rfl := Option.some.inj hr
        simp only [summary, rest, he]
        rfl
    · cases hr
  · cases hr

/-! ### Whole connections -/

/-- The connection has done what `handleConn` does for some outcomes, as far as it has come: the
outcomes of what is still to come are free. -/
structure Handled (c : PublicConn) (f : Forwarder) (port : UInt32) (relays : Nat) : Prop where
  handles : ∀ o, ∃ o', ({} : ConnSummary).after (f.handleConn port o') =
    (c.summary relays).after (c.rest f port o)
  early : c.pc.late = false → c.endpoint = none
  spliced : ∀ e, c.endpoint = some e → InSplice e

theorem step_part (hr : c.step s k l = some r) :
    c.stepSetup s k l = some r ∨ c.stepLocal s k l = some r ∨ c.stepRemote s k l = some r ∨
      c.stepSplice l = some r := by
  cases l with
  | lookup | get | sessionId => exact .inl hr
  | expect | send | receive | timeout | ctxDone | paired | cancel => exact .inr (.inl hr)
  | locate | connect | sendOpen | recvReply | recvStatus | recvErr => exact .inr (.inr (.inl hr))
  | splice | spliced => exact .inr (.inr (.inr hr))

theorem step_follows (hpod : s.pods[c.pod]? = some pod)
    (h : c.Handled ⟨pod.addr, pod.peers⟩ port relays) (hr : c.step s k l = some r) :
    Follows ⟨pod.addr, pod.peers⟩ port c relays r.1
      (relays + r.2.newPeers.countP (·.conn = k)) := by
  rcases step_part hr with hsetup | hlocal | hremote | hsplice
  · exact stepSetup_follows hpod hsetup
  · exact stepLocal_follows h.early hlocal
  · exact stepRemote_follows hpod h.early hremote
  · exact stepSplice_follows h.spliced hsplice

theorem forwardErr_endpoint (attempt : Nat) (code : GrpcCode) :
    (c.forwardErr attempt code).endpoint = c.endpoint := by
  unfold forwardErr
  split
  · rfl
  · rfl

theorem step_early (h : c.pc.late = false → c.endpoint = none) (hr : c.step s k l = some r)
    (hlate : r.1.pc.late = false) : r.1.endpoint = none := by
  cases step_cases hr with
  | abort | abortWait | suspended | sendErr | reject | splice | cancel | ready | spliced | relayed =>
    cases hlate
  | lookup _ hpc | held hpc | notHeld hpc | session _ _ hpc | peerSession _ _ _ _ hpc | expect _ hpc
  | send _ _ hpc | receive _ _ hpc | locate _ _ hpc | connect _ _ _ _ hpc | sendOpen _ _ _ hpc =>
    exact h (by rw [hpc]; rfl)
  | connectErr attempt _ _ code hpc | sendOpenErr attempt _ _ code hpc
  | status attempt _ _ code hpc | recvErr attempt _ code hpc =>
    exact (forwardErr_endpoint attempt code).trans (h (by rw [hpc]; rfl))
  | copy w e e' hpc he =>
    dsimp only at hlate
    rw [hpc] at hlate
    cases hlate

theorem step_of_splice {w : Option Nat} {e : Tunnel.Endpoint} (hpc : c.pc = .splice w)
    (he : c.endpoint = some e) (hr : c.step s k l = some r) :
    r.1.endpoint = some e ∨ ∃ l' e', e.step l' = some e' ∧ r.1.endpoint = some e' := by
  cases l with
  | splice l' =>
    simp only [PublicConn.step, stepSplice, hpc, he] at hr
    obtain ⟨e', hstep, rfl⟩ := Option.map_eq_some_iff.mp hr
    exact .inr ⟨l', e', hstep, rfl⟩
  | spliced =>
    simp only [PublicConn.step, stepSplice, hpc] at hr
    split at hr
    · next hresult =>
      split at hr
      · obtain rfl := Option.some.inj hr
        exact .inl he
      · cases hr
      · obtain rfl := Option.some.inj hr
        exact .inl he
    · cases hr
  | _ => simp [PublicConn.step, stepSetup, stepLocal, stepRemote, hpc] at hr

theorem step_spliced (h : ∀ e, c.endpoint = some e → InSplice e) (hr : c.step s k l = some r) :
    ∀ e, r.1.endpoint = some e → InSplice e := by
  cases step_cases hr with
  | splice | ready =>
    rintro e ⟨⟩
    exact .init
  | copy w e e' hpc he =>
    rcases step_of_splice hpc he hr with hsame | ⟨l', next, hstep, hnext⟩
    · intro e₁ he₁
      exact h e₁ (he.trans (hsame.symm.trans he₁))
    · intro e₁ he₁
      obtain rfl := Option.some.inj (hnext.symm.trans he₁)
      exact (h e he).step hstep
  | connectErr attempt _ _ code | sendOpenErr attempt _ _ code | status attempt _ _ code
  | recvErr attempt _ code =>
    rw [forwardErr_endpoint]
    exact h
  | abort | abortWait | suspended | lookup | held | notHeld | session | peerSession | expect | send
  | sendErr | receive | reject | cancel | locate | connect | sendOpen | spliced | relayed => exact h

theorem step_pod (hr : c.step s k l = some r) : r.1.pod = c.pod := by
  cases step_cases hr with
  | connectErr | sendOpenErr | status | recvErr =>
    unfold forwardErr
    split
    · rfl
    · rfl
  | _ => rfl

theorem Handled.step (hpod : s.pods[c.pod]? = some pod)
    (h : c.Handled ⟨pod.addr, pod.peers⟩ port relays) (hr : c.step s k l = some r) :
    r.1.Handled ⟨pod.addr, pod.peers⟩ port (relays + r.2.newPeers.countP (·.conn = k)) where
  handles := by
    intro o
    obtain ⟨o₁, hnext⟩ := step_follows hpod h hr o
    obtain ⟨o₂, hpast⟩ := h.handles o₁
    exact ⟨o₂, hpast.trans hnext⟩
  early := step_early h.early hr
  spliced := step_spliced h.spliced hr

theorem Handled.accepted (f : Forwarder) (pod : Nat) : ({ pod := pod } : PublicConn).Handled f port 0 where
  handles := by
    intro o
    refine ⟨o, ?_⟩
    rw [handleConn_eq_serve]
    rfl
  early := fun _ => rfl
  spliced := by rintro e ⟨⟩

end PublicConn

/-! ### The system -/

namespace Forwarding
variable {s t : Forwarding}

def relays (s : Forwarding) (k : Nat) : Nat := s.peers.countP (·.conn = k)

structure AllHandled (s : Forwarding) : Prop where
  peers : ∀ p ∈ s.peers, p.conn < s.conns.length
  conns : ∀ (k : Nat) (c : PublicConn), s.conns[k]? = some c → ∃ pod, s.pods[c.pod]? = some pod ∧
    ∀ port, c.Handled ⟨pod.addr, pod.peers⟩ port (s.relays k)

theorem pods_apply (s : Forwarding) (e : Effect) : (s.apply e).pods = s.pods := by
  cases e <;> simp only [apply] <;> try rfl
  split <;> rfl

theorem conn_newPeers {k : Nat} {c : PublicConn} {l : HandlerLabel} {r : PublicConn × Effect}
    (hr : c.step s k l = some r) : ∀ p ∈ r.2.newPeers, p.conn = k := by
  cases PublicConn.step_cases hr with
  | connect =>
    intro p hp
    rw [List.mem_singleton.mp hp]
  | _ => exact fun p hp => absurd hp List.not_mem_nil

theorem AllHandled.accept (h : s.AllHandled) {pod : Nat} (hpod : pod < s.pods.length) :
    AllHandled { s with conns := s.conns ++ [{ pod := pod }] } where
  peers := by
    intro p hp
    rw [List.length_append]
    exact Nat.lt_add_right _ (h.peers p hp)
  conns := by
    intro k c hc
    rcases List.getElem?_of_concat hc with hold | ⟨rfl, rfl⟩
    · exact h.conns k c hold
    · have hnone : s.relays s.conns.length = 0 := by
        refine List.countP_eq_zero.mpr fun p hp => ?_
        rw [decide_eq_true_eq]
        exact Nat.ne_of_lt (h.peers p hp)
      refine ⟨s.pods[pod], List.getElem?_eq_getElem hpod, fun port => ?_⟩
      have hrelays : relays { s with conns := s.conns ++ [{ pod := pod }] } s.conns.length = 0 := hnone
      rw [hrelays]
      exact .accepted _ pod

theorem AllHandled.conn (h : s.AllHandled) {k : Nat} {c : PublicConn} {l : HandlerLabel}
    {r : PublicConn × Effect} (hc : s.conns[k]? = some c) (hr : c.step s k l = some r) :
    ((s.apply r.2).setConn k r.1).AllHandled where
  peers := by
    intro p hp
    have hlen : ((s.apply r.2).setConn k r.1).conns.length = s.conns.length := by
      rw [setConn, List.length_set, conns_apply]
    have hp' : p ∈ s.peers ++ r.2.newPeers := by rwa [← peers_apply]
    rw [hlen]
    rcases List.mem_append.mp hp' with hold | hnew
    · exact h.peers p hold
    · rw [conn_newPeers hr p hnew]
      exact (List.getElem?_eq_some_iff.mp hc).1
  conns := by
    intro n d hd
    have hrelays : ((s.apply r.2).setConn k r.1).relays n =
        s.relays n + r.2.newPeers.countP (·.conn = n) := by
      rw [relays, setConn, peers_apply, List.countP_append]
      rfl
    have hpods : ((s.apply r.2).setConn k r.1).pods = s.pods := pods_apply s r.2
    rw [hrelays, hpods]
    have hd' : (s.conns.set k r.1)[n]? = some d := by rwa [setConn, conns_apply] at hd
    rcases List.getElem?_of_set hd' with ⟨hn, hold⟩ | ⟨rfl, rfl⟩
    · -- a relay is opened for the connection that takes the step
      have hnone : r.2.newPeers.countP (·.conn = n) = 0 := by
        refine List.countP_eq_zero.mpr fun p hp => ?_
        rw [decide_eq_true_eq, conn_newPeers hr p hp]
        exact Ne.symm hn
      rw [hnone]
      exact h.conns n d hold
    · obtain ⟨pod, hpod, hhandled⟩ := h.conns n c hc
      refine ⟨pod, ?_, fun port => (hhandled port).step hpod hr⟩
      rw [PublicConn.step_pod hr]
      exact hpod

theorem AllHandled.of_same (h : s.AllHandled) (hpods : t.pods = s.pods) (hconns : t.conns = s.conns)
    (hpeers : t.peers.map PeerForward.conn = s.peers.map PeerForward.conn) : t.AllHandled where
  peers := by
    intro p hp
    have hmem : p.conn ∈ s.peers.map PeerForward.conn := by
      rw [← hpeers]
      exact List.mem_map_of_mem hp
    obtain ⟨q, hq, hconn⟩ := List.mem_map.mp hmem
    rw [hconns, ← hconn]
    exact h.peers q hq
  conns := by
    intro k c hc
    have hrelays : t.relays k = s.relays k := by
      have hmap : ∀ u : Forwarding, u.relays k =
          (u.peers.map PeerForward.conn).countP (decide <| · = k) := by
        intro u
        rw [List.countP_map]
        rfl
      rw [hmap, hmap, hpeers]
    rw [hconns] at hc
    rw [hpods, hrelays]
    exact h.conns k c hc

theorem peer_newPeers {q : Nat} {p : PeerForward} {l : PeerLabel} {r : PeerForward × Effect}
    (hr : p.step s q l = some r) : r.1.conn = p.conn ∧ r.2.newPeers = [] := by
  cases PeerForward.step_cases hr <;> exact ⟨rfl, rfl⟩

theorem agent_newPeers {j : Nat} {a : AgentForward} {l : AgentLabel} {r : AgentForward × Effect}
    (hr : a.step s j l = some r) : r.2.newPeers = [] := by
  obtain he | ⟨pod, sid, he⟩ | ⟨w, session, he⟩ := agent_effect hr
  all_goals
    rw [he]
    rfl

theorem AllHandled.step {l : ForwardLabel} (h : s.AllHandled) (hs : s.step l = some t) :
    t.AllHandled := by
  rcases step_cases hs with ⟨pod, rfl, rfl⟩ | ⟨pod, rfl, rfl⟩ | ⟨k, hl, c, r, rfl, hc, hr, rfl⟩ |
    ⟨q, pl, p, r, rfl, hp, hr, rfl⟩ | ⟨j, al, a, r, rfl, ha, hr, rfl⟩
  · refine h.accept ?_
    by_contra hpod
    rw [Forwarding.step, if_neg hpod] at hs
    cases hs
  · exact h.of_same rfl rfl rfl
  · exact h.conn hc hr
  · obtain ⟨hconn, hnone⟩ := peer_newPeers hr
    refine h.of_same (pods_apply s r.2) (conns_apply s r.2) ?_
    rw [setPeer, peers_apply, hnone, List.append_nil, List.map_set, hconn]
    refine List.ext_getElem? fun n => ?_
    by_cases hn : q = n
    · subst hn
      rw [List.getElem?_set_self' , List.getElem?_map, hp]
      rfl
    · rw [List.getElem?_set_ne hn]
  · refine h.of_same (pods_apply s r.2) (conns_apply s r.2) ?_
    rw [setAgent, peers_apply, agent_newPeers hr, List.append_nil]

theorem allHandled_of_run {pods : List ForwardPod} {ls : List ForwardLabel}
    (h : Lts.AnyRun Forwarding.step (init pods) ls t) : t.AllHandled := by
  refine h.invariant (fun _ _ _ hs _ hstep => hs.step hstep) ⟨?_, ?_⟩
  · exact fun p hp => absurd hp List.not_mem_nil
  · rintro k c ⟨⟩

theorem exists_outcomes : Nonempty ConnOutcomes := by
  let call := (Lts.exec SpliceCall.step (.init true) [.read [] (some .eof), .sendUp none,
    .recv .halfClose, .closeWrite none, .ret none]).get (by decide +kernel)
  have hrun := Lts.anyRun_of_exec (t := call) (Option.some_get _).symm
  have hreturned : call.endpoint.result = some none := by decide +kernel
  exact ⟨{
    lookup := .error .eof, held := false, sessionId := .error .eof, send := none, paired := .timeout,
    locate := fun _ => .error .eof, peerSessionId := fun _ => .error .eof,
    relay := fun _ => { recv := .ok .ready }, splice := ⟨_, call, none, hrun, hreturned⟩ }⟩

/-- A public connection that is done with is a call of `handleConn` that has returned. -/
theorem handleConn_of_run {pods : List ForwardPod} {ls : List ForwardLabel}
    (h : Lts.AnyRun Forwarding.step (init pods) ls t) {k : Nat} {c : PublicConn}
    (hc : t.conns[k]? = some c) (hdone : c.pc = .done) (port : UInt32) :
    ∃ pod o, t.pods[c.pod]? = some pod ∧
      ({} : ConnSummary).after ((⟨pod.addr, pod.peers⟩ : Forwarder).handleConn port o) =
        ⟨c.resets, c.failures, c.endpoint.toList, t.relays k⟩ := by
  obtain ⟨pod, hpod, hhandled⟩ := (allHandled_of_run h).conns k c hc
  obtain ⟨o, ho⟩ := (hhandled port).handles exists_outcomes.some
  refine ⟨pod, o, hpod, ho.trans ?_⟩
  simp only [PublicConn.summary, PublicConn.rest, hdone]
  rfl

/-- In every run of the system a connection that is done with was closed once, counted at most one
failure and had at most two relays opened for it. -/
theorem owned_of_run {pods : List ForwardPod} {ls : List ForwardLabel}
    (h : Lts.AnyRun Forwarding.step (init pods) ls t) {k : Nat} {c : PublicConn}
    (hc : t.conns[k]? = some c) (hdone : c.pc = .done) :
    c.resets + (c.endpoint.map (·.closes)).getD 0 = 1 ∧ c.failures.length ≤ 1 ∧ t.relays k ≤ 2 := by
  obtain ⟨pod, o, -, heq⟩ := handleConn_of_run h hc hdone 0
  obtain ⟨hcloses, hfailures, hstreams⟩ := ConnSummary.after_counts {}
    ((⟨pod.addr, pod.peers⟩ : Forwarder).handleConn 0 o)
  obtain ⟨-, hdisposes, -⟩ := serve_spec ⟨pod.addr, pod.peers⟩ 0 o
  rw [heq, handleConn_eq_serve] at hcloses hfailures hstreams
  have hone := hcloses.trans ((Nat.zero_add _).trans hdisposes.closes)
  refine ⟨?_, ?_, ?_⟩
  · cases hendpoint : c.endpoint with
    | none =>
      rw [hendpoint] at hone
      exact (Nat.zero_add _).symm.trans hone
    | some e =>
      rw [hendpoint] at hone
      simp only [ConnSummary.closes, Option.toList_some, List.foldl_cons, List.foldl_nil] at hone
      simp only [Option.map_some, Option.getD_some]
      omega
  · have hle := hdisposes.records
    simp only [List.length_nil, Nat.zero_add] at hfailures
    omega
  · have hle := hdisposes.streams.trans hdisposes.relays
    simp only [Nat.zero_add] at hstreams
    omega

def lostHolder : List ForwardLabel :=
  staleHolder.take 10 ++ [.conn 0 (.locate (.error (.new "no holder")))]

theorem owned_of_lostHolder : ∃ t c,
    Lts.AnyRun Forwarding.step (init [⟨"pod-1", true⟩, ⟨"pod-2", true⟩]) lostHolder t ∧
    t.conns[0]? = some c ∧ c.resets + (c.endpoint.map (·.closes)).getD 0 = 1 := by
  let t := (Lts.exec Forwarding.step (init [⟨"pod-1", true⟩, ⟨"pod-2", true⟩]) lostHolder).get
    (by decide +kernel)
  let c := (t.conns[0]?).get (by decide +kernel)
  have hrun := Lts.anyRun_of_exec (t := t) (Option.some_get _).symm
  have hc : t.conns[0]? = some c := (Option.some_get _).symm
  exact ⟨t, c, hrun, hc, (owned_of_run hrun hc (by decide +kernel)).1⟩

end Forwarding
end Hostlink.Controller
