import Hostlink.Lib.Slots
import Hostlink.Controller.ForwardingCases
import Hostlink.Controller.ForwardingInv

/-! Each handler keeps what it knows: from `Ok` before a step to `Ok` after it, with an effect that
the rest of the system allows. -/

namespace Hostlink.Controller
open Forwarding

variable {s t : Forwarding}

/-! ### `handleConn` -/

namespace PublicConn
variable {k : Nat} {c c' : PublicConn} {l : HandlerLabel} {r : PublicConn × Effect}

structure Keeps (s : Forwarding) (k : Nat) (c : PublicConn) (r : PublicConn × Effect) : Prop where
  allows : s.Allows r.2
  ok : r.1.Ok (s.apply r.2) k
  mapping : c.pc ≠ .lookup → r.1.pc ≠ .lookup ∧ r.1.mapping = c.mapping

theorem Ok.move (h : c.Ok s k) (hg : s.Grows t) (hpc : c'.pc.Ok t k)
    (hlate : c'.pc.late = false → c.pc.late = false) (hs : c'.session = c.session)
    (hr : c'.relay = c.relay) (he : c'.endpoint = c.endpoint) : c'.Ok t k where
  pc := hpc
  early := fun hl => he.trans (h.early (hlate hl))
  session := fun session hses => (h.session session (hs ▸ hses)).grows hg
  relay := fun q hq => (h.relay q (hr ▸ hq)).grows hg
  endpoint := by
    rw [he, hs, hr]
    exact h.endpoint

theorem Ok.abort (h : c.Ok s k) {failure : Option ForwardFailure} {pc : HandlerPc}
    (hpc : pc.Ok s k) (hlate : pc.late = true) : (c.abort failure pc).Ok s k :=
  h.move (.refl s) hpc (fun hl => absurd hl (by simp [PublicConn.abort, hlate])) rfl rfl rfl

theorem Ok.forwardErr (h : c.Ok s k) (hlate : c.pc.late = false) (attempt : Nat) (code : GrpcCode) :
    (c.forwardErr attempt code).Ok s k := by
  unfold PublicConn.forwardErr
  split
  · exact h.move (.refl s) trivial (fun _ => hlate) rfl rfl rfl
  · exact h.abort trivial rfl

theorem forwardErr_mapping (c : PublicConn) (attempt : Nat) (code : GrpcCode) :
    (c.forwardErr attempt code).pc ≠ .lookup ∧ (c.forwardErr attempt code).mapping = c.mapping := by
  unfold PublicConn.forwardErr
  split <;> exact ⟨by simp [PublicConn.abort], rfl⟩

theorem Keeps.forwardErr (h : c.Ok s k) (hlate : c.pc.late = false) (attempt : Nat)
    (code : GrpcCode) : Keeps s k c (c.forwardErr attempt code, .none) :=
  ⟨trivial, h.forwardErr hlate attempt code, fun _ => c.forwardErr_mapping attempt code⟩

theorem Keeps.abort (h : c.Ok s k) {failure : Option ForwardFailure} {pc : HandlerPc}
    (hpc : pc.Ok s k) (hlate : pc.late = true) : Keeps s k c (c.abort failure pc, .none) := by
  refine ⟨trivial, h.abort hpc hlate, fun _ => ⟨?_, rfl⟩⟩
  rintro rfl
  cases hlate

theorem Keeps.move {e : Effect} (h : c.Ok s k) (hallows : s.Allows e)
    (hpc : c'.pc.Ok (s.apply e) k) (hlate : c'.pc.late = false → c.pc.late = false)
    (hs : c'.session = c.session) (hr : c'.relay = c.relay) (he : c'.endpoint = c.endpoint)
    (hm : c.pc ≠ .lookup → c'.pc ≠ .lookup ∧ c'.mapping = c.mapping) : Keeps s k c (c', e) :=
  ⟨hallows, h.move (apply_grows s e) hpc hlate hs hr he, hm⟩

theorem Keeps.receive {w : Nat} {session : ForwardSession} (hi : s.Inv) (h : c.Ok s k)
    (hpc : c.pc = .wait w) (hsession : s.inbox w = some session) :
    Keeps s k c ({ c with pc := .paired w, session := some session }, .receive w) := by
  have hpcOk := h.pc
  rw [hpc] at hpcOk
  obtain ⟨sid, hw, hreq⟩ := hpcOk
  have hg := apply_grows s (.receive w)
  have hnone : c.endpoint = none := h.early (by rw [hpc]; rfl)
  refine ⟨trivial, ⟨trivial, fun _ => hnone, ?_, ?_, ?_⟩, fun _ => ⟨nofun, rfl⟩⟩
  · intro session' heq
    obtain rfl := Option.some.inj heq
    exact Paired.grows ⟨w, sid, hi.inbox w session hsession, hw, hreq⟩ hg
  · exact fun q hq => (h.relay q hq).grows hg
  · exact fun he => absurd hnone he

theorem Keeps.splice {w : Nat} {session : ForwardSession} (hi : s.Inv) (h : c.Ok s k)
    (hsession : c.session = some session) (hfirst : session.first.type ≠ .reset) :
    Keeps s k c (c.startSplice (some w), .splice session.stream k) := by
  have hp := h.session session hsession
  have hopen : session.first.type = .open := by
    obtain ⟨w, sid, hm, -⟩ := hp
    exact (hi.matched _ _ _ hm).1.resolve_right hfirst
  have hg := apply_grows s (.splice session.stream k)
  refine ⟨⟨session, rfl, hopen, hp⟩, ⟨trivial, nofun, ?_, ?_, ?_⟩, fun _ => ⟨nofun, rfl⟩⟩
  · exact fun session' hs => (h.session session' hs).grows hg
  · exact fun q hq => (h.relay q hq).grows hg
  · exact fun _ => .inl ⟨session, hsession, hopen⟩

theorem Keeps.ready {attempt q : Nat} {p : PeerForward} (h : c.Ok s k)
    (hpc : c.pc = .recvReply attempt q) (hp : s.peers[q]? = some p)
    (hreply : p.reply = some .ready) :
    Keeps s k c ({ c.startSplice none with relay := some q }, .none) := by
  have hpcOk := h.pc
  rw [hpc] at hpcOk
  obtain ⟨p', hp', hconn⟩ := hpcOk
  obtain rfl := Option.some.inj (hp.symm.trans hp')
  refine ⟨trivial, ⟨trivial, nofun, h.session, ?_, fun _ => .inr nofun⟩, fun _ => ⟨nofun, rfl⟩⟩
  intro q' hq'
  obtain rfl := Option.some.inj hq'
  exact ⟨p, hp, hconn, hreply⟩

theorem step_keeps (hi : s.Inv) (hc : s.conns[k]? = some c) (hfresh : Fresh s (.conn k l))
    (hr : c.step s k l = some r) : Keeps s k c r := by
  have h := hi.conns k c hc
  have hpcOk := h.pc
  have hearly : ∀ {pc : HandlerPc}, c.pc = pc → pc.late = false → c.pc.late = false := by
    rintro pc rfl hlate
    exact hlate
  cases step_cases hr with
  | abort failure => exact .abort h trivial rfl
  | abortWait failure w => exact .abort h trivial rfl
  | suspended m hpc =>
    exact .move h trivial trivial nofun rfl rfl rfl fun hne => absurd hpc hne
  | lookup m hpc =>
    exact .move h trivial trivial (fun _ => hearly hpc rfl) rfl rfl rfl fun hne => absurd hpc hne
  | held hpc | notHeld hpc | locate _ _ hpc =>
    exact .move h trivial trivial (fun _ => hearly hpc rfl) rfl rfl rfl fun _ => ⟨nofun, rfl⟩
  | session sid hl hpc | peerSession _ _ sid hl hpc =>
    subst hl
    exact .move h hfresh List.mem_cons_self (fun _ => hearly hpc rfl) rfl rfl rfl
      fun _ => ⟨nofun, rfl⟩
  | expect sid hpc =>
    rw [hpc] at hpcOk
    refine .move h trivial ⟨hpcOk, c.pod, ?_⟩ (fun _ => hearly hpc rfl) rfl rfl rfl
      fun _ => ⟨nofun, rfl⟩
    rw [waiters_apply]
    exact List.getElem?_concat_length
  | send sid w hpc =>
    rw [hpc] at hpcOk
    obtain ⟨hgen, hw⟩ := hpcOk
    refine .move h ⟨hgen, c, hc, by simp [hpc], rfl, rfl⟩ ⟨sid, hw.grows (apply_grows s _), ?_⟩
      (fun _ => hearly hpc rfl) rfl rfl rfl fun _ => ⟨nofun, rfl⟩
    exact ⟨_, List.mem_append_right _ List.mem_cons_self, rfl, rfl⟩
  | sendErr sid w hpc =>
    rw [hpc] at hpcOk
    exact .move h ⟨hpcOk.1, c, hc, by simp [hpc], rfl, rfl⟩ trivial nofun rfl rfl rfl
      fun _ => ⟨nofun, rfl⟩
  | receive w session hpc hsession => exact .receive hi h hpc hsession
  | splice w session hpc hsession hfirst => exact .splice hi h hsession hfirst
  | reject | cancel | spliced | relayed =>
    exact .move h trivial trivial nofun rfl rfl rfl fun _ => ⟨nofun, rfl⟩
  | connect attempt pod addr sid hpc =>
    rw [hpc] at hpcOk
    refine .move h ⟨c, hc⟩ ⟨hpcOk, { conn := k, pod := pod }, ?_, rfl⟩ (fun _ => hearly hpc rfl)
      rfl rfl rfl fun _ => ⟨nofun, rfl⟩
    exact List.getElem?_concat_length
  | sendOpen attempt q sid hpc =>
    rw [hpc] at hpcOk
    obtain ⟨hgen, hpeer⟩ := hpcOk
    exact .move h ⟨k, hpeer, hgen, c, hc, by simp [hpc], rfl, rfl⟩
      (PeerOf.grows hpeer (apply_grows s _)) (fun _ => hearly hpc rfl) rfl rfl rfl
      fun _ => ⟨nofun, rfl⟩
  | connectErr _ _ _ code hpc | sendOpenErr _ _ _ code hpc | status _ _ _ code hpc
  | recvErr _ _ code hpc => exact .forwardErr h (hearly hpc rfl) _ code
  | ready attempt q p hpc hp hreply => exact .ready h hpc hp hreply
  | copy w e e' hpc he =>
    refine ⟨trivial, ⟨h.pc, fun hl => ?_, h.session, h.relay, fun _ => h.endpoint ?_⟩,
      fun hne => ⟨hne, rfl⟩⟩
    · rw [hpc] at hl
      cases hl
    · rw [he]
      nofun

end PublicConn

/-! ### `peerServer.Forward` -/

namespace PeerForward
variable {q : Nat} {p p' : PeerForward} {l : PeerLabel} {r : PeerForward × Effect}

structure Keeps (s : Forwarding) (p : PeerForward) (r : PeerForward × Effect) : Prop where
  allows : s.Allows r.2
  ok : r.1.Ok (s.apply r.2)
  conn : r.1.conn = p.conn
  reply : p.reply = some .ready → r.1.reply = some .ready

theorem Keeps.move {e : Effect} {pc : PeerPc} (h : p.Ok s) (hallows : s.Allows e)
    (hpc : pc.Ok (s.apply e) { p with pc := pc }) : Keeps s p ({ p with pc := pc }, e) := by
  have hp := peerForward_grows (apply_grows s e) h
  exact ⟨hallows, ⟨hp.conn, hpc, hp.session, hp.ready⟩, rfl, id⟩

theorem step_keeps (hi : s.Inv) (hp : s.peers[q]? = some p) (hr : p.step s q l = some r) :
    Keeps s p r := by
  have h := hi.peers q p hp
  have hpcOk := h.pc
  cases step_cases hr with
  | recvOpen f hpc hf =>
    rw [hpc] at hpcOk
    obtain ⟨k, ⟨p', hp', hconn⟩, hasks⟩ := hi.requests q f hf
    obtain rfl := Option.some.inj (hp'.symm.trans hp)
    subst hconn
    exact .move h trivial ⟨hpcOk, hasks⟩
  | recvErr | refuse | stopWait | replyErr | spliced | finish | cancel =>
    exact .move h trivial trivial
  | found f hpc =>
    rw [hpc] at hpcOk
    exact .move h trivial hpcOk
  | expect f hpc =>
    rw [hpc] at hpcOk
    refine .move h trivial ⟨hpcOk.1, hpcOk.2.grows (apply_grows s _), p.pod, ?_⟩
    rw [waiters_apply]
    exact List.getElem?_concat_length
  | send f w hpc =>
    rw [hpc] at hpcOk
    obtain ⟨hreply, hasks, hw⟩ := hpcOk
    refine .move h hasks ⟨hreply, f.sessionId, hw.grows (apply_grows s _), ?_⟩
    exact ⟨_, List.mem_append_right _ List.mem_cons_self, rfl, rfl⟩
  | sendErr f w code hpc =>
    rw [hpc] at hpcOk
    exact .move h hpcOk.2.1 trivial
  | receive w session hpc hsession =>
    rw [hpc] at hpcOk
    obtain ⟨hreply, sid, hw, hreq⟩ := hpcOk
    have hg := apply_grows s (.receive w)
    refine ⟨trivial, ⟨(peerForward_grows hg h).conn, hreply, ?_, fun hr => ?_⟩, rfl, id⟩
    · intro session' heq
      obtain rfl := Option.some.inj heq
      exact Paired.grows ⟨w, sid, hi.inbox w session hsession, hw, hreq⟩ hg
    · rw [hreply] at hr
      cases hr
  | reject w hpc =>
    rw [hpc] at hpcOk
    refine ⟨trivial, ⟨h.conn, trivial, h.session, nofun⟩, rfl, fun hready => ?_⟩
    rw [hpcOk] at hready
    cases hready
  | ready w session hpc hsession hfirst =>
    have hopen : session.first.type = .open := by
      obtain ⟨w, sid, hm, -⟩ := h.session session hsession
      exact (hi.matched _ _ _ hm).1.resolve_right hfirst
    exact ⟨trivial, ⟨h.conn, rfl, h.session, fun _ => ⟨session, hsession, hopen⟩⟩, rfl, fun _ => rfl⟩
  | splice w session hpc hsession =>
    rw [hpc] at hpcOk
    obtain ⟨session', hsession', hopen⟩ := h.ready hpcOk
    obtain rfl := Option.some.inj (hsession'.symm.trans hsession)
    exact .move h ⟨session', rfl, hopen, h.session session' hsession⟩ trivial

end PeerForward

/-! ### `impl.Forward` -/

namespace AgentForward
variable {j : Nat} {a : AgentForward} {l : AgentLabel} {r : AgentForward × Effect}

structure Keeps (s : Forwarding) (a : AgentForward) (r : AgentForward × Effect) : Prop where
  allows : s.Allows r.2
  ok : r.1.Ok
  kept : ∀ w f, a.waiter = some w → a.first = some f → r.1.waiter = some w ∧ r.1.first = some f
  matched : ∀ w f, r.1.waiter = some w → r.1.first = some f →
    (f.type = .open ∨ f.type = .reset) ∧ ∃ k, s.WaitsFor w k f.sessionId

theorem Keeps.move {e : Effect} {pc : AgentPc} (hi : s.Inv) (ha : s.agents[j]? = some a)
    (hallows : s.Allows e) (hpc : ({ a with pc := pc } : AgentForward).Ok) :
    Keeps s a ({ a with pc := pc }, e) :=
  ⟨hallows, hpc, fun _ _ hw hf => ⟨hw, hf⟩, fun w f hw hf => hi.matched j w f ⟨a, ha, hw, hf⟩⟩

theorem step_keeps (hi : s.Inv) (ha : s.agents[j]? = some a) (hr : a.step s j l = some r) :
    Keeps s a r := by
  have h := hi.agents j a ha
  unfold Ok at h
  cases l with
  | recv f =>
    simp only [step] at hr
    split at hr
    · next hpc =>
      cases hr
      rw [hpc] at h
      obtain ⟨hfirst, hwaiter⟩ := h
      refine ⟨trivial, ?_, fun w f' hw => ?_, fun w f' hw => ?_⟩
      · cases hv : validFirst f with
        | false => trivial
        | true =>
          refine ⟨hwaiter, fun f' hf' => ?_⟩
          obtain rfl := Option.some.inj hf'
          simpa [validFirst] using (Bool.and_eq_true_iff.mp hv).2
      · rw [hwaiter] at hw
        cases hw
      · rw [hwaiter] at hw
        cases hw
    · cases hr
  | recvErr =>
    simp only [step] at hr
    split at hr
    · cases hr
      exact .move hi ha trivial trivial
    · cases hr
  | take =>
    simp only [step] at hr
    split at hr
    · next f hpc hf =>
      rw [hpc] at h
      obtain ⟨hwaiter, htype⟩ := h
      split at hr
      · next w hw =>
        cases hr
        refine ⟨trivial, trivial, fun w' f' hw' => ?_, fun w' f' hw' hf' => ?_⟩
        · rw [hwaiter] at hw'
          cases hw'
        · obtain rfl := Option.some.inj hw'
          obtain rfl := Option.some.inj (hf.symm.trans hf')
          exact ⟨htype f hf, hi.sessions _ _ _ hw⟩
      · cases hr
        exact .move hi ha trivial trivial
    · cases hr
  | put =>
    simp only [step] at hr
    split at hr
    · next f w hpc hf hw =>
      split at hr
      · cases hr
        exact .move hi ha ⟨a, ha, hw, hf⟩ trivial
      · cases hr
        exact .move hi ha trivial trivial
    · cases hr
  | done =>
    simp only [step] at hr
    split at hr
    · split at hr
      · cases hr
        exact .move hi ha trivial trivial
      · cases hr
    · cases hr
  | ctxDone =>
    simp only [step] at hr
    split at hr
    · cases hr
      exact .move hi ha trivial trivial
    · cases hr
      exact .move hi ha trivial trivial
    · cases hr

end AgentForward

/-! ### The system -/

namespace Forwarding

theorem Inv.of_grows (hi : s.Inv) (hg : s.Grows t)
    (hconns : ∀ (k : Nat) (c : PublicConn), t.conns[k]? = some c →
      s.conns[k]? = some c ∨ c.Ok s k)
    (hpeers : ∀ (q : Nat) (p : PeerForward), t.peers[q]? = some p → s.peers[q]? = some p ∨ p.Ok s)
    (hagents : ∀ (j : Nat) (a : AgentForward), t.agents[j]? = some a →
      s.agents[j]? = some a ∨ (a.Ok ∧ ∀ w f, a.waiter = some w → a.first = some f →
        (f.type = .open ∨ f.type = .reset) ∧ ∃ k, s.WaitsFor w k f.sessionId))
    (hsessions : t.sessions = s.sessions) (hinbox : t.inbox = s.inbox)
    (hrequests : t.requests = s.requests) (hsent : t.sent = s.sent) (hsplices : t.splices = s.splices)
    (hgenerated : t.generated = s.generated) : t.Inv := by
  constructor
  · intro k c hc
    exact publicConn_grows hg ((hconns k c hc).elim (hi.conns k c) id)
  · intro q p hp
    exact peerForward_grows hg ((hpeers q p hp).elim (hi.peers q p) id)
  · intro j a ha
    exact (hagents j a ha).elim (hi.agents j a) And.left
  · rintro j w f ⟨a, ha, hw, hf⟩
    have hm : (f.type = .open ∨ f.type = .reset) ∧ ∃ k, s.WaitsFor w k f.sessionId := by
      obtain hold | ⟨-, hnew⟩ := hagents j a ha
      · exact hi.matched j w f ⟨a, hold, hw, hf⟩
      · exact hnew w f hw hf
    obtain ⟨htype, k, hwf⟩ := hm
    exact ⟨htype, k, hwf.grows hg⟩
  · intro pod w sid h
    rw [hsessions] at h
    obtain ⟨k, hw⟩ := hi.sessions pod w sid h
    exact ⟨k, hw.grows hg⟩
  · intro w session h
    rw [hinbox] at h
    exact (hi.inbox w session h).grows hg
  · intro q f h
    rw [hrequests] at h
    obtain ⟨k, hp, ha⟩ := hi.requests q f h
    exact ⟨k, hp.grows hg, ha.grows hg⟩
  · intro o ho
    rw [hsent] at ho
    obtain ⟨hgen, hm⟩ := hi.sent o ho
    exact ⟨hg.generated _ hgen, hm.grows hg⟩
  · intro j k h
    rw [hsplices] at h
    obtain ⟨session, hj, htype, hp⟩ := hi.splices j k h
    exact ⟨session, hj, htype, hp.grows hg⟩
  · rw [hgenerated]
    exact hi.generated

theorem setConn_grows {k : Nat} {c c' : PublicConn} (hc : s.conns[k]? = some c)
    (hm : c.pc ≠ .lookup → c'.pc ≠ .lookup ∧ c'.mapping = c.mapping) : s.Grows (s.setConn k c') :=
  { Grows.refl s with
    conns := fun n d hd => by
      obtain h | ⟨h, rfl⟩ := List.getElem?_set_of hc hd
      · exact ⟨d, h, fun hp => ⟨hp, rfl⟩⟩
      · exact ⟨c', h, hm⟩ }

theorem setPeer_grows {q : Nat} {p p' : PeerForward} (hp : s.peers[q]? = some p)
    (hconn : p'.conn = p.conn) (hreply : p.reply = some .ready → p'.reply = some .ready) :
    s.Grows (s.setPeer q p') :=
  { Grows.refl s with
    peers := fun n d hd => by
      obtain h | ⟨h, rfl⟩ := List.getElem?_set_of hp hd
      · exact ⟨d, h, rfl, id⟩
      · exact ⟨p', h, hconn, hreply⟩ }

theorem setAgent_grows {j : Nat} {a a' : AgentForward} (ha : s.agents[j]? = some a)
    (hkept : ∀ w f, a.waiter = some w → a.first = some f → a'.waiter = some w ∧ a'.first = some f) :
    s.Grows (s.setAgent j a') :=
  { Grows.refl s with
    agents := fun n d hd => by
      obtain h | ⟨h, rfl⟩ := List.getElem?_set_of ha hd
      · exact ⟨d, h, fun _ _ hw hf => ⟨hw, hf⟩⟩
      · exact ⟨a', h, hkept⟩ }

theorem accept_inv (hi : s.Inv) (pod : Nat) :
    ({ s with conns := s.conns ++ [{ pod := pod }] } : Forwarding).Inv := by
  have hg : s.Grows { s with conns := s.conns ++ [{ pod := pod }] } :=
    { Grows.refl s with
      conns := fun n d hd => by
        refine ⟨d, ?_, fun hp => ⟨hp, rfl⟩⟩
        exact (List.getElem?_append_left (List.getElem?_eq_some_iff.mp hd).1).trans hd }
  refine hi.of_grows hg (fun n d hd => ?_) (fun _ _ h => .inl h) (fun _ _ h => .inl h)
    rfl rfl rfl rfl rfl rfl
  rw [List.getElem?_append] at hd
  split at hd
  · exact .inl hd
  · obtain rfl := List.mem_singleton.mp (List.mem_of_getElem? hd)
    exact .inr ⟨trivial, fun _ => rfl, nofun, nofun, fun h => absurd rfl h⟩

theorem arrive_inv (hi : s.Inv) (pod : Nat) :
    ({ s with agents := s.agents ++ [{ pod := pod }] } : Forwarding).Inv := by
  have hg : s.Grows { s with agents := s.agents ++ [{ pod := pod }] } :=
    { Grows.refl s with
      agents := fun n d hd => by
        refine ⟨d, ?_, fun _ _ hw hf => ⟨hw, hf⟩⟩
        exact (List.getElem?_append_left (List.getElem?_eq_some_iff.mp hd).1).trans hd }
  refine hi.of_grows hg (fun _ _ h => .inl h) (fun _ _ h => .inl h) (fun n d hd => ?_)
    rfl rfl rfl rfl rfl rfl
  rw [List.getElem?_append] at hd
  split at hd
  · exact .inl hd
  · obtain rfl := List.mem_singleton.mp (List.mem_of_getElem? hd)
    exact .inr ⟨⟨rfl, rfl⟩, nofun⟩

theorem step_inv {l : ForwardLabel} (hi : s.Inv) (hfresh : Fresh s l) (h : s.step l = some t) :
    t.Inv := by
  obtain ⟨pod, rfl, rfl⟩ | ⟨pod, rfl, rfl⟩ | ⟨k, hl, c, r, rfl, hc, hr, rfl⟩ |
    ⟨q, pl, p, r, rfl, hp, hr, rfl⟩ | ⟨j, al, a, r, rfl, ha, hr, rfl⟩ := step_cases h
  · exact accept_inv hi pod
  · exact arrive_inv hi pod
  · have hkeeps := PublicConn.step_keeps hi hc hfresh hr
    have hc' : (s.apply r.2).conns[k]? = some c := by rw [conns_apply, hc]
    refine (apply_inv hi hkeeps.allows).of_grows (setConn_grows hc' hkeeps.mapping) (fun n d hd => ?_)
      (fun _ _ h => .inl h) (fun _ _ h => .inl h) rfl rfl rfl rfl rfl rfl
    obtain ⟨-, hold⟩ | ⟨rfl, rfl⟩ := List.getElem?_of_set hd
    · exact .inl hold
    · exact .inr hkeeps.ok
  · have hkeeps := PeerForward.step_keeps hi hp hr
    have hp' : (s.apply r.2).peers[q]? = some p := by
      rw [peers_apply, List.getElem?_append_left (List.getElem?_eq_some_iff.mp hp).1, hp]
    refine (apply_inv hi hkeeps.allows).of_grows (setPeer_grows hp' hkeeps.conn hkeeps.reply)
      (fun _ _ h => .inl h) (fun n d hd => ?_) (fun _ _ h => .inl h) rfl rfl rfl rfl rfl rfl
    obtain ⟨-, hold⟩ | ⟨rfl, rfl⟩ := List.getElem?_of_set hd
    · exact .inl hold
    · exact .inr hkeeps.ok
  · have hkeeps := AgentForward.step_keeps hi ha hr
    have ha' : (s.apply r.2).agents[j]? = some a := by rw [agents_apply, ha]
    refine (apply_inv hi hkeeps.allows).of_grows (setAgent_grows ha' hkeeps.kept)
      (fun _ _ h => .inl h) (fun _ _ h => .inl h) (fun n d hd => ?_) rfl rfl rfl rfl rfl rfl
    obtain ⟨-, hold⟩ | ⟨rfl, rfl⟩ := List.getElem?_of_set hd
    · exact .inl hold
    · refine .inr ⟨hkeeps.ok, fun w f hw hf => ?_⟩
      obtain ⟨htype, k, hwf⟩ := hkeeps.matched w f hw hf
      exact ⟨htype, k, hwf.grows (apply_grows s _)⟩

theorem inv_of_run {pods : List ForwardPod} {ls : List ForwardLabel}
    (h : Lts.Run step Fresh (init pods) ls s) : s.Inv :=
  h.invariant (fun _ _ _ hi hok hs => step_inv hi hok hs) (init_inv pods)

end Forwarding
end Hostlink.Controller
