import Hostlink.Controller.Forwarding

/-! What the handlers may rely on. The facts below are stated about the whole system and survive
every step (`Grows`), so a handler that has established one keeps it whatever the others do; only
the handler that takes a step has to be looked at. -/

namespace Hostlink.Controller

/-! ### The parts of an effect -/

namespace Effect

def newWaiters : Effect → List Waiter
  | .expect w => [w]
  | _ => []

def newPeers : Effect → List PeerForward
  | .openPeer k pod => [{ conn := k, pod := pod }]
  | _ => []

def generates : Effect → List (String × Nat)
  | .generate sid k => [(sid, k)]
  | _ => []

def sends : Effect → List OpenForward
  | .send o => [o]
  | _ => []

def starts : Effect → List (Nat × Nat)
  | .splice j k => [(j, k)]
  | _ => []

end Effect

namespace Forwarding
variable {s t : Forwarding} {e : Effect}

section Apply
variable (s : Forwarding) (e : Effect)

theorem waiters_apply : (s.apply e).waiters = s.waiters ++ e.newWaiters := by
  cases e <;> simp only [apply, Effect.newWaiters, List.append_nil] <;> try rfl
  split <;> rfl

theorem peers_apply : (s.apply e).peers = s.peers ++ e.newPeers := by
  cases e <;> simp only [apply, Effect.newPeers, List.append_nil] <;> try rfl
  split <;> rfl

theorem generated_apply : (s.apply e).generated = e.generates ++ s.generated := by
  cases e <;> simp only [apply, Effect.generates, List.nil_append] <;> try rfl
  split <;> rfl

theorem sent_apply : (s.apply e).sent = s.sent ++ e.sends := by
  cases e <;> simp only [apply, Effect.sends, List.append_nil] <;> try rfl
  split <;> rfl

theorem splices_apply : (s.apply e).splices = e.starts ++ s.splices := by
  cases e <;> simp only [apply, Effect.starts, List.nil_append] <;> try rfl
  split <;> rfl

@[simp] theorem conns_apply : (s.apply e).conns = s.conns := by
  cases e <;> simp only [apply] <;> try rfl
  split <;> rfl

@[simp] theorem agents_apply : (s.apply e).agents = s.agents := by
  cases e <;> simp only [apply] <;> try rfl
  split <;> rfl

end Apply

theorem requests_apply {q : Nat} {f : Tunnel.Frame} (h : (s.apply e).requests q = some f) :
    s.requests q = some f ∨ e = .request q f := by
  cases e with
  | request q' f' =>
    by_cases hq : q = q'
    · subst hq
      simp only [apply, Function.update_self, Option.some.injEq] at h
      exact .inr (h ▸ rfl)
    · simp only [apply, Function.update_of_ne hq] at h
      exact .inl h
  | cancel w =>
    simp only [apply] at h
    split at h <;> exact .inl h
  | none | generate | expect | receive | send | splice | closeDone | openPeer | take | put =>
    exact .inl h

theorem inbox_apply {w : Nat} {session : ForwardSession} (h : (s.apply e).inbox w = some session) :
    s.inbox w = some session ∨ e = .put w session := by
  cases e with
  | put w' session' =>
    by_cases hw : w = w'
    · subst hw
      simp only [apply, Function.update_self, Option.some.injEq] at h
      exact .inr (h ▸ rfl)
    · simp only [apply, Function.update_of_ne hw] at h
      exact .inl h
  | receive w' =>
    by_cases hw : w = w'
    · subst hw
      simp [apply] at h
    · simp only [apply, Function.update_of_ne hw] at h
      exact .inl h
  | cancel w =>
    simp only [apply] at h
    split at h <;> exact .inl h
  | none | generate | expect | send | splice | closeDone | openPeer | take | request =>
    exact .inl h

theorem sessions_apply {pod w : Nat} {sid : String}
    (h : ((s.apply e).sessions pod).waiters.get sid = some w) :
    (s.sessions pod).waiters.get sid = some w ∨
      ∃ k, e = .expect ⟨pod, sid, k⟩ ∧ w = s.waiters.length := by
  have hset : ∀ (p : Nat) (t : SessionTable),
      (∀ sid w, t.waiters.get sid = some w → (s.sessions p).waiters.get sid = some w) →
      ((s.setSessions p t).sessions pod).waiters.get sid = some w →
      (s.sessions pod).waiters.get sid = some w := by
    intro p t hsub h
    by_cases hp : pod = p
    · subst hp
      simp only [setSessions, Function.update_self] at h
      exact hsub sid w h
    · simpa only [setSessions, Function.update_of_ne hp] using h
  cases e with
  | expect wt =>
    by_cases hp : pod = wt.pod
    · subst hp
      simp only [apply, setSessions, Function.update_self, SessionTable.expect] at h
      rcases GoMap.get_of_get_insert h with ⟨rfl, hw⟩ | hold
      · exact .inr ⟨wt.conn, rfl, hw⟩
      · exact .inl hold
    · simp only [apply, setSessions, Function.update_of_ne hp] at h
      exact .inl h
  | cancel w' =>
    simp only [apply] at h
    split at h
    · refine .inl (hset _ _ (fun sid w hw => ?_) h)
      unfold SessionTable.cancel at hw
      split at hw
      · exact GoMap.get_of_get_erase hw
      · exact hw
    · exact .inl h
  | take p sid' => exact .inl (hset _ _ (fun _ _ hw => GoMap.get_of_get_erase hw) h)
  | none | generate | receive | send | splice | closeDone | openPeer | request | put => exact .inl h

/-! ### Facts that last -/

def WaitsFor (s : Forwarding) (w k : Nat) (sid : String) : Prop :=
  ∃ pod, s.waiters[w]? = some ⟨pod, sid, k⟩

def Matched (s : Forwarding) (j w : Nat) (f : Tunnel.Frame) : Prop :=
  ∃ a, s.agents[j]? = some a ∧ a.waiter = some w ∧ a.first = some f

def Mapped (s : Forwarding) (k : Nat) (agentId target : String) : Prop :=
  ∃ c, s.conns[k]? = some c ∧ c.pc ≠ .lookup ∧ c.mapping.agentId = agentId ∧
    c.mapping.target = target

def Requested (s : Forwarding) (k : Nat) (sid : String) : Prop :=
  ∃ o ∈ s.sent, o.conn = k ∧ o.sessionId = sid

def PeerOf (s : Forwarding) (q k : Nat) : Prop := ∃ p, s.peers[q]? = some p ∧ p.conn = k

def Readied (s : Forwarding) (q k : Nat) : Prop :=
  ∃ p, s.peers[q]? = some p ∧ p.conn = k ∧ p.reply = some .ready

def Paired (s : Forwarding) (session : ForwardSession) (k : Nat) : Prop :=
  ∃ w sid, s.Matched session.stream w session.first ∧ s.WaitsFor w k sid ∧ s.Requested k sid

def Asks (s : Forwarding) (k : Nat) (f : Tunnel.Frame) : Prop :=
  (f.sessionId, k) ∈ s.generated ∧ s.Mapped k (openAgentId f) (openTarget f)

structure Grows (s t : Forwarding) : Prop where
  waiters : s.waiters <+: t.waiters
  sent : ∀ o ∈ s.sent, o ∈ t.sent
  generated : ∀ g ∈ s.generated, g ∈ t.generated
  conns : ∀ (k : Nat) (c : PublicConn), s.conns[k]? = some c → ∃ c', t.conns[k]? = some c' ∧
    (c.pc ≠ .lookup → c'.pc ≠ .lookup ∧ c'.mapping = c.mapping)
  peers : ∀ (q : Nat) (p : PeerForward), s.peers[q]? = some p → ∃ p', t.peers[q]? = some p' ∧
    p'.conn = p.conn ∧ (p.reply = some .ready → p'.reply = some .ready)
  agents : ∀ (j : Nat) (a : AgentForward), s.agents[j]? = some a → ∃ a', t.agents[j]? = some a' ∧
    ∀ (w : Nat) (f : Tunnel.Frame), a.waiter = some w → a.first = some f →
      a'.waiter = some w ∧ a'.first = some f

section Stable
variable {w k q j : Nat} {sid : String} {f : Tunnel.Frame}

theorem Grows.refl (s : Forwarding) : s.Grows s where
  waiters := List.prefix_rfl
  sent := fun _ h => h
  generated := fun _ h => h
  conns := fun _ c h => ⟨c, h, fun hp => ⟨hp, rfl⟩⟩
  peers := fun _ p h => ⟨p, h, rfl, id⟩
  agents := fun _ a h => ⟨a, h, fun _ _ hw hf => ⟨hw, hf⟩⟩

theorem WaitsFor.grows (h : s.WaitsFor w k sid) (hg : s.Grows t) : t.WaitsFor w k sid := by
  obtain ⟨pod, hw⟩ := h
  obtain ⟨rest, hr⟩ := hg.waiters
  refine ⟨pod, ?_⟩
  rw [← hr]
  exact List.getElem?_append_of hw rest

theorem Matched.grows (h : s.Matched j w f) (hg : s.Grows t) : t.Matched j w f := by
  obtain ⟨a, ha, hw, hf⟩ := h
  obtain ⟨a', ha', hkeep⟩ := hg.agents j a ha
  exact ⟨a', ha', hkeep w f hw hf⟩

theorem Mapped.grows {agentId target : String} (h : s.Mapped k agentId target) (hg : s.Grows t) :
    t.Mapped k agentId target := by
  obtain ⟨c, hc, hpc, rfl, rfl⟩ := h
  obtain ⟨c', hc', hkeep⟩ := hg.conns k c hc
  obtain ⟨hpc', hm⟩ := hkeep hpc
  exact ⟨c', hc', hpc', by rw [hm], by rw [hm]⟩

theorem Requested.grows (h : s.Requested k sid) (hg : s.Grows t) : t.Requested k sid := by
  obtain ⟨o, ho, hrest⟩ := h
  exact ⟨o, hg.sent o ho, hrest⟩

theorem PeerOf.grows (h : s.PeerOf q k) (hg : s.Grows t) : t.PeerOf q k := by
  obtain ⟨p, hp, rfl⟩ := h
  obtain ⟨p', hp', hconn, -⟩ := hg.peers q p hp
  exact ⟨p', hp', hconn⟩

theorem Readied.grows (h : s.Readied q k) (hg : s.Grows t) : t.Readied q k := by
  obtain ⟨p, hp, rfl, hr⟩ := h
  obtain ⟨p', hp', hconn, hreply⟩ := hg.peers q p hp
  exact ⟨p', hp', hconn, hreply hr⟩

theorem Paired.grows {session : ForwardSession} (h : s.Paired session k) (hg : s.Grows t) :
    t.Paired session k := by
  obtain ⟨w, sid, hm, hw, hr⟩ := h
  exact ⟨w, sid, hm.grows hg, hw.grows hg, hr.grows hg⟩

theorem Asks.grows (h : s.Asks k f) (hg : s.Grows t) : t.Asks k f :=
  ⟨hg.generated _ h.1, h.2.grows hg⟩

end Stable

/-! ### The invariant -/

end Forwarding

def HandlerPc.Ok (s : Forwarding) (k : Nat) : HandlerPc → Prop
  | .expect sid | .connect _ _ sid => (sid, k) ∈ s.generated
  | .send sid w => (sid, k) ∈ s.generated ∧ s.WaitsFor w k sid
  | .wait w => ∃ sid, s.WaitsFor w k sid ∧ s.Requested k sid
  | .sendOpen _ q sid => (sid, k) ∈ s.generated ∧ s.PeerOf q k
  | .recvReply _ q => s.PeerOf q k
  | _ => True

def HandlerPc.late : HandlerPc → Bool
  | .splice _ | .cancel _ | .done => true
  | _ => false

structure PublicConn.Ok (s : Forwarding) (k : Nat) (c : PublicConn) : Prop where
  pc : c.pc.Ok s k
  early : c.pc.late = false → c.endpoint = none
  session : ∀ session, c.session = some session → s.Paired session k
  relay : ∀ q, c.relay = some q → s.Readied q k
  endpoint : c.endpoint ≠ none →
    (∃ session, c.session = some session ∧ session.first.type = .open) ∨ c.relay ≠ none

def PeerPc.Ok (s : Forwarding) (p : PeerForward) : PeerPc → Prop
  | .recvOpen => p.reply = none
  | .get f | .expect f => p.reply = none ∧ s.Asks p.conn f
  | .send f w => p.reply = none ∧ s.Asks p.conn f ∧ s.WaitsFor w p.conn f.sessionId
  | .wait w => p.reply = none ∧ ∃ sid, s.WaitsFor w p.conn sid ∧ s.Requested p.conn sid
  | .paired _ => p.reply = none
  | .ready _ => p.reply = some .ready
  | _ => True

structure PeerForward.Ok (s : Forwarding) (p : PeerForward) : Prop where
  conn : ∃ c, s.conns[p.conn]? = some c
  pc : p.pc.Ok s p
  session : ∀ session, p.session = some session → s.Paired session p.conn
  ready : p.reply = some .ready → ∃ session, p.session = some session ∧ session.first.type = .open

def AgentForward.Ok (a : AgentForward) : Prop :=
  match a.pc with
  | .recv => a.first = none ∧ a.waiter = none
  | .deliver => a.waiter = none ∧ ∀ f, a.first = some f → f.type = .open ∨ f.type = .reset
  | _ => True

namespace Forwarding
variable {s t : Forwarding} {e : Effect}

structure Inv (s : Forwarding) : Prop where
  conns : ∀ (k : Nat) (c : PublicConn), s.conns[k]? = some c → c.Ok s k
  peers : ∀ (q : Nat) (p : PeerForward), s.peers[q]? = some p → p.Ok s
  agents : ∀ (j : Nat) (a : AgentForward), s.agents[j]? = some a → a.Ok
  matched : ∀ (j w : Nat) (f : Tunnel.Frame), s.Matched j w f →
    (f.type = .open ∨ f.type = .reset) ∧ ∃ k, s.WaitsFor w k f.sessionId
  sessions : ∀ (pod w : Nat) (sid : String), (s.sessions pod).waiters.get sid = some w →
    ∃ k, s.WaitsFor w k sid
  inbox : ∀ (w : Nat) (session : ForwardSession), s.inbox w = some session →
    s.Matched session.stream w session.first
  requests : ∀ (q : Nat) (f : Tunnel.Frame), s.requests q = some f →
    ∃ k, s.PeerOf q k ∧ s.Asks k f
  sent : ∀ o ∈ s.sent, (o.sessionId, o.conn) ∈ s.generated ∧ s.Mapped o.conn o.agentId o.target
  splices : ∀ (j k : Nat), (j, k) ∈ s.splices →
    ∃ session : ForwardSession, session.stream = j ∧ session.first.type = .open ∧ s.Paired session k
  generated : (s.generated.map Prod.fst).Nodup

theorem init_inv (pods : List ForwardPod) : (init pods).Inv where
  conns := fun k c h => by simp [init] at h
  peers := fun q p h => by simp [init] at h
  agents := fun j a h => by simp [init] at h
  matched := fun j w f h => by
    obtain ⟨a, ha, -⟩ := h
    simp [init] at ha
  sessions := fun pod w sid h => by simp [init] at h
  inbox := fun w session h => by simp [init] at h
  requests := fun q f h => by simp [init] at h
  sent := fun o h => by simp [init] at h
  splices := fun j k h => by simp [init] at h
  generated := List.nodup_nil

section Lift
variable (hg : s.Grows t)
include hg

theorem handlerPc_grows {k : Nat} {pc : HandlerPc} (h : pc.Ok s k) : pc.Ok t k := by
  cases pc with
  | expect | connect => exact hg.generated _ h
  | send => exact ⟨hg.generated _ h.1, h.2.grows hg⟩
  | wait =>
    obtain ⟨sid, hw, hr⟩ := h
    exact ⟨sid, hw.grows hg, hr.grows hg⟩
  | sendOpen => exact ⟨hg.generated _ h.1, h.2.grows hg⟩
  | recvReply => exact PeerOf.grows h hg
  | lookup | get | newSession | paired | locate | newPeerSession | splice | cancel | done => trivial

theorem publicConn_grows {k : Nat} {c : PublicConn} (h : c.Ok s k) : c.Ok t k where
  pc := handlerPc_grows hg h.pc
  early := h.early
  session := fun session hs => (h.session session hs).grows hg
  relay := fun q hq => (h.relay q hq).grows hg
  endpoint := h.endpoint

theorem peerPc_grows {p : PeerForward} {pc : PeerPc} (h : pc.Ok s p) : pc.Ok t p := by
  cases pc with
  | get | expect => exact ⟨h.1, h.2.grows hg⟩
  | send => exact ⟨h.1, h.2.1.grows hg, h.2.2.grows hg⟩
  | wait =>
    obtain ⟨hn, sid, hw, hr⟩ := h
    exact ⟨hn, sid, hw.grows hg, hr.grows hg⟩
  | recvOpen | paired | ready => exact h
  | splice | finish | cancel | returned => trivial

theorem peerForward_grows {p : PeerForward} (h : p.Ok s) : p.Ok t where
  conn := by
    obtain ⟨c, hc⟩ := h.conn
    obtain ⟨c', hc', -⟩ := hg.conns _ c hc
    exact ⟨c', hc'⟩
  pc := peerPc_grows hg h.pc
  session := fun session hs => (h.session session hs).grows hg
  ready := h.ready

end Lift

def Allows (s : Forwarding) : Effect → Prop
  | .generate sid _ => sid ∉ s.generated.map Prod.fst
  | .send o => (o.sessionId, o.conn) ∈ s.generated ∧ s.Mapped o.conn o.agentId o.target
  | .splice j k => ∃ session : ForwardSession, session.stream = j ∧ session.first.type = .open ∧
      s.Paired session k
  | .openPeer k _ => ∃ c, s.conns[k]? = some c
  | .request q f => ∃ k, s.PeerOf q k ∧ s.Asks k f
  | .put w session => s.Matched session.stream w session.first
  | _ => True

theorem apply_grows (s : Forwarding) (e : Effect) : s.Grows (s.apply e) where
  waiters := by
    rw [waiters_apply]
    exact List.prefix_append ..
  sent := fun o h => by
    rw [sent_apply]
    exact List.mem_append_left _ h
  generated := fun g h => by
    rw [generated_apply]
    exact List.mem_append_right _ h
  conns := fun k c h => ⟨c, by rw [conns_apply, h], fun hp => ⟨hp, rfl⟩⟩
  peers := fun q p h => by
    refine ⟨p, ?_, rfl, id⟩
    rw [peers_apply]
    exact List.getElem?_append_of h _
  agents := fun j a h => ⟨a, by rw [agents_apply, h], fun _ _ hw hf => ⟨hw, hf⟩⟩

theorem apply_inv (hi : s.Inv) (hok : s.Allows e) : (s.apply e).Inv := by
  have hg := apply_grows s e
  have hmatched : ∀ {j w f}, (s.apply e).Matched j w f → s.Matched j w f := by
    intro j w f h
    rwa [Matched, agents_apply] at h
  constructor
  · intro k c hc
    rw [conns_apply] at hc
    exact publicConn_grows hg (hi.conns k c hc)
  · intro q p hp
    rw [peers_apply, List.getElem?_append] at hp
    split at hp
    · exact peerForward_grows hg (hi.peers q p hp)
    · cases e with
      | openPeer k pod =>
        obtain rfl := List.mem_singleton.mp (List.mem_of_getElem? hp)
        obtain ⟨c, hc⟩ := hok
        exact ⟨⟨c, hc⟩, rfl, fun _ h => (by cases h), fun h => by cases h⟩
      | none | generate | expect | cancel | receive | send | splice | closeDone | request | take
      | put => cases hp
  · intro j a ha
    rw [agents_apply] at ha
    exact hi.agents j a ha
  · intro j w f h
    obtain ⟨htype, k, hw⟩ := hi.matched j w f (hmatched h)
    exact ⟨htype, k, hw.grows hg⟩
  · intro pod w sid h
    obtain hold | ⟨k, rfl, rfl⟩ := sessions_apply h
    · obtain ⟨k, hw⟩ := hi.sessions pod w sid hold
      exact ⟨k, hw.grows hg⟩
    · refine ⟨k, pod, ?_⟩
      rw [waiters_apply]
      exact List.getElem?_concat_length
  · intro w session h
    obtain hold | rfl := inbox_apply h
    · exact (hi.inbox w session hold).grows hg
    · exact Matched.grows hok hg
  · intro q f h
    obtain hold | rfl := requests_apply h
    · obtain ⟨k, hp, ha⟩ := hi.requests q f hold
      exact ⟨k, hp.grows hg, ha.grows hg⟩
    · obtain ⟨k, hp, ha⟩ := hok
      exact ⟨k, hp.grows hg, ha.grows hg⟩
  · intro o ho
    rw [sent_apply, List.mem_append] at ho
    have hso : (o.sessionId, o.conn) ∈ s.generated ∧ s.Mapped o.conn o.agentId o.target := by
      rcases ho with ho | ho
      · exact hi.sent o ho
      · cases e with
        | send o' =>
          obtain rfl := List.mem_singleton.mp ho
          exact hok
        | none | generate | expect | cancel | receive | splice | closeDone | openPeer | request
        | take | put => cases ho
    exact ⟨hg.generated _ hso.1, hso.2.grows hg⟩
  · intro j k h
    rw [splices_apply, List.mem_append] at h
    have hsp : ∃ session : ForwardSession, session.stream = j ∧ session.first.type = .open ∧
        s.Paired session k := by
      rcases h with h | h
      · cases e with
        | splice j' k' =>
          obtain ⟨rfl, rfl⟩ := Prod.mk.inj (List.mem_singleton.mp h)
          exact hok
        | none | generate | expect | cancel | receive | send | closeDone | openPeer | request
        | take | put => cases h
      · exact hi.splices j k h
    obtain ⟨session, hj, htype, hp⟩ := hsp
    exact ⟨session, hj, htype, hp.grows hg⟩
  · rw [generated_apply, List.map_append]
    cases e with
    | generate sid k => exact List.nodup_cons.mpr ⟨hok, hi.generated⟩
    | none | expect | cancel | receive | send | splice | closeDone | openPeer | request | take
    | put => exact hi.generated

end Forwarding
end Hostlink.Controller
