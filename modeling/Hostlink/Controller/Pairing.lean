import Mathlib.Data.List.Nodup
import Mathlib.Data.Set.Subsingleton
import Hostlink.Controller.ForwardingSteps

/-! A public connection and its agent stream. The right to send the one OpenForward of a connection
is held in one place at a time: by the handler of the connection, by the relay it opened, or spent
on a command that was sent. -/

theorem Set.Subsingleton.of_move {α : Type*} {S T : Set α} (hS : S.Subsingleton) {old : α}
    (hold : old ∈ S) (new : α) (h : ∀ x ∈ T, x ≠ new → x ∈ S ∧ x ≠ old) : T.Subsingleton := by
  have hnew : ∀ x ∈ T, x = new := by
    intro x hx
    by_contra hne
    obtain ⟨hxS, hxo⟩ := h x hx hne
    exact hxo (hS hxS hold)
  intro x hx y hy
  rw [hnew x hx, hnew y hy]

namespace Hostlink.Controller

def HandlerPc.mayOpen : HandlerPc → Bool
  | .lookup | .get | .newSession | .expect _ | .send _ _ | .locate _ | .newPeerSession _ _
  | .connect _ _ _ | .sendOpen _ _ _ => true
  | .wait _ | .paired _ | .recvReply _ _ | .splice _ | .cancel _ | .done => false

def HandlerPc.awaitsReply : HandlerPc → Bool
  | .recvReply _ _ => true
  | _ => false

def Effect.quiet : Effect → Bool
  | .send _ | .request _ _ => false
  | _ => true

theorem HandlerPc.ne_recvReply {pc : HandlerPc} (h : pc.awaitsReply = false) (attempt q : Nat) :
    pc ≠ .recvReply attempt q := by
  rintro rfl
  cases h

theorem Effect.sends_of_quiet {e : Effect} (h : e.quiet = true) : e.sends = [] := by
  cases e <;> first | rfl | cases h

theorem Effect.ne_request {e : Effect} (h : e.quiet = true) (q : Nat) (f : Tunnel.Frame) :
    e ≠ .request q f := by
  rintro rfl
  cases h

namespace PeerForward

def mayOpen (p : PeerForward) (requested : Bool) : Bool :=
  match p.pc with
  | .recvOpen => requested
  | .get _ | .expect _ | .send _ _ => true
  | _ => false

def refused (p : PeerForward) : Bool :=
  match p.pc with
  | .finish _ code | .cancel _ code | .returned code => code = .failedPrecondition
  | _ => false

end PeerForward

inductive Holder where
  | conn
  | peer (q : Nat)
  | sent (i : Nat)

namespace Forwarding
variable {s t : Forwarding} {e : Effect}

/-- Who holds the right to send, or has sent, an OpenForward for connection `k`. A refusal hands
the right back only while the caller still waits for it. -/
def holders (s : Forwarding) (k : Nat) : Set Holder := fun
  | .conn => ∃ c, s.conns[k]? = some c ∧ c.pc.mayOpen = true
  | .peer q => ∃ p, s.peers[q]? = some p ∧ p.conn = k ∧
      (p.mayOpen (s.requests q).isSome = true ∨
        p.refused = true ∧ ∃ c attempt, s.conns[k]? = some c ∧ c.pc = .recvReply attempt q)
  | .sent i => ∃ o, s.sent[i]? = some o ∧ o.conn = k

def Exclusive (s : Forwarding) : Prop := ∀ k, (s.holders k).Subsingleton

theorem sent_apply_cases {i : Nat} {o : OpenForward} (h : (s.apply e).sent[i]? = some o) :
    s.sent[i]? = some o ∨ e = .send o ∧ i = s.sent.length := by
  rw [sent_apply, List.getElem?_append] at h
  split at h
  · exact .inl h
  · next hlt =>
    cases e with
    | send o' =>
      have hi : i = s.sent.length := by
        have := (List.getElem?_eq_some_iff.mp h).1
        simp only [Effect.sends, List.length_singleton] at this
        omega
      obtain rfl := List.mem_singleton.mp (List.mem_of_getElem? h)
      exact .inr ⟨rfl, hi⟩
    | none | generate | expect | cancel | receive | splice | closeDone | openPeer | request | take
    | put => cases h

theorem peers_apply_cases (hi : s.Inv) {q : Nat} {p : PeerForward}
    (h : (s.apply e).peers[q]? = some p) :
    s.peers[q]? = some p ∨
      p.refused = false ∧ (p.mayOpen ((s.apply e).requests q).isSome = true → ∃ f, e = .request q f) := by
  rw [peers_apply, List.getElem?_append] at h
  split at h
  · exact .inl h
  · next hlt =>
    cases e with
    | openPeer k pod =>
      obtain rfl := List.mem_singleton.mp (List.mem_of_getElem? h)
      refine .inr ⟨rfl, fun hmay => ?_⟩
      obtain ⟨f, hf⟩ := Option.isSome_iff_exists.mp hmay
      obtain ⟨k, ⟨p, hp, -⟩, -⟩ := hi.requests q f hf
      exact absurd (List.getElem?_eq_some_iff.mp hp).1 hlt
    | none | generate | expect | cancel | receive | send | splice | closeDone | request | take
    | put => cases h

theorem mayOpen_apply {q : Nat} {p : PeerForward}
    (h : p.mayOpen ((s.apply e).requests q).isSome = true) :
    p.mayOpen (s.requests q).isSome = true ∨ ∃ f, e = .request q f := by
  unfold PeerForward.mayOpen at h ⊢
  split at h
  · obtain ⟨f, hf⟩ := Option.isSome_iff_exists.mp h
    obtain hold | he := requests_apply hf
    · exact .inl (by simp [hold])
    · exact .inr ⟨f, he⟩
  · exact .inl rfl
  · exact .inl rfl
  · exact .inl rfl
  · cases h

/-! ### Steps of a public handler -/

section Conn
variable {k : Nat} {c c' : PublicConn} {l : HandlerLabel} {r : PublicConn × Effect}

inductive ConnMove (s : Forwarding) (k : Nat) (c : PublicConn) (r : PublicConn × Effect) : Prop
  | keep (heffect : r.2.quiet = true)
      (hopen : r.1.pc.mayOpen = true → c.pc.mayOpen = true)
      (hreply : r.1.pc.awaitsReply = false)
  | send (o : OpenForward) (heffect : r.2 = .send o) (hconn : o.conn = k)
      (hopen : c.pc.mayOpen = true) (hdone : r.1.pc.mayOpen = false)
      (hreply : r.1.pc.awaitsReply = false)
  | request (attempt q : Nat) (f : Tunnel.Frame) (heffect : r.2 = .request q f)
      (hopen : c.pc.mayOpen = true) (hpeer : s.PeerOf q k) (hpc : r.1.pc = .recvReply attempt q)
  | retry (attempt q : Nat) (p : PeerForward) (heffect : r.2 = .none)
      (hpc : c.pc = .recvReply attempt q) (hp : s.peers[q]? = some p) (hconn : p.conn = k)
      (hrefused : p.pc = .returned .failedPrecondition)
      (hreply : r.1.pc.awaitsReply = false)

theorem ConnMove.stop (heffect : r.2.quiet = true) (hstop : r.1.pc.mayOpen = false)
    (hreply : r.1.pc.awaitsReply = false) : ConnMove s k c r := by
  refine .keep heffect (fun hopen => ?_) hreply
  rw [hstop] at hopen
  cases hopen

theorem ConnMove.forwardErr (attempt : Nat) (code : GrpcCode) (hopen : c.pc.mayOpen = true) :
    ConnMove s k c (c.forwardErr attempt code, .none) := by
  refine .keep rfl (fun _ => hopen) ?_
  unfold PublicConn.forwardErr
  split <;> rfl

theorem conn_move (hok : c.Ok s k) (hr : c.step s k l = some r) : ConnMove s k c r := by
  have hpcOk := hok.pc
  have hopens : ∀ {pc : HandlerPc}, c.pc = pc → pc.mayOpen = true → c.pc.mayOpen = true := by
    rintro pc rfl hmay
    exact hmay
  cases PublicConn.step_cases hr with
  | abort | abortWait | suspended | receive | reject | splice | cancel | ready | spliced | relayed =>
    exact .stop rfl rfl rfl
  | lookup _ hpc | held hpc | notHeld hpc | session _ _ hpc | peerSession _ _ _ _ hpc
  | expect _ hpc | locate _ _ hpc | connect _ _ _ _ hpc =>
    exact .keep rfl (fun _ => hopens hpc rfl) rfl
  | send sid w hpc | sendErr sid w hpc => exact .send _ rfl rfl (hopens hpc rfl) rfl rfl
  | connectErr attempt _ _ code hpc | sendOpenErr attempt _ _ code hpc =>
    exact .forwardErr attempt code (hopens hpc rfl)
  | sendOpen attempt q sid hpc =>
    rw [hpc] at hpcOk
    exact .request attempt q _ rfl (hopens hpc rfl) hpcOk.2 rfl
  | status attempt q p code hpc hp hcode =>
    rw [hpc] at hpcOk
    obtain ⟨p', hp', hconn⟩ := hpcOk
    obtain rfl := Option.some.inj (hp.symm.trans hp')
    unfold PublicConn.forwardErr
    split
    · next hretry => exact .retry attempt q p rfl hpc hp hconn (hretry.1 ▸ hcode) rfl
    · exact .stop rfl rfl rfl
  | recvErr attempt q code hpc hcode =>
    unfold PublicConn.forwardErr
    rw [if_neg fun h => hcode h.1]
    exact .stop rfl rfl rfl
  | copy w e e' hpc he =>
    refine .keep rfl id ?_
    rw [hpc]
    rfl

theorem conn_mem_setConn (hc : s.conns[k]? = some c) {n : Nat}
    (h : .conn ∈ ((s.apply e).setConn k c').holders n) :
    (n = k ∧ c'.pc.mayOpen = true) ∨ (n ≠ k ∧ .conn ∈ s.holders n) := by
  obtain ⟨d, hd, hmay⟩ := h
  simp only [setConn, conns_apply] at hd
  by_cases hn : n = k
  · subst hn
    rw [List.getElem?_set_self (List.getElem?_eq_some_iff.mp hc).1] at hd
    obtain rfl := Option.some.inj hd
    exact .inl ⟨rfl, hmay⟩
  · rw [List.getElem?_set_ne (Ne.symm hn)] at hd
    exact .inr ⟨hn, d, hd, hmay⟩

theorem sent_mem_setConn {n i : Nat} (h : .sent i ∈ ((s.apply e).setConn k c').holders n) :
    .sent i ∈ s.holders n ∨ ∃ o, e = .send o ∧ o.conn = n ∧ i = s.sent.length := by
  obtain ⟨o, ho, hn⟩ := h
  obtain hold | ⟨he, hi⟩ := sent_apply_cases ho
  · exact .inl ⟨o, hold, hn⟩
  · exact .inr ⟨o, he, hn, hi⟩

theorem peer_mem_setConn (hi : s.Inv) (hc : s.conns[k]? = some c) {n q : Nat}
    (h : .peer q ∈ ((s.apply e).setConn k c').holders n) :
    (∃ f, e = .request q f) ∨ (n = k ∧ ∃ attempt, c'.pc = .recvReply attempt q) ∨
      ∃ p, s.peers[q]? = some p ∧ p.conn = n ∧ (p.mayOpen (s.requests q).isSome = true ∨
        n ≠ k ∧ .peer q ∈ s.holders n) := by
  obtain ⟨p, hp, hn, hwhy⟩ := h
  obtain hold | ⟨hrefused, hmay⟩ := peers_apply_cases hi hp
  · obtain hmay | ⟨hrefused, d, attempt, hd, hpc⟩ := hwhy
    · obtain hmay | hreq := mayOpen_apply hmay
      · exact .inr (.inr ⟨p, hold, hn, .inl hmay⟩)
      · exact .inl hreq
    · simp only [setConn, conns_apply] at hd
      by_cases hk : n = k
      · subst hk
        rw [List.getElem?_set_self (List.getElem?_eq_some_iff.mp hc).1] at hd
        obtain rfl := Option.some.inj hd
        exact .inr (.inl ⟨rfl, attempt, hpc⟩)
      · rw [List.getElem?_set_ne (Ne.symm hk)] at hd
        exact .inr (.inr ⟨p, hold, hn, .inr ⟨hk, p, hold, hn, .inr ⟨hrefused, d, attempt, hd, hpc⟩⟩⟩)
  · obtain hopen | ⟨hr, -⟩ := hwhy
    · exact .inl (hmay hopen)
    · rw [hrefused] at hr
      cases hr

theorem holders_setConn_of_ne (hi : s.Inv) (hc : s.conns[k]? = some c) {n : Nat} (hn : n ≠ k)
    (hsend : ∀ o, e = .send o → o.conn = k) (hreq : ∀ q f, e = .request q f → s.PeerOf q k) :
    ((s.apply e).setConn k c').holders n ⊆ s.holders n := by
  intro x hx
  cases x with
  | conn => exact ((conn_mem_setConn hc hx).resolve_left fun h => hn h.1).2
  | sent i =>
    refine (sent_mem_setConn hx).resolve_right ?_
    rintro ⟨o, he, hconn, -⟩
    exact hn (hconn.symm.trans (hsend o he))
  | peer q =>
    obtain ⟨f, he⟩ | ⟨hk, -⟩ | ⟨p, hp, hconn, hmay | ⟨-, h⟩⟩ := peer_mem_setConn hi hc hx
    · obtain ⟨p, hp, hk⟩ := hreq q f he
      obtain ⟨p', hp', hn', -⟩ := hx
      have hp'' : (s.apply e).peers[q]? = some p := by
        rw [peers_apply, List.getElem?_append_left (List.getElem?_eq_some_iff.mp hp).1, hp]
      obtain rfl := Option.some.inj (hp''.symm.trans hp')
      exact absurd (hn'.symm.trans hk) hn
    · exact absurd hk hn
    · exact ⟨p, hp, hconn, .inl hmay⟩
    · exact h

theorem ConnMove.sends_own (hmove : ConnMove s k c r) {o : OpenForward} (ho : r.2 = .send o) :
    o.conn = k := by
  cases hmove with
  | keep heffect => rw [ho] at heffect; cases heffect
  | send o' heffect hconn =>
    obtain rfl := Effect.send.inj (heffect.symm.trans ho)
    exact hconn
  | request _ _ _ heffect => rw [ho] at heffect; cases heffect
  | retry _ _ _ heffect => rw [ho] at heffect; cases heffect

theorem ConnMove.requests_own (hmove : ConnMove s k c r) {q : Nat} {f : Tunnel.Frame}
    (hf : r.2 = .request q f) : s.PeerOf q k := by
  cases hmove with
  | keep heffect => exact absurd hf (Effect.ne_request heffect q f)
  | send _ heffect => rw [hf] at heffect; cases heffect
  | request _ q' _ heffect _ hpeer =>
    obtain ⟨rfl, -⟩ := Effect.request.inj (heffect.symm.trans hf)
    exact hpeer
  | retry _ _ _ heffect => rw [hf] at heffect; cases heffect

theorem conn_mem_self (hc : s.conns[k]? = some c)
    (h : .conn ∈ ((s.apply e).setConn k c').holders k) : c'.pc.mayOpen = true :=
  (conn_mem_setConn hc h).elim And.right fun hne => absurd rfl hne.1

theorem sent_mem_self {i : Nat} (hsends : e.sends = [])
    (h : .sent i ∈ ((s.apply e).setConn k c').holders k) : .sent i ∈ s.holders k := by
  refine (sent_mem_setConn h).resolve_right ?_
  rintro ⟨o, rfl, -⟩
  cases hsends

theorem peer_mem_self (hi : s.Inv) (hc : s.conns[k]? = some c) {q : Nat}
    (h : .peer q ∈ ((s.apply e).setConn k c').holders k) :
    (∃ f, e = .request q f) ∨ (∃ attempt, c'.pc = .recvReply attempt q) ∨
      ∃ p, s.peers[q]? = some p ∧ p.conn = k ∧ p.mayOpen (s.requests q).isSome = true := by
  obtain he | ⟨-, hpc⟩ | ⟨p, hp, hconn, hmay | ⟨hne, -⟩⟩ := peer_mem_setConn hi hc h
  · exact .inl he
  · exact .inr (.inl hpc)
  · exact .inr (.inr ⟨p, hp, hconn, hmay⟩)
  · exact absurd rfl hne

section Self
variable (hi : s.Inv) (hx : s.Exclusive) (hc : s.conns[k]? = some c)
include hi hx hc

theorem holders_keep (heffect : r.2.quiet = true)
    (hopen : r.1.pc.mayOpen = true → c.pc.mayOpen = true) (hreply : r.1.pc.awaitsReply = false) :
    (((s.apply r.2).setConn k r.1).holders k).Subsingleton := by
  refine (hx k).anti fun x hmem => ?_
  cases x with
  | conn => exact ⟨c, hc, hopen (conn_mem_self hc hmem)⟩
  | sent i => exact sent_mem_self (Effect.sends_of_quiet heffect) hmem
  | peer q =>
    obtain ⟨f, he⟩ | ⟨attempt, hpc⟩ | ⟨p, hp, hconn, hmay⟩ := peer_mem_self hi hc hmem
    · exact absurd he (Effect.ne_request heffect q f)
    · exact absurd hpc (HandlerPc.ne_recvReply hreply attempt q)
    · exact ⟨p, hp, hconn, .inl hmay⟩

theorem holders_send {o : OpenForward} (heffect : r.2 = .send o) (hopen : c.pc.mayOpen = true)
    (hdone : r.1.pc.mayOpen = false) (hreply : r.1.pc.awaitsReply = false) :
    (((s.apply r.2).setConn k r.1).holders k).Subsingleton := by
  have hold : .conn ∈ s.holders k := ⟨c, hc, hopen⟩
  refine (hx k).of_move hold (.sent s.sent.length) ?_
  intro x hmem hne
  cases x with
  | conn =>
    have hmay := conn_mem_self hc hmem
    rw [hdone] at hmay
    cases hmay
  | sent i =>
    obtain hold | ⟨o, -, -, rfl⟩ := sent_mem_setConn hmem
    · exact ⟨hold, nofun⟩
    · exact absurd rfl hne
  | peer q =>
    obtain ⟨f, he⟩ | ⟨attempt, hpc⟩ | ⟨p, hp, hconn, hmay⟩ := peer_mem_self hi hc hmem
    · rw [heffect] at he
      cases he
    · exact absurd hpc (HandlerPc.ne_recvReply hreply attempt q)
    · exact ⟨⟨p, hp, hconn, .inl hmay⟩, nofun⟩

theorem holders_request {attempt q : Nat} {f : Tunnel.Frame} (heffect : r.2 = .request q f)
    (hopen : c.pc.mayOpen = true) (hpc : r.1.pc = .recvReply attempt q) :
    (((s.apply r.2).setConn k r.1).holders k).Subsingleton := by
  have hold : .conn ∈ s.holders k := ⟨c, hc, hopen⟩
  refine (hx k).of_move hold (.peer q) ?_
  intro x hmem hne
  cases x with
  | conn =>
    have hmay := conn_mem_self hc hmem
    rw [hpc] at hmay
    cases hmay
  | sent i => exact ⟨sent_mem_self (by rw [heffect]; rfl) hmem, nofun⟩
  | peer q' =>
    obtain ⟨f', he⟩ | ⟨attempt', hpc'⟩ | ⟨p, hp, hconn, hmay⟩ := peer_mem_self hi hc hmem
    · obtain ⟨rfl, -⟩ := Effect.request.inj (heffect.symm.trans he)
      exact absurd rfl hne
    · obtain ⟨-, rfl⟩ := HandlerPc.recvReply.inj (hpc.symm.trans hpc')
      exact absurd rfl hne
    · exact ⟨⟨p, hp, hconn, .inl hmay⟩, nofun⟩

theorem holders_retry {attempt q : Nat} {p : PeerForward} (heffect : r.2 = .none)
    (hpc : c.pc = .recvReply attempt q) (hp : s.peers[q]? = some p) (hconn : p.conn = k)
    (hrefused : p.pc = .returned .failedPrecondition) (hreply : r.1.pc.awaitsReply = false) :
    (((s.apply r.2).setConn k r.1).holders k).Subsingleton := by
  have hold : .peer q ∈ s.holders k :=
    ⟨p, hp, hconn, .inr ⟨by simp [PeerForward.refused, hrefused], c, attempt, hc, hpc⟩⟩
  refine (hx k).of_move hold .conn fun x hmem hne => ?_
  cases x with
  | conn => exact absurd rfl hne
  | sent i => exact ⟨sent_mem_self (by rw [heffect]; rfl) hmem, nofun⟩
  | peer q' =>
    obtain ⟨f', he⟩ | ⟨attempt', hpc'⟩ | ⟨p', hp', hconn', hmay⟩ := peer_mem_self hi hc hmem
    · rw [heffect] at he
      cases he
    · exact absurd hpc' (HandlerPc.ne_recvReply hreply attempt' q')
    · refine ⟨⟨p', hp', hconn', .inl hmay⟩, ?_⟩
      rintro ⟨⟩
      obtain rfl := Option.some.inj (hp'.symm.trans hp)
      simp [PeerForward.mayOpen, hrefused] at hmay

theorem exclusive_conn (hmove : ConnMove s k c r) :
    ((s.apply r.2).setConn k r.1).Exclusive := by
  intro n
  by_cases hn : n = k
  · subst hn
    cases hmove with
    | keep heffect hopen hreply => exact holders_keep hi hx hc heffect hopen hreply
    | send o heffect _ hopen hdone hreply => exact holders_send hi hx hc heffect hopen hdone hreply
    | request attempt q f heffect hopen _ hpc => exact holders_request hi hx hc heffect hopen hpc
    | retry attempt q p heffect hpc hp hconn hrefused hreply =>
      exact holders_retry hi hx hc heffect hpc hp hconn hrefused hreply
  · exact (hx n).anti (holders_setConn_of_ne hi hc hn (fun _ ho => hmove.sends_own ho)
      fun _ _ hf => hmove.requests_own hf)

end Self

end Conn

/-! ### Steps of a relay -/

section Peer
variable {q : Nat} {p p' : PeerForward} {l : PeerLabel} {r : PeerForward × Effect}

inductive PeerMove (s : Forwarding) (q : Nat) (p : PeerForward) (r : PeerForward × Effect) : Prop
  | keep (heffect : r.2.quiet = true)
      (hopen : r.1.mayOpen (s.requests q).isSome = true → p.mayOpen (s.requests q).isSome = true)
      (hrefused : r.1.refused = true →
        p.refused = true ∨ p.mayOpen (s.requests q).isSome = true)
  | send (o : OpenForward) (heffect : r.2 = .send o) (hconn : o.conn = p.conn)
      (hopen : p.mayOpen (s.requests q).isSome = true)
      (hdone : r.1.mayOpen (s.requests q).isSome = false) (hrefused : r.1.refused = false)

theorem PeerMove.stay (heffect : r.2.quiet = true)
    (hopen : p.mayOpen (s.requests q).isSome = true) : PeerMove s q p r :=
  .keep heffect (fun _ => hopen) fun _ => .inr hopen

theorem PeerMove.stop (heffect : r.2.quiet = true)
    (hstop : r.1.mayOpen (s.requests q).isSome = false)
    (hrefused : r.1.refused = true → p.refused = true) : PeerMove s q p r := by
  refine .keep heffect (fun hopen => ?_) fun h => .inl (hrefused h)
  rw [hstop] at hopen
  cases hopen

theorem PeerMove.proceed (heffect : r.2.quiet = true)
    (hstop : r.1.mayOpen (s.requests q).isSome = false) (hrefused : r.1.refused = false) :
    PeerMove s q p r := by
  refine .stop heffect hstop fun h => ?_
  rw [hrefused] at h
  cases h

theorem peer_move (hr : p.step s q l = some r) : PeerMove s q p r := by
  cases PeerForward.step_cases hr with
  | recvOpen f hpc hf => exact .stay rfl (by simp [PeerForward.mayOpen, hpc, hf])
  | found f hpc | refuse f hpc | expect f hpc => exact .stay rfl (by simp [PeerForward.mayOpen, hpc])
  | send f w hpc => exact .send _ rfl rfl (by simp [PeerForward.mayOpen, hpc]) rfl rfl
  | sendErr f w code hpc hcode =>
    exact .send _ rfl rfl (by simp [PeerForward.mayOpen, hpc]) rfl (decide_eq_false hcode)
  | recvErr _ _ hcode | stopWait _ _ _ hcode | replyErr _ _ _ hcode =>
    exact .proceed rfl rfl (decide_eq_false hcode)
  | receive | reject | ready | splice | spliced => exact .proceed rfl rfl rfl
  | finish w code session hpc | cancel w code hpc =>
    refine .stop rfl rfl fun hrefused => ?_
    simpa [PeerForward.refused, hpc] using hrefused

theorem sent_mem_setPeer {n i : Nat} (h : .sent i ∈ ((s.apply e).setPeer q p').holders n) :
    .sent i ∈ s.holders n ∨ ∃ o, e = .send o ∧ o.conn = n ∧ i = s.sent.length := by
  obtain ⟨o, ho, hn⟩ := h
  obtain hold | ⟨he, hi⟩ := sent_apply_cases ho
  · exact .inl ⟨o, hold, hn⟩
  · exact .inr ⟨o, he, hn, hi⟩

theorem peer_mem_setPeer (hi : s.Inv) (hp : s.peers[q]? = some p) (hconn : p'.conn = p.conn)
    (hreq : ∀ q f, e ≠ .request q f) {n i : Nat}
    (h : .peer i ∈ ((s.apply e).setPeer q p').holders n) :
    (i ≠ q ∧ .peer i ∈ s.holders n) ∨ (i = q ∧ n = p.conn ∧
      (p'.mayOpen (s.requests q).isSome = true ∨ p'.refused = true ∧
        ∃ c attempt, s.conns[n]? = some c ∧ c.pc = .recvReply attempt q)) := by
  obtain ⟨d, hd, hn, hwhy⟩ := h
  simp only [setPeer, conns_apply] at hd hwhy
  have hmay : ∀ d : PeerForward, d.mayOpen ((s.apply e).requests i).isSome = true →
      d.mayOpen (s.requests i).isSome = true := by
    intro d hd
    obtain h | ⟨f, hf⟩ := mayOpen_apply hd
    · exact h
    · exact absurd hf (hreq i f)
  obtain ⟨hne, hd⟩ | ⟨rfl, rfl⟩ := List.getElem?_of_set hd
  · refine .inl ⟨hne, ?_⟩
    obtain hold | ⟨hrefused, hreq'⟩ := peers_apply_cases hi hd
    · exact ⟨d, hold, hn, hwhy.imp_left (hmay d)⟩
    · obtain hopen | ⟨hr, -⟩ := hwhy
      · obtain ⟨f, hf⟩ := hreq' hopen
        exact absurd hf (hreq i f)
      · rw [hrefused] at hr
        cases hr
  · exact .inr ⟨rfl, hn.symm.trans hconn, hwhy.imp_left (hmay _)⟩

theorem exclusive_peer (hi : s.Inv) (hx : s.Exclusive) (hp : s.peers[q]? = some p)
    (hconn : r.1.conn = p.conn) (hmove : PeerMove s q p r) :
    ((s.apply r.2).setPeer q r.1).Exclusive := by
  intro n
  have hcm : .conn ∈ ((s.apply r.2).setPeer q r.1).holders n → .conn ∈ s.holders n := by
    rintro ⟨c, hc, hmay⟩
    simp only [setPeer, conns_apply] at hc
    exact ⟨c, hc, hmay⟩
  cases hmove with
  | keep heffect hopen hrefused =>
    refine (hx n).anti fun x hmem => ?_
    cases x with
    | conn => exact hcm hmem
    | sent i =>
      refine (sent_mem_setPeer hmem).resolve_right ?_
      rintro ⟨o, he, -⟩
      rw [he] at heffect
      cases heffect
    | peer i =>
      obtain ⟨-, hold⟩ | ⟨rfl, hn, hwhy⟩ := peer_mem_setPeer hi hp hconn (Effect.ne_request heffect) hmem
      · exact hold
      · refine ⟨p, hp, hn.symm, ?_⟩
        obtain hmay | ⟨hr, hwait⟩ := hwhy
        · exact .inl (hopen hmay)
        · exact (hrefused hr).symm.imp_right fun h => ⟨h, hwait⟩
  | send o heffect ho hopen hdone hrefused =>
    have hreq : ∀ q f, r.2 ≠ .request q f := by
      intro q f h
      rw [heffect] at h
      cases h
    -- the relay itself no longer holds the right
    have hpm : ∀ i, .peer i ∈ ((s.apply r.2).setPeer q r.1).holders n →
        .peer i ∈ s.holders n ∧ i ≠ q := by
      intro i hmem
      obtain ⟨hne, hold⟩ | ⟨rfl, -, hmay | ⟨hr, -⟩⟩ := peer_mem_setPeer hi hp hconn hreq hmem
      · exact ⟨hold, hne⟩
      · rw [hdone] at hmay
        cases hmay
      · rw [hrefused] at hr
        cases hr
    by_cases hn : n = p.conn
    · have hold : .peer q ∈ s.holders n := ⟨p, hp, hn.symm, .inl hopen⟩
      refine (hx n).of_move hold (.sent s.sent.length) fun x hmem hne => ?_
      cases x with
      | conn => exact ⟨hcm hmem, nofun⟩
      | sent i =>
        obtain hs | ⟨o, -, -, rfl⟩ := sent_mem_setPeer hmem
        · exact ⟨hs, nofun⟩
        · exact absurd rfl hne
      | peer i => exact ⟨(hpm i hmem).1, fun h => (hpm i hmem).2 (Holder.peer.inj h)⟩
    · refine (hx n).anti fun x hmem => ?_
      cases x with
      | conn => exact hcm hmem
      | sent i =>
        refine (sent_mem_setPeer hmem).resolve_right ?_
        rintro ⟨o', he, hconn', -⟩
        obtain rfl := Effect.send.inj (heffect.symm.trans he)
        exact hn (hconn'.symm.trans ho)
      | peer i => exact (hpm i hmem).1

end Peer

/-! ### Runs -/

theorem agent_effect {j : Nat} {a : AgentForward} {l : AgentLabel} {r : AgentForward × Effect}
    (hr : a.step s j l = some r) :
    r.2 = .none ∨ (∃ pod sid, r.2 = .take pod sid) ∨ ∃ w session, r.2 = .put w session := by
  cases l with
  | recv | recvErr | ctxDone =>
    simp only [AgentForward.step] at hr
    split at hr <;> cases hr <;> exact .inl rfl
  | take =>
    simp only [AgentForward.step] at hr
    split at hr
    · split at hr
      · cases hr
        exact .inr (.inl ⟨_, _, rfl⟩)
      · cases hr
        exact .inl rfl
    · cases hr
  | put =>
    simp only [AgentForward.step] at hr
    split at hr
    · split at hr
      · cases hr
        exact .inr (.inr ⟨_, _, rfl⟩)
      · cases hr
        exact .inl rfl
    · cases hr
  | done =>
    simp only [AgentForward.step] at hr
    split at hr
    · split at hr <;> cases hr
      exact .inl rfl
    · cases hr

theorem exclusive_agent (hx : s.Exclusive) {j : Nat} {a : AgentForward} {l : AgentLabel}
    {r : AgentForward × Effect} (hr : a.step s j l = some r) :
    ((s.apply r.2).setAgent j r.1).Exclusive := by
  intro n
  obtain he | ⟨pod, sid, he⟩ | ⟨w, session, he⟩ := agent_effect hr
  all_goals
    rw [he]
    exact hx n

theorem exclusive_accept (hi : s.Inv) (hx : s.Exclusive) (pod : Nat) :
    Exclusive { s with conns := s.conns ++ [{ pod := pod }] } := by
  intro n
  have hnone : s.conns[s.conns.length]? = none := List.getElem?_eq_none (Nat.le_refl _)
  by_cases hn : n = s.conns.length
  · -- nobody has heard of the new connection yet
    subst hn
    refine Set.subsingleton_of_subset_singleton (a := .conn) fun x hmem => ?_
    cases x with
    | conn => rfl
    | sent i =>
      obtain ⟨o, ho, hconn⟩ := hmem
      obtain ⟨-, c, hc, -⟩ := hi.sent o (List.mem_of_getElem? ho)
      rw [hconn, hnone] at hc
      cases hc
    | peer q =>
      obtain ⟨p, hp, hconn, -⟩ := hmem
      obtain ⟨c, hc⟩ := (hi.peers q p hp).conn
      rw [hconn, hnone] at hc
      cases hc
  · have hold : ∀ c : PublicConn, (s.conns ++ [{ pod := pod }])[n]? = some c →
        s.conns[n]? = some c := by
      intro c hc
      rw [List.getElem?_append] at hc
      split at hc
      · exact hc
      · have := (List.getElem?_eq_some_iff.mp hc).1
        simp only [List.length_singleton] at this
        omega
    refine (hx n).anti fun x hmem => ?_
    cases x with
    | conn =>
      obtain ⟨c, hc, hmay⟩ := hmem
      exact ⟨c, hold c hc, hmay⟩
    | sent i => exact hmem
    | peer q =>
      obtain ⟨p, hp, hconn, hwhy⟩ := hmem
      refine ⟨p, hp, hconn, hwhy.imp_right ?_⟩
      rintro ⟨hr, c, attempt, hc, hpc⟩
      exact ⟨hr, c, attempt, hold c hc, hpc⟩

theorem step_exclusive {l : ForwardLabel} (hi : s.Inv) (hx : s.Exclusive)
    (h : s.step l = some t) : t.Exclusive := by
  obtain ⟨pod, rfl, rfl⟩ | ⟨pod, rfl, rfl⟩ | ⟨k, hl, c, r, rfl, hc, hr, rfl⟩ |
    ⟨q, pl, p, r, rfl, hp, hr, rfl⟩ | ⟨j, al, a, r, rfl, ha, hr, rfl⟩ := step_cases h
  · exact exclusive_accept hi hx pod
  · exact hx
  · exact exclusive_conn hi hx hc (conn_move (hi.conns k c hc) hr)
  · exact exclusive_peer hi hx hp (PeerForward.step_keeps hi hp hr).conn (peer_move hr)
  · exact exclusive_agent hx hr

theorem holders_exclusive_of_run {pods : List ForwardPod} {ls : List ForwardLabel}
    (h : Lts.Run step Fresh (init pods) ls s) : s.Exclusive := by
  have hboth : s.Inv ∧ s.Exclusive := by
    refine h.invariant (I := fun s => s.Inv ∧ s.Exclusive) ?_ ⟨init_inv pods, fun k x hx => ?_⟩
    · intro s l t hs hok hstep
      exact ⟨step_inv hs.1 hok hstep, step_exclusive hs.1 hs.2 hstep⟩
    · cases x with
      | conn => obtain ⟨c, hc, -⟩ := hx; cases hc
      | sent i => obtain ⟨o, ho, -⟩ := hx; cases ho
      | peer q => obtain ⟨p, hp, -⟩ := hx; cases hp
  exact hboth.2

theorem nodup_sent (hx : s.Exclusive) : (s.sent.map OpenForward.conn).Nodup := by
  rw [List.nodup_iff_getElem?_ne_getElem?]
  intro i j hij hj heq
  have hi : i < (s.sent.map OpenForward.conn).length := Nat.lt_trans hij hj
  rw [List.length_map] at hi hj
  simp only [List.getElem?_map, List.getElem?_eq_getElem hi, List.getElem?_eq_getElem hj,
    Option.map_some, Option.some.injEq] at heq
  have hmi : .sent i ∈ s.holders (s.sent[i]).conn := ⟨s.sent[i], List.getElem?_eq_getElem hi, rfl⟩
  have hmj : .sent j ∈ s.holders (s.sent[i]).conn :=
    ⟨s.sent[j], List.getElem?_eq_getElem hj, heq.symm⟩
  exact absurd (Holder.sent.inj (hx _ hmi hmj)) (Nat.ne_of_lt hij)

/-- Session ids do not collide, so an id belongs to one connection. -/
theorem conn_of_sessionId (hi : s.Inv) {o o' : OpenForward} (ho : o ∈ s.sent) (ho' : o' ∈ s.sent)
    (h : o.sessionId = o'.sessionId) : o.conn = o'.conn := by
  have hg := (hi.sent o ho).1
  have hg' := (hi.sent o' ho').1
  rw [h] at hg
  exact congrArg Prod.snd (List.inj_on_of_nodup_map hi.generated hg hg' rfl)

theorem splice_agrees (hi : s.Inv) {j k : Nat} (h : (j, k) ∈ s.splices) :
    ∃ a f c o, s.agents[j]? = some a ∧ a.first = some f ∧ f.type = .open ∧ s.conns[k]? = some c ∧
      o ∈ s.sent ∧ o.conn = k ∧ o.sessionId = f.sessionId ∧ o.target = c.mapping.target ∧
      ∀ o' ∈ s.sent, o'.sessionId = f.sessionId → o'.conn = k := by
  obtain ⟨session, rfl, hopen, w, sid, hm, ⟨pod, hw⟩, o, ho, rfl, rfl⟩ := hi.splices j k h
  obtain ⟨-, k', pod', hw'⟩ := hi.matched _ _ _ hm
  have hsid : o.sessionId = session.first.sessionId :=
    (Waiter.mk.inj (Option.some.inj (hw.symm.trans hw'))).2.1
  obtain ⟨a, ha, -, hf⟩ := hm
  obtain ⟨-, c, hc, -, -, htarget⟩ := hi.sent o ho
  refine ⟨a, session.first, c, o, ha, hf, hopen, hc, ho, rfl, hsid, htarget.symm, ?_⟩
  intro o' ho' hs'
  exact conn_of_sessionId hi ho' ho (hs'.trans hsid.symm)

theorem splice_unique (hi : s.Inv) {j k k' : Nat} (h : (j, k) ∈ s.splices)
    (h' : (j, k') ∈ s.splices) : k = k' := by
  obtain ⟨session, rfl, -, w, sid, ⟨a, ha, hw, -⟩, ⟨pod, hwt⟩, -⟩ := hi.splices j k h
  obtain ⟨session', hj, -, w', sid', ⟨a', ha', hw', -⟩, ⟨pod', hwt'⟩, -⟩ := hi.splices _ k' h'
  rw [hj] at ha'
  obtain rfl := Option.some.inj (ha.symm.trans ha')
  obtain rfl := Option.some.inj (hw.symm.trans hw')
  exact (Waiter.mk.inj (Option.some.inj (hwt.symm.trans hwt'))).2.2

def bytesRead (c : PublicConn) : Tunnel.Bytes := (c.endpoint.map (·.read)).getD []

/-- The connection is paired with an agent stream whose first frame was OPEN; across pods, the
relay is, and its READY has been received. -/
def PairedOpen (s : Forwarding) (k : Nat) (c : PublicConn) : Prop :=
  (∃ session w, c.session = some session ∧ s.Matched session.stream w session.first ∧
    session.first.type = .open) ∨
  ∃ q p session w, c.relay = some q ∧ s.peers[q]? = some p ∧ p.conn = k ∧ p.reply = some .ready ∧
    p.session = some session ∧ s.Matched session.stream w session.first ∧ session.first.type = .open

theorem pairedOpen_of_bytesRead (hi : s.Inv) {k : Nat} {c : PublicConn} (hc : s.conns[k]? = some c)
    (hread : bytesRead c ≠ []) : s.PairedOpen k c := by
  have hok := hi.conns k c hc
  have hend : c.endpoint ≠ none := by
    intro hn
    rw [bytesRead, hn] at hread
    exact hread rfl
  obtain ⟨session, hses, hopen⟩ | hrelay := hok.endpoint hend
  · obtain ⟨w, -, hm, -⟩ := hok.session session hses
    exact .inl ⟨session, w, hses, hm, hopen⟩
  · obtain ⟨q, hq⟩ := Option.ne_none_iff_exists'.mp hrelay
    obtain ⟨p, hp, hconn, hreply⟩ := hok.relay q hq
    obtain ⟨session, hses, hopen⟩ := (hi.peers q p hp).ready hreply
    obtain ⟨w, -, hm, -⟩ := (hi.peers q p hp).session session hses
    exact .inr ⟨q, p, session, w, hq, hp, hconn, hreply, hses, hm, hopen⟩

/-- At most one OpenForward is sent for a public connection; an agent stream is spliced with at most
one, the one whose OpenForward carried the stream's session id and the target of its mapping; and
nothing is read from a connection before it is paired. -/
theorem pairing_of_run {pods : List ForwardPod} {ls : List ForwardLabel}
    (h : Lts.Run step Fresh (init pods) ls s) :
    (s.sent.map OpenForward.conn).Nodup ∧
    (∀ j k k', (j, k) ∈ s.splices → (j, k') ∈ s.splices → k = k') ∧
    (∀ j k, (j, k) ∈ s.splices → ∃ a f c o, s.agents[j]? = some a ∧ a.first = some f ∧
      f.type = .open ∧ s.conns[k]? = some c ∧ o ∈ s.sent ∧ o.conn = k ∧
      o.sessionId = f.sessionId ∧ o.target = c.mapping.target ∧
      ∀ o' ∈ s.sent, o'.sessionId = f.sessionId → o'.conn = k) ∧
    ∀ k c, s.conns[k]? = some c → bytesRead c ≠ [] → s.PairedOpen k c := by
  have hi := inv_of_run h
  refine ⟨nodup_sent (holders_exclusive_of_run h), ?_, ?_, ?_⟩
  · exact fun j k k' => splice_unique hi
  · exact fun j k => splice_agrees hi
  · exact fun k c => pairedOpen_of_bytesRead hi

def staleHolder : List ForwardLabel :=
  [.accept 0, .conn 0 (.lookup (.ok ⟨"a", "10.0.0.2:80", "", false⟩)), .conn 0 (.get false),
    .conn 0 (.locate (.ok "pod-2")), .conn 0 (.sessionId (.ok "s1")), .conn 0 (.connect (.ok 1)),
    .conn 0 (.sendOpen none), .peer 0 .recvOpen, .peer 0 (.get false), .conn 0 .recvStatus,
    .conn 0 (.locate (.ok "pod-3")), .conn 0 (.sessionId (.ok "s2")), .conn 0 (.connect (.ok 2)),
    .conn 0 (.sendOpen none), .peer 1 .recvOpen, .peer 1 (.get true), .peer 1 .expect,
    .peer 1 (.send none), .arrive 2, .agent 0 (.recv { sessionId := "s2", type := .open }),
    .agent 0 .take, .agent 0 .put, .peer 1 .receive, .peer 1 (.reply none), .conn 0 .recvReply,
    .peer 1 .splice, .conn 0 (.splice (.read [7] none))]

theorem pairing_of_run_staleHolder : ∃ s c,
    Lts.Run step Fresh (init [⟨"pod-1", true⟩, ⟨"pod-2", true⟩, ⟨"pod-3", true⟩]) staleHolder s ∧
      (s.sent.map OpenForward.conn).Nodup ∧ s.sent = [⟨0, "a", "s2", "10.0.0.2:80"⟩] ∧
      s.splices = [(0, 0)] ∧ s.conns[0]? = some c ∧ bytesRead c = [7] ∧ s.PairedOpen 0 c := by
  let s := (Lts.execOk step Fresh (init [⟨"pod-1", true⟩, ⟨"pod-2", true⟩, ⟨"pod-3", true⟩])
    staleHolder).get (by decide +kernel)
  let c := (s.conns[0]?).get (by decide +kernel)
  have hrun := Lts.run_of_execOk (t := s) (Option.some_get _).symm
  have hc : s.conns[0]? = some c := (Option.some_get _).symm
  have hread : bytesRead c = [7] := by decide +kernel
  obtain ⟨hnodup, -, -, hpaired⟩ := pairing_of_run hrun
  exact ⟨s, c, hrun, hnodup, by decide +kernel, by decide +kernel, hc, hread,
    hpaired 0 c hc (by rw [hread]; decide)⟩

end Forwarding
end Hostlink.Controller
