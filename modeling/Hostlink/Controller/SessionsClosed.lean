import Mathlib.Order.BooleanAlgebra.Set
import Hostlink.Controller.SessionOwner

/-! Every session that was delivered is closed once by the handler that expected it, in a run in
which no handler gives up on a session that has found it. Otherwise nobody closes the session, and
the agent's Forward RPC stays open. -/

namespace Hostlink.Controller
open Function (update)

theorem SessionTable.get_cancel_ne (t : SessionTable) (sid : String) (w : Nat) :
    (t.cancel sid w).waiters.get sid ≠ some w := by
  unfold cancel
  split
  · rw [GoMap.get_erase_self]
    exact fun h => by cases h
  · next h => exact h

namespace Forwarding
variable {s : Forwarding} {e : Effect}

@[simp] theorem stage_apply (s : Forwarding) (e : Effect) : (s.apply e).stage = s.stage := by
  funext h
  cases h with
  | conn k => rw [stage, conns_apply, stage]
  | peer q =>
    rw [stage, peers_apply, stage]
    by_cases hlt : q < s.peers.length
    · rw [List.getElem?_append_left hlt]
    · rw [List.getElem?_append_right (Nat.le_of_not_lt hlt), List.getElem?_eq_none (Nat.le_of_not_lt hlt)]
      -- a relay that was just opened has not expected anything
      cases hp : e.newPeers[q - s.peers.length]? with
      | none => rfl
      | some p =>
        cases e with
        | openPeer k pod =>
          obtain rfl := List.mem_singleton.mp (List.mem_of_getElem? hp)
          rfl
        | none | generate | expect | cancel | receive | send | splice | closeDone | request | take
        | put => cases hp

theorem stage_setConn {k : Nat} {c : PublicConn} (hc : s.conns[k]? = some c) (c' : PublicConn) :
    (s.setConn k c').stage = update s.stage (.conn k) c'.stage := by
  funext h
  cases h with
  | conn n =>
    by_cases hn : n = k
    · subst hn
      rw [Function.update_self, stage, setConn,
        List.getElem?_set_self (List.getElem?_eq_some_iff.mp hc).1]
      rfl
    · rw [Function.update_of_ne (fun h => hn (ForwardHandler.conn.inj h)), stage, setConn,
        List.getElem?_set_ne (Ne.symm hn), stage]
  | peer q =>
    have hne : ForwardHandler.peer q ≠ .conn k := fun h => by cases h
    rw [Function.update_of_ne hne]
    rfl

theorem stage_setPeer {q : Nat} {p : PeerForward} (hp : s.peers[q]? = some p) (p' : PeerForward) :
    (s.setPeer q p').stage = update s.stage (.peer q) p'.stage := by
  funext h
  cases h with
  | conn k =>
    have hne : ForwardHandler.conn k ≠ .peer q := fun h => by cases h
    rw [Function.update_of_ne hne]
    rfl
  | peer n =>
    by_cases hn : n = q
    · subst hn
      rw [Function.update_self, stage, setPeer,
        List.getElem?_set_self (List.getElem?_eq_some_iff.mp hp).1]
      rfl
    · rw [Function.update_of_ne (fun h => hn (ForwardHandler.peer.inj h)), stage, setPeer,
        List.getElem?_set_ne (Ne.symm hn), stage]

structure SameTables (s s' : Forwarding) : Prop where
  waiters : s'.waiters = s.waiters
  sessions : s'.sessions = s.sessions
  inbox : s'.inbox = s.inbox
  closed : s'.closed = s.closed
  agents : s'.agents = s.agents

theorem SameTables.of_plain (s : Forwarding) (he : e.isPlain = true) : SameTables s (s.apply e) := by
  cases e with
  | none | generate | send | splice | openPeer | request => exact ⟨rfl, rfl, rfl, rfl, rfl⟩
  | expect | cancel | receive | closeDone | take | put => cases he

theorem SameTables.registered {s s' : Forwarding} (h : SameTables s s') :
    s'.registered = s.registered := by
  unfold Forwarding.registered
  rw [h.waiters, h.sessions]

end Forwarding

namespace ForwardHistory
open Forwarding
variable {t : ForwardHistory} {s' : Forwarding} {h : ForwardHandler} {y : Handoff.Stage} {e : Effect}
  {givesUp : Bool}

def extend (t : ForwardHistory) (h : ForwardHandler) (s' : Forwarding) : ForwardHistory where
  sys := s'
  owners := t.owners ++ if t.sys.waiters.length < s'.waiters.length then [h] else []
  delivered := t.delivered

theorem extend_of_waiters (hw : s'.waiters = t.sys.waiters) :
    t.extend h s' = ⟨s', t.owners, t.delivered⟩ := by
  rw [extend, hw, if_neg (Nat.lt_irrefl _), List.append_nil]

theorem handoff_extend (hsame : SameTables (t.sys.apply e) s') :
    (t.extend h s').handoff = { t.handoff with
      stage := s'.stage
      owners := (t.extend h s').owners
      registered := (t.sys.apply e).registered
      inbox := fun w => ((t.sys.apply e).inbox w).map (·.stream)
      released := (t.sys.apply e).closed } := by
  have hagents : s'.agents = t.sys.agents := hsame.agents.trans (agents_apply ..)
  simp only [handoff, extend, hagents, hsame.inbox, hsame.closed, hsame.registered]

theorem registered_apply (hok : t.Ok) {w : Nat} (hw : w ∈ (t.sys.apply e).registered) :
    w ∈ t.sys.registered ∨ (∃ wt, e = .expect wt) ∧ w = t.sys.waiters.length := by
  obtain ⟨wt, -, hget⟩ := hw
  obtain hold | ⟨k, he, hlen⟩ := sessions_apply hget
  · obtain ⟨k, hk⟩ := hok.sessions _ _ _ hold
    exact .inl ⟨_, hk, hold⟩
  · exact .inr ⟨⟨_, he⟩, hlen⟩

section Handler
variable (hstage : s'.stage = update t.sys.stage h y) (hsame : SameTables (t.sys.apply e) s')
include hstage hsame

theorem handoff_extend_of_sessions (hwaiters : (t.sys.apply e).waiters = t.sys.waiters)
    (hsessions : (t.sys.apply e).sessions = t.sys.sessions) :
    (t.extend h s').handoff = { t.handoff with
      stage := update t.handoff.stage h y
      inbox := fun w => ((t.sys.apply e).inbox w).map (·.stream)
      released := (t.sys.apply e).closed } := by
  have hextend := extend_of_waiters (t := t) (h := h) (hsame.waiters.trans hwaiters)
  have hregistered : (t.sys.apply e).registered = t.sys.registered := by
    unfold registered
    rw [hwaiters, hsessions]
  rw [handoff_extend hsame, hstage, hextend, hregistered]
  rfl

theorem step_keep (he : e.isPlain = true) (hy : y = t.sys.stage h) :
    Handoff.Step t.handoff (t.extend h s').handoff := by
  have hplain := SameTables.of_plain t.sys he
  rw [handoff_extend_of_sessions hstage hsame hplain.waiters hplain.sessions, hplain.inbox,
    hplain.closed, hy]
  have hself : update t.handoff.stage h (t.sys.stage h) = t.handoff.stage :=
    Function.update_eq_self h t.handoff.stage
  rw [hself]
  exact .quiet

theorem step_giveUp {w : Nat} (he : e.isPlain = true) (hwaits : t.sys.stage h = .waiting w)
    (hy : y = .leaving w) (hfree : t.sys.isMatched w = false) :
    Handoff.Step t.handoff (t.extend h s').handoff := by
  have hplain := SameTables.of_plain t.sys he
  rw [handoff_extend_of_sessions hstage hsame hplain.waiters hplain.sessions, hplain.inbox,
    hplain.closed, hy]
  refine .stop h w hwaits fun j hj => ?_
  obtain ⟨a, ha, hw⟩ := Option.bind_eq_some_iff.mp hj
  have := List.any_eq_false.mp hfree a (List.mem_of_getElem? ha)
  exact this (decide_eq_true hw)

theorem step_receive {w : Nat} {session : ForwardSession} (he : e = .receive w)
    (hwaits : t.sys.stage h = .waiting w) (hinbox : t.sys.inbox w = some session)
    (hy : y = .holding w session.stream) : Handoff.Step t.handoff (t.extend h s').handoff := by
  subst he hy
  have hempty : (fun n => ((t.sys.apply (.receive w)).inbox n).map (·.stream)) =
      update t.handoff.inbox w none := by
    funext n
    by_cases hn : n = w
    · subst hn
      simp only [apply, Function.update_self, Option.map_none]
    · simp only [apply, Function.update_of_ne hn, handoff]
  rw [handoff_extend_of_sessions hstage hsame rfl rfl, hempty]
  exact .receive h w session.stream hwaits (congrArg (Option.map _) hinbox)

theorem step_closeDone {w j : Nat} (he : e = .closeDone j) (hholds : t.sys.stage h = .holding w j)
    (hy : y = .leaving w) : Handoff.Step t.handoff (t.extend h s').handoff := by
  subst he hy
  rw [handoff_extend_of_sessions hstage hsame rfl rfl]
  exact .release h w j hholds

variable (hok : t.Ok)
include hok

theorem step_expect {wt : Waiter} (he : e = .expect wt) (hidle : t.sys.stage h = .idle)
    (hy : y = .waiting t.sys.waiters.length) :
    Handoff.Step t.handoff (t.extend h s').handoff := by
  subst he hy
  have howners : (t.extend h s').owners = t.owners ++ [h] := by
    have hwaiters : s'.waiters = t.sys.waiters ++ [wt] := hsame.waiters
    simp only [extend, hwaiters, List.length_append, List.length_singleton, Nat.lt_succ_self,
      if_true]
  rw [handoff_extend hsame, hstage, howners, ← hok.length]
  refine .register h _ hidle fun w hw => ?_
  obtain hold | ⟨-, rfl⟩ := registered_apply hok hw
  · exact .inr hold
  · exact .inl hok.length.symm

theorem step_cancel {w : Nat} (he : e = .cancel w) (hleaves : t.sys.stage h = .leaving w)
    (hy : y = .idle) : Handoff.Step t.handoff (t.extend h s').handoff := by
  subst he hy
  have hwaiters : (t.sys.apply (.cancel w)).waiters = t.sys.waiters := by
    rw [waiters_apply]
    exact List.append_nil _
  have hrest : (t.sys.apply (.cancel w)).inbox = t.sys.inbox ∧
      (t.sys.apply (.cancel w)).closed = t.sys.closed := by
    simp only [apply]
    split <;> exact ⟨rfl, rfl⟩
  have howners : (t.extend h s').owners = t.owners := by
    rw [extend_of_waiters (hsame.waiters.trans hwaiters)]
  rw [handoff_extend hsame, hstage, hrest.1, hrest.2, howners]
  refine .unregister h w _ hleaves fun w' hw' => ⟨?_, ?_⟩
  · exact (registered_apply hok hw').resolve_right fun hnew => by cases hnew.1.choose_spec
  · rintro rfl
    obtain ⟨wt, hwt, hget⟩ := hw'
    rw [hwaiters] at hwt
    simp only [apply, hwt, setSessions, Function.update_self] at hget
    exact (t.sys.sessions wt.pod).get_cancel_ne wt.sessionId w' hget

end Handler

theorem step_handler (hok : t.Ok) (hmove : StageMove t.sys givesUp (t.sys.stage h) y e)
    (hstage : s'.stage = update t.sys.stage h y) (hsame : SameTables (t.sys.apply e) s')
    (hcareful : givesUp = true → ∀ w, (t.sys.stage h).waiter = some w → t.sys.isMatched w = false) :
    Handoff.Step t.handoff (t.extend h s').handoff := by
  cases hmove with
  | keep e he => exact step_keep hstage hsame he rfl
  | expect wt hx => exact step_expect hstage hsame hok rfl hx rfl
  | giveUp w e he hx hgives =>
    exact step_giveUp hstage hsame he hx rfl (hcareful hgives w (by rw [hx]; rfl))
  | receive w session hx hinbox => exact step_receive hstage hsame rfl hx hinbox rfl
  | closeDone w j hx => exact step_closeDone hstage hsame rfl hx rfl
  | cancel w hx => exact step_cancel hstage hsame hok rfl hx rfl

/-! ### The agent's streams -/

section Agent
variable {j w : Nat} {a a' : AgentForward} {l : AgentLabel} {r : AgentForward × Effect}

theorem found_set {agents : List AgentForward} (ha : agents[j]? = some a) :
    (fun n => ((agents.set j a')[n]?).bind (·.waiter)) =
      update (fun n => (agents[n]?).bind (·.waiter)) j a'.waiter := by
  funext n
  by_cases hn : n = j
  · subst hn
    rw [Function.update_self, List.getElem?_set_self (List.getElem?_eq_some_iff.mp ha).1]
    rfl
  · rw [Function.update_of_ne hn, List.getElem?_set_ne (Ne.symm hn)]

theorem pending_set {agents : List AgentForward} (ha : agents[j]? = some a) :
    { n | ∃ b, (agents.set j a')[n]? = some b ∧ b.pc = .put } =
      if a'.pc = .put then insert j { n | ∃ b, agents[n]? = some b ∧ b.pc = .put }
      else { n | ∃ b, agents[n]? = some b ∧ b.pc = .put } \ {j} := by
  have hself : (agents.set j a')[j]? = some a' :=
    List.getElem?_set_self (List.getElem?_eq_some_iff.mp ha).1
  ext n
  by_cases hn : n = j
  · subst hn
    split <;> simp_all
  · have hother : (agents.set j a')[n]? = agents[n]? := List.getElem?_set_ne (Ne.symm hn)
    split <;> simp_all

theorem handoff_agent (ha : t.sys.agents[j]? = some a) (delivered : List (Nat × Nat)) :
    (⟨(t.sys.apply e).setAgent j a', t.owners, delivered⟩ : ForwardHistory).handoff =
      { t.handoff with
        registered := (t.sys.apply e).registered
        found := update t.handoff.found j a'.waiter
        pending := if a'.pc = .put then insert j t.handoff.pending else t.handoff.pending \ {j}
        inbox := fun w => ((t.sys.apply e).inbox w).map (·.stream)
        released := (t.sys.apply e).closed
        delivered := delivered } := by
  ext1
  · exact stage_apply t.sys e
  · rfl
  · rfl
  · simp only [handoff, setAgent, agents_apply]
    exact found_set ha
  · simp only [handoff, setAgent, agents_apply]
    exact pending_set ha
  · rfl
  · rfl
  · rfl

theorem found_eq (ha : t.sys.agents[j]? = some a) : t.handoff.found j = a.waiter := by
  show (t.sys.agents[j]?).bind _ = _
  rw [ha]
  rfl

theorem not_mem_pending (ha : t.sys.agents[j]? = some a) (hpc : a.pc ≠ .put) :
    j ∉ t.handoff.pending := by
  rintro ⟨b, hb, hput⟩
  obtain rfl := Option.some.inj (ha.symm.trans hb)
  exact hpc hput

theorem step_agent_quiet (ha : t.sys.agents[j]? = some a) (hpc : a.pc ≠ .put)
    (hpc' : a'.pc ≠ .put) (hw : a'.waiter = a.waiter) :
    Handoff.Step t.handoff
      (⟨(t.sys.apply .none).setAgent j a', t.owners, t.delivered⟩ : ForwardHistory).handoff := by
  have hfound : update t.handoff.found j a'.waiter = t.handoff.found := by
    refine Function.update_eq_iff.mpr ⟨?_, fun _ _ => rfl⟩
    rw [hw, found_eq ha]
  rw [handoff_agent ha, hfound, if_neg hpc',
    Set.sdiff_singleton_eq_self (not_mem_pending ha hpc)]
  exact .quiet

theorem stage_ne_leaving {h : ForwardHandler} (hw : t.sys.isLeaving w = false) :
    t.sys.stage h ≠ .leaving w := by
  obtain ⟨hconns, hpeers⟩ := Bool.or_eq_false_iff.mp hw
  cases h with
  | conn k =>
    cases hc : t.sys.conns[k]? with
    | none => simp [stage, hc]
    | some c =>
      have := List.any_eq_false.mp hconns c (List.mem_of_getElem? hc)
      simpa [stage, hc] using this
  | peer q =>
    cases hp : t.sys.peers[q]? with
    | none => simp [stage, hp]
    | some p =>
      have := List.any_eq_false.mp hpeers p (List.mem_of_getElem? hp)
      simpa [stage, hp] using this

theorem step_agent_take (hok : t.Ok) (ha : t.sys.agents[j]? = some a) {f : Tunnel.Frame}
    (hpc : a.pc = .deliver) (hget : (t.sys.sessions a.pod).waiters.get f.sessionId = some w)
    (hstay : t.sys.isLeaving w = false) :
    Handoff.Step t.handoff (⟨(t.sys.apply (.take a.pod f.sessionId)).setAgent j
      { a with pc := .put, waiter := some w }, t.owners, t.delivered⟩ : ForwardHistory).handoff := by
  obtain ⟨k, hk⟩ := hok.sessions _ _ _ hget
  rw [handoff_agent ha, if_pos rfl]
  refine .find j w _ ?_ ⟨_, hk, hget⟩ (fun h => stage_ne_leaving hstay) fun w' hw' => ⟨?_, ?_⟩
  · exact (found_eq ha).trans (hok.agents j a ha (.inr hpc))
  · exact (registered_apply hok hw').resolve_right fun hnew => by cases hnew.1.choose_spec
  · rintro rfl
    obtain ⟨wt, hwt, hgot⟩ := hw'
    obtain rfl := Option.some.inj (hk.symm.trans hwt)
    simp only [apply, setSessions, Function.update_self, SessionTable.remove,
      GoMap.get_erase_self] at hgot
    cases hgot

theorem step_agent_put (ha : t.sys.agents[j]? = some a) (hpc : a.pc = .put)
    (hw : a.waiter = some w) (hempty : t.sys.inbox w = none) (f : Tunnel.Frame) :
    Handoff.Step t.handoff (⟨(t.sys.apply (.put w ⟨j, f⟩)).setAgent j { a with pc := .wait },
      t.owners, (w, j) :: t.delivered⟩ : ForwardHistory).handoff := by
  have hfound : t.handoff.found j = some w := (found_eq ha).trans hw
  have hself : update t.handoff.found j a.waiter = t.handoff.found := by
    refine Function.update_eq_iff.mpr ⟨?_, fun _ _ => rfl⟩
    rw [hw, hfound]
  have hinbox : (fun n => ((t.sys.apply (.put w ⟨j, f⟩)).inbox n).map (·.stream)) =
      update t.handoff.inbox w (some j) := by
    funext n
    by_cases hn : n = w
    · subst hn
      simp only [apply, Function.update_self, Option.map_some]
    · simp only [apply, Function.update_of_ne hn, handoff]
  rw [handoff_agent ha, hself, hinbox, if_neg (fun h => by cases h)]
  exact .put j w ⟨a, ha, hpc⟩ hfound (congrArg (Option.map _) hempty)

theorem step_agent (hok : t.Ok) (ha : t.sys.agents[j]? = some a)
    (hr : a.step t.sys j l = some r) (hcareful : t.sys.careful (.agent j l) = true) :
    Handoff.Step t.handoff (⟨(t.sys.apply r.2).setAgent j r.1, t.owners,
      delivers t.sys (.agent j l) ++ t.delivered⟩ : ForwardHistory).handoff := by
  cases l with
  | recv f =>
    simp only [AgentForward.step] at hr
    split at hr
    · next hpc =>
      cases hr
      refine step_agent_quiet ha (by simp [hpc]) ?_ rfl
      dsimp only
      split <;> simp
    · cases hr
  | recvErr =>
    simp only [AgentForward.step] at hr
    split at hr
    · next hpc =>
      cases hr
      exact step_agent_quiet ha (by simp [hpc]) (by simp) rfl
    · cases hr
  | take =>
    simp only [AgentForward.step] at hr
    split at hr
    · next f hpc hf =>
      split at hr
      · next w hget =>
        cases hr
        refine step_agent_take hok ha hpc hget ?_
        simpa only [careful, ha, Option.bind_some, lookup, hf, hget, Option.all_some,
          Bool.not_eq_true'] using hcareful
      · cases hr
        exact step_agent_quiet ha (by simp [hpc]) (by simp) rfl
    · cases hr
  | put =>
    simp only [AgentForward.step] at hr
    split at hr
    · next f w hpc hf hw =>
      have hdelivers : delivers t.sys (.agent j .put) =
          if (t.sys.inbox w).isNone then [(w, j)] else [] := by
        simp only [delivers, ha, Option.bind_some, hw, Option.filter]
        split <;> rfl
      rw [hdelivers]
      split at hr
      · next hempty =>
        cases hr
        rw [if_pos hempty]
        exact step_agent_put ha hpc hw (Option.isNone_iff_eq_none.mp hempty) f
      · next hfull =>
        cases hr
        have hself : update t.handoff.found j a.waiter = t.handoff.found :=
          Function.update_eq_iff.mpr ⟨(found_eq ha).symm, fun _ _ => rfl⟩
        rw [if_neg hfull, handoff_agent ha, hself, if_neg (fun h => by cases h)]
        exact .drop j
    · cases hr
  | done =>
    simp only [AgentForward.step] at hr
    split at hr
    · next hpc =>
      split at hr
      · cases hr
        exact step_agent_quiet ha (by simp [hpc]) (by simp) rfl
      · cases hr
    · cases hr
  | ctxDone =>
    simp only [AgentForward.step] at hr
    split at hr
    · next hpc =>
      cases hr
      exact step_agent_quiet ha (by simp [hpc]) (by simp) rfl
    · next hpc =>
      cases hr
      exact step_agent_quiet ha (by simp [hpc]) (by simp) rfl
    · cases hr

end Agent

/-! ### Runs -/

theorem handoff_arrive (pod : Nat) : ({ t with
    sys := { t.sys with agents := t.sys.agents ++ [{ pod := pod }] } } : ForwardHistory).handoff =
      t.handoff := by
  ext1
  case found =>
    exact funext (List.apply_getElem?_concat (f := fun a => a.bind AgentForward.waiter) rfl)
  case pending =>
    ext n
    constructor
    · rintro ⟨a, ha, hpc⟩
      obtain hold | ⟨-, rfl⟩ := List.getElem?_of_concat ha
      · exact ⟨a, hold, hpc⟩
      · cases hpc
    · rintro ⟨a, ha, hpc⟩
      exact ⟨a, List.getElem?_append_of ha _, hpc⟩
  all_goals rfl

theorem handoff_accept (pod : Nat) : ({ t with
    sys := { t.sys with conns := t.sys.conns ++ [{ pod := pod }] } } : ForwardHistory).handoff =
      t.handoff := by
  ext1
  case stage =>
    funext h
    cases h with
    | conn k =>
      exact List.apply_getElem?_concat (f := fun c => (c.map PublicConn.stage).getD .idle) rfl k
    | peer q => rfl
  all_goals rfl

theorem not_isMatched {x : Handoff.Stage}
    (hcareful : (!givesUp || x.waiter.all fun w => !t.sys.isMatched w) = true)
    (hgives : givesUp = true) (w : Nat) (hw : x.waiter = some w) : t.sys.isMatched w = false := by
  simpa [hgives, hw] using hcareful

theorem step_handoff {t' : ForwardHistory} {l : ForwardLabel} (hok : t.Ok)
    (hcareful : t.sys.careful l = true) (hs : t.step l = some t') :
    Handoff.Step t.handoff t'.handoff := by
  obtain ⟨s', hs', rfl⟩ := Option.map_eq_some_iff.mp hs
  obtain ⟨pod, rfl, rfl⟩ | ⟨pod, rfl, rfl⟩ | ⟨k, hl, c, r, rfl, hc, hr, rfl⟩ |
    ⟨q, pl, p, r, rfl, hp, hr, rfl⟩ | ⟨j, al, a, r, rfl, ha, hr, rfl⟩ := Forwarding.step_cases hs'
  · simp only [Nat.lt_irrefl, if_false, List.append_nil, delivers, List.nil_append, handoff_accept]
    exact .quiet
  · simp only [Nat.lt_irrefl, if_false, List.append_nil, delivers, List.nil_append, handoff_arrive]
    exact .quiet
  · have hc' : (t.sys.apply r.2).conns[k]? = some c := by rw [conns_apply, hc]
    have hstage : t.sys.stage (.conn k) = c.stage := by rw [stage, hc]; rfl
    show Handoff.Step t.handoff (t.extend (.conn k) ((t.sys.apply r.2).setConn k r.1)).handoff
    refine step_handler hok
      (by rw [hstage]; exact PublicConn.step_stage hr) ?_ ⟨rfl, rfl, rfl, rfl, rfl⟩
      (not_isMatched hcareful)
    rw [stage_setConn hc', stage_apply]
  · have hp' : (t.sys.apply r.2).peers[q]? = some p := by
      rw [peers_apply]
      exact List.getElem?_append_of hp _
    have hstage : t.sys.stage (.peer q) = p.stage := by rw [stage, hp]; rfl
    show Handoff.Step t.handoff (t.extend (.peer q) ((t.sys.apply r.2).setPeer q r.1)).handoff
    refine step_handler hok
      (by rw [hstage]; exact PeerForward.step_stage hr) ?_ ⟨rfl, rfl, rfl, rfl, rfl⟩
      (not_isMatched hcareful)
    rw [stage_setPeer hp', stage_apply]
  · simp only [ForwardLabel.handler, Option.toList_none, ite_self, List.append_nil]
    exact step_agent hok ha hr hcareful

theorem init_ok (pods : List ForwardPod) : (init pods).Ok where
  length := rfl
  sessions := fun _ _ _ h => by cases h
  agents := fun _ _ h => by cases h

theorem Ok.tables (hok : t.Ok) {owners : List ForwardHandler} {delivered : List (Nat × Nat)}
    (hwaiters : s'.waiters = (t.sys.apply e).waiters)
    (hsessions : s'.sessions = (t.sys.apply e).sessions)
    (hlength : owners.length = s'.waiters.length)
    (hagents : ∀ (j : Nat) (a : AgentForward), s'.agents[j]? = some a →
      a.pc = .recv ∨ a.pc = .deliver → a.waiter = none) :
    (⟨s', owners, delivered⟩ : ForwardHistory).Ok where
  length := hlength
  sessions := fun pod w sid hget => by
    have hget : ((t.sys.apply e).sessions pod).waiters.get sid = some w := by
      rw [← hsessions]
      exact hget
    show ∃ k, s'.waiters[w]? = some ⟨pod, sid, k⟩
    rw [hwaiters, waiters_apply]
    obtain hold | ⟨k, rfl, rfl⟩ := sessions_apply hget
    · obtain ⟨k, hk⟩ := hok.sessions pod w sid hold
      exact ⟨k, List.getElem?_append_of hk _⟩
    · exact ⟨k, List.getElem?_concat_length⟩
  agents := hagents

theorem Ok.extend (hok : t.Ok) (hsame : SameTables (t.sys.apply e) s') :
    (t.extend h s').Ok := by
  refine hok.tables hsame.waiters hsame.sessions ?_ ?_
  · have hwaiters : s'.waiters = t.sys.waiters ++ e.newWaiters :=
      hsame.waiters.trans (waiters_apply ..)
    rw [hwaiters, List.length_append, List.length_append, hok.length]
    cases e with
    | expect wt => simp only [Effect.newWaiters, List.length_singleton, Nat.lt_succ_self, if_true]
    | none | generate | cancel | receive | send | splice | closeDone | openPeer | request | take
    | put => simp only [Effect.newWaiters, List.length_nil, Nat.add_zero, Nat.lt_irrefl, if_false]
  · rw [hsame.agents, agents_apply]
    exact hok.agents

theorem agent_keeps {j : Nat} {a : AgentForward} {l : AgentLabel} {r : AgentForward × Effect}
    (hr : a.step s' j l = some r) (ha : a.pc = .recv ∨ a.pc = .deliver → a.waiter = none) :
    (r.1.pc = .recv ∨ r.1.pc = .deliver → r.1.waiter = none) ∧ r.2.newWaiters = [] := by
  have hlate {pc : AgentPc} (hpc : pc = .put ∨ pc = .wait ∨ pc = .returned) :
      ¬ (pc = .recv ∨ pc = .deliver) := by
    rintro (rfl | rfl) <;> simp at hpc
  cases l with
  | recv f =>
    simp only [AgentForward.step] at hr
    split at hr
    · next hpc =>
      cases hr
      exact ⟨fun _ => ha (.inl hpc), rfl⟩
    · cases hr
  | take =>
    simp only [AgentForward.step] at hr
    split at hr
    · split at hr
      · cases hr
        exact ⟨fun h => absurd h (hlate (.inl rfl)), rfl⟩
      · cases hr
        exact ⟨fun h => absurd h (hlate (.inr (.inr rfl))), rfl⟩
    · cases hr
  | put =>
    simp only [AgentForward.step] at hr
    split at hr
    · split at hr
      · cases hr
        exact ⟨fun h => absurd h (hlate (.inr (.inl rfl))), rfl⟩
      · cases hr
        exact ⟨fun h => absurd h (hlate (.inr (.inr rfl))), rfl⟩
    · cases hr
  | recvErr =>
    simp only [AgentForward.step] at hr
    split at hr
    · cases hr
      exact ⟨fun h => absurd h (hlate (.inr (.inr rfl))), rfl⟩
    · cases hr
  | done =>
    simp only [AgentForward.step] at hr
    split at hr
    · split at hr
      · cases hr
        exact ⟨fun h => absurd h (hlate (.inr (.inr rfl))), rfl⟩
      · cases hr
    · cases hr
  | ctxDone =>
    simp only [AgentForward.step] at hr
    split at hr
    · cases hr
      exact ⟨fun h => absurd h (hlate (.inr (.inr rfl))), rfl⟩
    · cases hr
      exact ⟨fun h => absurd h (hlate (.inr (.inr rfl))), rfl⟩
    · cases hr

theorem Ok.step {t' : ForwardHistory} {l : ForwardLabel} (hok : t.Ok) (hs : t.step l = some t') :
    t'.Ok := by
  obtain ⟨s', hs', rfl⟩ := Option.map_eq_some_iff.mp hs
  obtain ⟨pod, rfl, rfl⟩ | ⟨pod, rfl, rfl⟩ | ⟨k, hl, c, r, rfl, hc, hr, rfl⟩ |
    ⟨q, pl, p, r, rfl, hp, hr, rfl⟩ | ⟨j, al, a, r, rfl, ha, hr, rfl⟩ := Forwarding.step_cases hs'
  · refine hok.tables (e := .none) rfl rfl ?_ hok.agents
    simpa [ForwardLabel.handler] using hok.length
  · refine hok.tables (e := .none) rfl rfl (by simpa [ForwardLabel.handler] using hok.length) ?_
    intro j a ha
    obtain hold | ⟨-, rfl⟩ := List.getElem?_of_concat ha
    · exact hok.agents j a hold
    · exact fun _ => rfl
  · show (t.extend (.conn k) ((t.sys.apply r.2).setConn k r.1)).Ok
    exact hok.extend (e := r.2) ⟨rfl, rfl, rfl, rfl, rfl⟩
  · show (t.extend (.peer q) ((t.sys.apply r.2).setPeer q r.1)).Ok
    exact hok.extend (e := r.2) ⟨rfl, rfl, rfl, rfl, rfl⟩
  · obtain ⟨hkeeps, hwaiters⟩ := agent_keeps hr (hok.agents j a ha)
    refine hok.tables (e := r.2) rfl rfl ?_ fun n b hb => ?_
    · show _ = (t.sys.apply r.2).waiters.length
      rw [waiters_apply, hwaiters, List.append_nil]
      simpa [ForwardLabel.handler] using hok.length
    · simp only [setAgent, agents_apply] at hb
      obtain ⟨-, hold⟩ | ⟨-, rfl⟩ := List.getElem?_of_set hb
      · exact hok.agents n b hold
      · exact hkeeps

theorem init_handoff (pods : List ForwardPod) : (init pods).handoff.Inv := by
  refine Handoff.State.inv_init (fun h => ?_) ?_ (fun _ => rfl) (fun _ => rfl) rfl rfl
  · cases h <;> rfl
  · refine Set.eq_empty_of_forall_notMem ?_
    rintro w ⟨wt, hwt, -⟩
    cases hwt

theorem inv_of_run {pods : List ForwardPod} {ls : List ForwardLabel}
    (hrun : Lts.Run step (fun t l => t.sys.careful l = true) (init pods) ls t) :
    t.Ok ∧ t.handoff.Inv :=
  hrun.invariant (I := fun t => t.Ok ∧ t.handoff.Inv)
    (fun _ _ _ hi hcareful hs => ⟨hi.1.step hs, hi.2.step (step_handoff hi.1 hcareful hs)⟩)
    ⟨init_ok pods, init_handoff pods⟩

theorem stage_of_returned {s : Forwarding} (hr : s.returned h = true) : s.stage h = .idle := by
  cases h with
  | conn k =>
    cases hc : s.conns[k]? with
    | none =>
      rw [returned, hc] at hr
      cases hr
    | some c =>
      rw [returned, hc] at hr
      have hpc : c.pc = .done := of_decide_eq_true hr
      rw [stage, hc]
      exact PublicConn.stage_of_pc hpc
  | peer q =>
    cases hp : s.peers[q]? with
    | none =>
      rw [returned, hp] at hr
      cases hr
    | some p =>
      simp only [returned, hp, Option.any_some] at hr
      split at hr
      · next code hpc =>
        rw [stage, hp]
        exact PeerForward.stage_of_pc hpc
      · cases hr

/-- A session that `deliver` has handed over is closed exactly once by the time the handler that
expected it returns. -/
theorem sessions_closed_of_run {pods : List ForwardPod} {ls : List ForwardLabel}
    (hrun : Lts.Run step (fun t l => t.sys.careful l = true) (init pods) ls t) (w j : Nat)
    (hd : (w, j) ∈ t.delivered) :
    ∃ h, t.owners[w]? = some h ∧ (t.sys.returned h = true → t.sys.closed.count j = 1) := by
  obtain ⟨h, ho, hclosed⟩ := (inv_of_run hrun).2.released_once hd
  exact ⟨h, ho, fun hr => hclosed (stage_of_returned hr)⟩

def delivery (type : Tunnel.FrameType) : List ForwardLabel :=
  [.accept 0, .conn 0 (.lookup (.ok ⟨"a", "10.0.0.2:80", "", false⟩)), .conn 0 (.get true),
    .conn 0 (.sessionId (.ok "s1")), .conn 0 .expect, .conn 0 (.send none), .arrive 0,
    .agent 0 (.recv { sessionId := "s1", type := type }), .agent 0 .take, .agent 0 .put]

def rejected : List ForwardLabel :=
  delivery .reset ++ [.conn 0 .receive, .conn 0 .paired, .conn 0 .cancel]

theorem sessions_closed_of_run_rejected : ∃ t,
    Lts.Run step (fun t l => t.sys.careful l = true) (init [⟨"pod-1", true⟩]) rejected t ∧
      (0, 0) ∈ t.delivered ∧ t.owners[0]? = some (.conn 0) ∧
      t.sys.returned (.conn 0) = true ∧ t.sys.closed.count 0 = 1 := by
  let t := (Lts.execOk step (fun t l => t.sys.careful l = true) (init [⟨"pod-1", true⟩])
    rejected).get (by decide +kernel)
  have hrun := Lts.run_of_execOk (t := t) (Option.some_get _).symm
  have hd : (0, 0) ∈ t.delivered := by decide +kernel
  have ho : t.owners[0]? = some (.conn 0) := by decide +kernel
  have hr : t.sys.returned (.conn 0) = true := by decide +kernel
  obtain ⟨h, hh, hclosed⟩ := sessions_closed_of_run hrun 0 0 hd
  obtain rfl := Option.some.inj (ho.symm.trans hh)
  exact ⟨t, hrun, hd, ho, hr, hclosed hr⟩

/-- The timer fires when the session is already in the channel, and `select` takes the timer. -/
def timedOut : List ForwardLabel :=
  delivery .open ++ [.conn 0 .timeout, .conn 0 .cancel]

/-- Then `deliver` has returned true and the handler has returned, but nobody closes `done`: the
agent's Forward RPC goes on waiting. -/
theorem session_not_closed : ∃ t,
    Lts.AnyRun step (init [⟨"pod-1", true⟩]) timedOut t ∧
      (0, 0) ∈ t.delivered ∧ t.owners[0]? = some (.conn 0) ∧
      t.sys.returned (.conn 0) = true ∧ t.sys.closed.count 0 = 0 ∧
      (t.sys.agents[0]?).map (·.pc) = some .wait := by
  let t := (Lts.exec step (init [⟨"pod-1", true⟩]) timedOut).get (by decide +kernel)
  have hrun := Lts.anyRun_of_exec (t := t) (Option.some_get _).symm
  exact ⟨t, hrun, by decide +kernel, by decide +kernel, by decide +kernel, by decide +kernel,
    by decide +kernel⟩

end ForwardHistory
end Hostlink.Controller
