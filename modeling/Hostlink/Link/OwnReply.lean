import Hostlink.Link.Sessions

/-! A dispatcher is handed the replies of the handler of its own request, as long as a handler does
not outlive the stream its request came on. -/

namespace Hostlink.AgentLink
open Controller (AgentConn Reply Command CallKind ConnLabel)

variable {s t : AgentLink} {k : Nat} {session session' : Session}

def Made (s : AgentLink) (k d : Nat) (id : String) : Prop :=
  ∃ c, s.connOf k = some c ∧ c.HasId d id

def Answers (s : AgentLink) (k : Nat) (r : Reply Nat) : Prop :=
  ∃ handler, s.handlers[r.body]? = some handler ∧ handler.session = k ∧
    handler.requestId = r.requestId

structure SessionOk (s : AgentLink) (k : Nat) (session : Session) : Prop where
  conn : ∀ c, session.conn = some c → c.Inv ∧ c.Numbered ∧ ∀ r, c.Carries r → s.Answers k r
  up : ∀ r, .reply r ∈ session.up.sent → s.Answers k r
  down : ∀ id kind d, .request id kind d ∈ session.down.sent → s.Made k d id

structure Inv (s : AgentLink) : Prop where
  session : ∀ (k : Nat) (session : Session), s.sessions[k]? = some session → s.SessionOk k session
  handlers : ∀ handler ∈ s.handlers, s.Made handler.session handler.call handler.requestId

structure Grows (s t : AgentLink) : Prop where
  conn : ∀ (k : Nat) (c : AgentConn Nat), s.connOf k = some c →
    ∃ c', t.connOf k = some c' ∧ c.ids <+: c'.ids
  handlers : ∀ (h : Nat) (x : Handler), s.handlers[h]? = some x →
    ∃ y, t.handlers[h]? = some y ∧ y.session = x.session ∧ y.requestId = x.requestId

theorem Made.grows {d : Nat} {id : String} (h : s.Made k d id) (hg : s.Grows t) :
    t.Made k d id := by
  obtain ⟨c, hc, hid⟩ := h
  obtain ⟨c', hc', hids⟩ := hg.conn k c hc
  exact ⟨c', hc', hid.grows hids⟩

theorem Answers.grows {r : Reply Nat} (h : s.Answers k r) (hg : s.Grows t) : t.Answers k r := by
  obtain ⟨x, hx, hk, hid⟩ := h
  obtain ⟨y, hy, hyk, hyid⟩ := hg.handlers _ x hx
  exact ⟨y, hy, hyk.trans hk, hyid.trans hid⟩

theorem SessionOk.grows (h : s.SessionOk k session) (hg : s.Grows t) : t.SessionOk k session where
  conn := fun c hc => ⟨(h.conn c hc).1, (h.conn c hc).2.1, fun r hr =>
    ((h.conn c hc).2.2 r hr).grows hg⟩
  up := fun r hr => (h.up r hr).grows hg
  down := fun id kind d hd => (h.down id kind d hd).grows hg

/-! ### Changing one part of the state -/

theorem connOf_eq (hk : s.sessions[k]? = some session) : s.connOf k = session.conn := by
  rw [connOf, hk, Option.bind_some]

theorem setSession_grows (hk : s.sessions[k]? = some session)
    (hids : ∀ c, session.conn = some c → ∃ c', session'.conn = some c' ∧ c.ids <+: c'.ids) :
    s.Grows (s.setSession k session') := by
  refine ⟨fun j c hc => ?_, fun h x hx => ⟨x, hx, rfl, rfl⟩⟩
  obtain ⟨x, hx, hxc⟩ := Option.bind_eq_some_iff.mp hc
  obtain hset | ⟨hset, rfl⟩ := List.getElem?_set_of (a := session') hk hx
  · exact ⟨c, (connOf_eq hset).trans hxc, List.prefix_rfl⟩
  · obtain ⟨c', hc', hpre⟩ := hids c hxc
    exact ⟨c', (connOf_eq hset).trans hc', hpre⟩

theorem Inv.setSession (hi : s.Inv) (hk : s.sessions[k]? = some session)
    (hids : ∀ c, session.conn = some c → ∃ c', session'.conn = some c' ∧ c.ids <+: c'.ids)
    (hok : s.SessionOk k session') : (s.setSession k session').Inv := by
  have hg := setSession_grows hk hids
  constructor
  · intro j x hx
    obtain ⟨-, hx⟩ | ⟨rfl, rfl⟩ := List.getElem?_of_set hx
    · exact (hi.session j x hx).grows hg
    · exact hok.grows hg
  · exact fun x hx => (hi.handlers x hx).grows hg

theorem Inv.setStream (hi : s.Inv) (hk : s.sessions[k]? = some session)
    (hconn : session'.conn = session.conn) (hup : ∀ r, .reply r ∈ session'.up.sent → s.Answers k r)
    (hdown : session'.down.sent = session.down.sent) : (s.setSession k session').Inv := by
  have hok := hi.session k session hk
  refine hi.setSession hk (fun c hc => ⟨c, hconn.trans hc, List.prefix_rfl⟩) ⟨?_, hup, ?_⟩
  · rw [hconn]
    exact hok.conn
  · rw [hdown]
    exact hok.down

theorem Inv.setPc (hi : s.Inv) (pc : SupervisorPc) : ({ s with pc := pc } : AgentLink).Inv := by
  have hg : s.Grows { s with pc := pc } :=
    ⟨fun _ c hc => ⟨c, hc, List.prefix_rfl⟩, fun _ x hx => ⟨x, hx, rfl, rfl⟩⟩
  exact ⟨fun k x hx => (hi.session k x hx).grows hg, fun x hx => (hi.handlers x hx).grows hg⟩

theorem Inv.setHandlers (hi : s.Inv) {hs : List Handler}
    (hkeep : ∀ (h : Nat) (x : Handler), s.handlers[h]? = some x →
      ∃ y, hs[h]? = some y ∧ y.session = x.session ∧ y.requestId = x.requestId)
    (hmade : ∀ x ∈ hs, s.Made x.session x.call x.requestId) :
    ({ s with handlers := hs } : AgentLink).Inv := by
  have hg : s.Grows { s with handlers := hs } :=
    ⟨fun _ c hc => ⟨c, hc, List.prefix_rfl⟩, hkeep⟩
  exact ⟨fun k x hx => (hi.session k x hx).grows hg, fun x hx => (hmade x hx).grows hg⟩

theorem Inv.control (hi : s.Inv) : s.control.Inv := by
  have hg : s.Grows s.control := by
    refine ⟨fun k c hc => ⟨c, ?_, List.prefix_rfl⟩, fun h x hx => ⟨x, hx, rfl, rfl⟩⟩
    obtain ⟨x, hx, hxc⟩ := Option.bind_eq_some_iff.mp hc
    have hx' : s.control.sessions[k]? = some x := List.getElem?_append_of hx _
    exact (connOf_eq hx').trans hxc
  constructor
  · intro k x hx
    obtain hold | ⟨-, rfl⟩ := List.getElem?_of_concat hx
    · exact (hi.session k x hold).grows hg
    · exact ⟨fun _ hc => (by cases hc), fun _ hr => (by cases hr), fun _ _ _ hd => by cases hd⟩
  · exact fun x hx => (hi.handlers x hx).grows hg

/-! ### The parts of a step -/

theorem send_inv {ev : AgentEvent} {ok : Bool} (hi : s.Inv) (ht : s.send ev ok = some t)
    (hown : ok = true → ∀ r, ev = .reply r → ∀ k, s.stream = some k → s.Answers k r) :
    t.Inv ∧ t.handlers = s.handlers := by
  obtain ⟨k, hstream, ht⟩ := Option.bind_eq_some_iff.mp ht
  obtain ⟨session, hk, rfl⟩ := Option.map_eq_some_iff.mp ht
  split
  · next hok =>
    refine ⟨hi.setStream hk rfl (fun r hr => ?_) rfl, rfl⟩
    obtain hr | hr := Fifo.mem_sent_of_push hr
    · exact (hi.session k session hk).up r hr
    · exact hown hok r hr k hstream
  · exact ⟨hi, rfl⟩

theorem startRequest_inv (hi : s.Inv) {cmd : Command}
    (hcmd : ∀ id kind d, cmd = .request id kind d → s.Made k d id) :
    (s.startRequest k cmd).Inv := by
  cases cmd with
  | request id kind d =>
    refine hi.setHandlers (fun h x hx => ⟨x, ?_, rfl, rfl⟩) fun x hx => ?_
    · exact List.getElem?_append_of hx _
    · rw [List.mem_append, List.mem_singleton] at hx
      obtain hx | rfl := hx
      · exact hi.handlers x hx
      · exact hcmd id kind d rfl
  | chunk | cancel => exact hi

theorem loopRecv_inv {i : Nat} (hi : s.Inv) (hloop : s.sessions[i]? = some session)
    (ht : s.loopRecv i k session = some t) : t.Inv := by
  have hi' : (s.setSession i { session with loop := .head }).Inv :=
    hi.setStream hloop rfl (hi.session i session hloop).up rfl
  obtain ⟨x, hx, ht⟩ := Option.bind_eq_some_iff.mp ht
  obtain ⟨⟨cmd, down⟩, hpop, rfl⟩ := Option.map_eq_some_iff.mp ht
  obtain ⟨-, -, hsent, -, hcmd⟩ := Fifo.pop?_eq_some hpop
  have hok := hi'.session k x hx
  refine startRequest_inv ?_ fun id kind d he => ?_
  · exact hi'.setStream hx rfl hok.up hsent
  subst he
  refine (hok.down id kind d (List.mem_of_getElem? hcmd)).grows (setSession_grows hx ?_)
  exact fun c hc => ⟨c, hc, List.prefix_rfl⟩

theorem handleAgentEvent_ok {c : Option (AgentConn Nat)} {ev : AgentEvent}
    {conn : Option (AgentConn Nat)} (h : handleAgentEvent c ev = some conn) :
    (conn = c ∨ ∃ agentId, c = none ∧ conn = some (Controller.newAgentConn agentId)) ∨
      ∃ a r x, ev = .reply r ∧ c = some a ∧ a.step (.receive r) = some x ∧ conn = some x.1 := by
  cases ev with
  | hello agentId =>
    cases h
    cases c with
    | none => exact .inl (.inr ⟨agentId, rfl, rfl⟩)
    | some a => exact .inl (.inl rfl)
  | heartbeat | event =>
    cases h
    exact .inl (.inl rfl)
  | reply r =>
    cases c with
    | none =>
      cases h
      exact .inl (.inl rfl)
    | some a =>
      obtain ⟨x, hx, rfl⟩ := Option.map_eq_some_iff.mp h
      exact .inr ⟨a, r, x, rfl, rfl, hx, rfl⟩

theorem SessionOk.step {c : AgentConn Nat} {l : ConnLabel Nat}
    {x : AgentConn Nat × Option Command} (h : s.SessionOk k session) (hc : session.conn = some c)
    (hx : c.step l = some x)
    (hseq : AgentConn.Counts l = true → c.seq + 1 < UInt64.size)
    (hin : ∀ r, AgentConn.incoming l = some r → s.Answers k r) :
    x.1.Inv ∧ x.1.Numbered ∧ ∀ r, x.1.Carries r → s.Answers k r := by
  obtain ⟨hinv, hnum, hcarries⟩ := h.conn c hc
  have hchange := (AgentConn.step_change hx).1
  refine ⟨hinv.change hchange, AgentConn.step_numbered hnum hseq hx, fun r hr => ?_⟩
  exact (hchange.carries hr).elim (hcarries r) (hin r)

theorem serve_inv (hi : s.Inv) (hk : s.sessions[k]? = some session)
    (ht : s.serve k session = some t) : t.Inv := by
  unfold serve at ht
  split at ht
  case isFalse => cases ht
  obtain ⟨⟨ev, up⟩, hpop, ht⟩ := Option.bind_eq_some_iff.mp ht
  obtain ⟨conn, hconn, rfl⟩ := Option.map_eq_some_iff.mp ht
  obtain ⟨-, -, hsent, -, hev⟩ := Fifo.pop?_eq_some hpop
  have hok := hi.session k session hk
  have hup : ∀ r, .reply r ∈ up.sent → s.Answers k r := by
    rw [hsent]
    exact hok.up
  obtain (rfl | ⟨agentId, hnone, rfl⟩) | ⟨c, r, x, rfl, hc, hx, rfl⟩ := handleAgentEvent_ok hconn
  · exact hi.setStream hk rfl hup rfl
  · refine hi.setSession hk (fun c hc => ?_) ⟨fun c hc => ?_, hup, hok.down⟩
    · rw [hnone] at hc
      cases hc
    · cases hc
      exact ⟨AgentConn.init_inv agentId, AgentConn.init_numbered agentId, fun r hr =>
        (AgentConn.not_carries_init agentId r hr).elim⟩
  · refine hi.setSession hk (fun c' hc' => ?_) ⟨fun c' hc' => ?_, hup, hok.down⟩
    · obtain rfl := Option.some.inj (hc.symm.trans hc')
      exact ⟨x.1, rfl, (AgentConn.step_change hx).1.ids⟩
    · cases hc'
      refine hok.step hc hx nofun fun r' hr' => ?_
      cases hr'
      exact hok.up r (List.mem_of_getElem? hev)

theorem connStep_inv {l : ConnLabel Nat} (hi : s.Inv) (hk : s.sessions[k]? = some session)
    (hl : AgentConn.incoming l = none)
    (hseq : AgentConn.Counts l = true → ∀ c ∈ s.connOf k, c.seq + 1 < UInt64.size)
    (ht : s.connStep k session l = some t) : t.Inv := by
  obtain ⟨c, hc, ht⟩ := Option.bind_eq_some_iff.mp ht
  obtain ⟨⟨c', out⟩, hx, rfl⟩ := Option.map_eq_some_iff.mp ht
  have hok := hi.session k session hk
  have hcs : s.connOf k = some c := (connOf_eq hk).trans hc
  obtain ⟨hchange, hout, -⟩ := AgentConn.step_change hx
  refine hi.setSession hk (fun a ha => ?_) ⟨fun a ha => ?_, hok.up, fun id kind d hd => ?_⟩
  · obtain rfl := Option.some.inj (hc.symm.trans ha)
    exact ⟨c', rfl, hchange.ids⟩
  · cases ha
    refine hok.step hc hx (fun h => hseq h c hcs) fun r hr => ?_
    rw [hl] at hr
    cases hr
  · cases out with
    | none => exact hok.down id kind d hd
    | some cmd =>
      obtain hd | rfl := Fifo.mem_sent_of_push hd
      · exact hok.down id kind d hd
      · exact ⟨c, hcs, hout id kind d rfl⟩

theorem answers_of_stream {r : Reply Nat} {x : Handler} (hx : s.handlers[r.body]? = some x)
    (hid : x.requestId = r.requestId) (hstream : s.stream = some x.session)
    (hk : s.stream = some k) : s.Answers k r :=
  ⟨x, hx, Option.some.inj (hstream.symm.trans hk), hid⟩

theorem hello_inv {ok : Bool} (hi : s.Inv) (ht : s.step (.hello ok) = some t) : t.Inv := by
  simp only [step] at ht
  split at ht
  case h_2 => cases ht
  obtain ⟨u, hu, ht⟩ := Option.bind_eq_some_iff.mp ht
  obtain ⟨hi', -⟩ := send_inv hi hu fun _ _ hr => by cases hr
  split at ht
  · obtain ⟨session, hk, rfl⟩ := Option.map_eq_some_iff.mp ht
    refine Inv.setPc ?_ _
    exact hi'.setStream hk rfl (hi'.session _ session hk).up rfl
  · cases ht
    exact hi'.setPc _

theorem heartbeat_inv {ok : Bool} (hi : s.Inv) (ht : s.step (.heartbeat ok) = some t) : t.Inv := by
  simp only [step] at ht
  split at ht
  case h_2 => cases ht
  obtain ⟨u, hu, rfl⟩ := Option.map_eq_some_iff.mp ht
  obtain ⟨hi', -⟩ := send_inv hi hu fun _ _ hr => by cases hr
  exact hi'.setPc _

theorem startLoop_inv {l : LinkLabel} (hl : l = .control ∨ l = .sessionEnd ∨ l = .stop) (hi : s.Inv)
    (ht : s.step l = some t) : t.Inv := by
  rcases hl with rfl | rfl | rfl
  · simp only [step] at ht
    split at ht
    · cases ht
      exact hi.control
    · cases ht
  · simp only [step] at ht
    split at ht
    · obtain ⟨session, -, ht⟩ := Option.bind_eq_some_iff.mp ht
      split at ht
      · cases ht
        exact hi.setPc _
      · cases ht
    · cases ht
  · simp only [step] at ht
    split at ht
    · cases ht
      exact hi.setPc _
    · cases ht
      exact hi.setPc _
    · cases ht

theorem progress_inv {h : Nat} {ok : Bool} (hi : s.Inv) (hl : s.InSession (.progress h ok))
    (ht : s.step (.progress h ok) = some t) : t.Inv := by
  obtain ⟨x, hx, ht⟩ := Option.bind_eq_some_iff.mp ht
  split at ht
  · refine (send_inv hi ht fun hok r hr k hk => ?_).1
    cases hr
    subst hok
    exact answers_of_stream hx rfl (hl x hx) hk
  · cases ht

theorem result_inv {h : Nat} {ok : Bool} (hi : s.Inv) (hl : s.InSession (.result h ok))
    (ht : s.step (.result h ok) = some t) : t.Inv := by
  obtain ⟨x, hx, ht⟩ := Option.bind_eq_some_iff.mp ht
  split at ht
  · cases ht
  · obtain ⟨u, hu, rfl⟩ := Option.map_eq_some_iff.mp ht
    obtain ⟨hi', hhandlers⟩ := send_inv hi hu fun hok r hr k hk => by
      cases hr
      subst hok
      exact answers_of_stream hx rfl (hl x hx) hk
    rw [← hhandlers] at hx
    refine hi'.setHandlers (fun j y hy => ?_) fun y hy => ?_
    · obtain hset | ⟨hset, rfl⟩ := List.getElem?_set_of (a := { x with finished := true }) hx hy
      · exact ⟨y, hset, rfl, rfl⟩
      · exact ⟨_, hset, rfl, rfl⟩
    · obtain hy | rfl := List.mem_or_eq_of_mem_set hy
      · exact hi'.handlers y hy
      · exact hi'.handlers x (List.mem_of_getElem? hx)

theorem connLabel_inv {l : ConnLabel Nat} (hi : s.Inv) (hl : s.InSession (.conn k l))
    (ht : s.step (.conn k l) = some t) : t.Inv := by
  simp only [step] at ht
  split at ht
  · cases ht
  · next hne =>
    obtain ⟨session, hk, ht⟩ := Option.bind_eq_some_iff.mp ht
    refine connStep_inv hi hk ?_ hl ht
    cases l with
    | receive r => exact (hne r rfl).elim
    | start | call | put | drop | closeAll | closeDone => rfl

theorem step_inv {l : LinkLabel} (hi : s.Inv) (hl : s.InSession l) (ht : s.step l = some t) :
    t.Inv := by
  cases l with
  | control => exact startLoop_inv (.inl rfl) hi ht
  | hello ok => exact hello_inv hi ht
  | heartbeat ok => exact heartbeat_inv hi ht
  | dockerEvent ok => exact (send_inv hi ht fun _ _ hr => by cases hr).1
  | sessionEnd => exact startLoop_inv (.inr (.inl rfl)) hi ht
  | stop => exact startLoop_inv (.inr (.inr rfl)) hi ht
  | loopRecv i =>
    obtain ⟨session, hk, ht⟩ := Option.bind_eq_some_iff.mp ht
    split at ht
    · exact loopRecv_inv hi hk ht
    · cases ht
  | loopHead k | loopReturn k | serveReturn k =>
    -- only where a loop or a handler of the session stands changes
    obtain ⟨session, hk, ht⟩ := Option.bind_eq_some_iff.mp ht
    split at ht
    · cases ht
      exact hi.setStream hk rfl (hi.session k session hk).up rfl
    · cases ht
  | progress h ok => exact progress_inv hi hl ht
  | result h ok => exact result_inv hi hl ht
  | broken k =>
    obtain ⟨session, hk, rfl⟩ := Option.map_eq_some_iff.mp ht
    exact hi.setStream hk rfl (hi.session k session hk).up rfl
  | serve k =>
    obtain ⟨session, hk, ht⟩ := Option.bind_eq_some_iff.mp ht
    exact serve_inv hi hk ht
  | conn k l => exact connLabel_inv hi hl ht

theorem inv_of_run {nodeName : String} {ls : List LinkLabel}
    (h : Lts.Run step InSession (init nodeName) ls s) : s.Inv :=
  h.invariant (fun _ _ _ => step_inv)
    ⟨fun _ _ hx => (by cases hx), fun _ hx => by cases hx⟩

/-- In every run in which replies leave the agent only on the stream of their request, a reply put
on the channel of dispatcher `d` of session `k` was made by the handler of that very request. -/
theorem own_reply_of_run {nodeName : String} {ls : List LinkLabel}
    (h : Lts.Run step InSession (init nodeName) ls s) {k : Nat}
    {c : AgentConn Nat} {d : Nat} {r : Reply Nat} (hc : s.connOf k = some c)
    (hd : (d, r) ∈ c.delivered) :
    ∃ handler, s.handlers[r.body]? = some handler ∧ handler.session = k ∧ handler.call = d := by
  have hi := inv_of_run h
  obtain ⟨session, hk, hsc⟩ := Option.bind_eq_some_iff.mp hc
  obtain ⟨hinv, hnum, hcarries⟩ := (hi.session k session hk).conn c hsc
  obtain ⟨x, hx, rfl, hid⟩ := hcarries r (.inr ⟨d, hd⟩)
  -- both the handler's call and `d` bear the reply's id, and ids are not reused
  obtain ⟨c', hc', hmade⟩ := hi.handlers x (List.mem_of_getElem? hx)
  obtain rfl := Option.some.inj (hc.symm.trans hc')
  rw [hid] at hmade
  exact ⟨x, hx, rfl, AgentConn.HasId.inj hnum hmade (hinv.delivered d r hd)⟩

def openSession (k : Nat) (kind : CallKind) : List LinkLabel :=
  [.control, .hello true, .serve k, .conn k (.start kind), .conn k (.call 0 .register),
    .conn k (.call 0 (.send none)), .loopHead k, .loopRecv k]

def closeSession (k : Nat) : List LinkLabel :=
  [.broken k, .loopHead k, .loopReturn k, .sessionEnd, .serveReturn k]

def answerAndReconnect : List LinkLabel :=
  openSession 0 .unary ++ [.result 0 true, .serve 0, .conn 0 .put] ++ closeSession 0 ++
    openSession 1 (.stream true) ++ [.progress 1 true, .serve 1, .conn 1 .put]

theorem own_reply_of_run_reconnect : ∃ s c,
    Lts.Run step InSession (init "node-1") answerAndReconnect s ∧
    s.connOf 1 = some c ∧ (0, .progress "1" 1) ∈ c.delivered ∧
    ∃ handler, s.handlers[1]? = some handler ∧ handler.session = 1 ∧ handler.call = 0 := by
  let s := (Lts.execOk step InSession (init "node-1") answerAndReconnect).get (by decide +kernel)
  let c := (s.connOf 1).get (by decide +kernel)
  have hrun := Lts.run_of_execOk (t := s) (Option.some_get _).symm
  have hc : s.connOf 1 = some c := (Option.some_get _).symm
  have hd : (0, .progress "1" 1) ∈ c.delivered := by decide +kernel
  exact ⟨s, c, hrun, hc, hd, own_reply_of_run hrun hc hd⟩

/-- The agent reconnects while a handler is at work: its result goes to the new stream, where the
first dispatcher waits under the same id. -/
theorem late_result_reaches_next_session : ∃ s c,
    Lts.AnyRun step (init "node-1") (openSession 0 .unary ++ closeSession 0 ++ openSession 1 .unary ++
      [.result 0 true, .serve 1, .conn 1 .put]) s ∧
    s.connOf 1 = some c ∧ (0, .result "1" 0) ∈ c.delivered ∧
    s.handlers.map Handler.session = [0, 1] := by
  let s := (Lts.exec step (init "node-1") (openSession 0 .unary ++ closeSession 0 ++
    openSession 1 .unary ++ [.result 0 true, .serve 1, .conn 1 .put])).get (by decide +kernel)
  let c := (s.connOf 1).get (by decide +kernel)
  exact ⟨s, c, Lts.anyRun_of_exec (Option.some_get _).symm, (Option.some_get _).symm,
    by decide +kernel, by decide +kernel⟩

end Hostlink.AgentLink
