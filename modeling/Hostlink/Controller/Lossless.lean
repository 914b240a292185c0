import Hostlink.Controller.Streaming

/-! A reliable stream loses nothing before it ends. What a consumer has taken, what waits in the
buffer and what is on the way to it are together all that was received for the request, as long as
the request is registered; `done` is only closed after it no longer is. -/

namespace Hostlink.Controller
variable {π : Type}

def CallPc.closesDone : CallPc → Bool
  | .cancelClose _ _ _ => true
  | _ => false

namespace View

inductive Flying (d : Nat) (v : View π) : List (Reply π) → Prop
  | none (h : v.flight = 0) : Flying d v []
  | one (r : Reply π) (h : v.flight = {.stream d r}) : Flying d v [r]

structure Lossless (d : Nat) (v : View π) (R : List (Reply π)) : Prop where
  follows : ∃ rs, v.Flying d rs ∧
    (v.call.taken ++ v.call.frames ++ rs).Follows (v.pendingStream || !rs.isEmpty) R
  ended : v.call.done = true ∨ v.closing = true ∨ v.call.pc.closesDone = true →
    v.pendingStream = false
  fresh : v.call.pc = .register → v.call.done = false ∧ v.closing = false

variable {d : Nat} {v v' : View π} {R : List (Reply π)} {o : Option CallLabel}

theorem Flying.congr {rs : List (Reply π)} (h : v.Flying d rs) (hflight : v'.flight = v.flight) :
    v'.Flying d rs := by
  cases h with
  | none h => exact .none (hflight.trans h)
  | one r h => exact .one r (hflight.trans h)

theorem Flying.of_cons {rs : List (Reply π)} {dl : Delivery π} {flight : Multiset (Delivery π)}
    (h : v.Flying d rs) (hflight : v.flight = dl ::ₘ flight) :
    ∃ r, dl = .stream d r ∧ rs = [r] ∧ flight = 0 := by
  cases h with
  | none h =>
    rw [h] at hflight
    exact absurd hflight (Multiset.zero_ne_cons)
  | one r h =>
    rw [h] at hflight
    obtain ⟨rfl, hzero⟩ := (Multiset.singleton_eq_cons_iff _).mp hflight
    exact ⟨r, rfl, rfl, hzero⟩

theorem Lossless.keep (h : v.Lossless d R)
    (hdata : v'.call.taken ++ v'.call.frames = v.call.taken ++ v.call.frames)
    (hflight : v'.flight = v.flight) (hheld : v'.pendingStream = true → v.pendingStream = true)
    (hended : v'.call.done = true ∨ v'.closing = true ∨ v'.call.pc.closesDone = true →
      v'.pendingStream = false)
    (hfresh : v'.call.pc = .register → v'.call.done = false ∧ v'.closing = false) :
    v'.Lossless d R := by
  obtain ⟨rs, hrs, hf⟩ := h.follows
  refine ⟨⟨rs, hrs.congr hflight, ?_⟩, hended, hfresh⟩
  rw [hdata]
  refine hf.mono fun hl => ?_
  rw [Bool.or_eq_true] at hl ⊢
  exact hl.imp_left hheld

theorem Lossless.put (h : v.Lossless d R) {r : Reply π} {dl : Delivery π}
    {flight : Multiset (Delivery π)} (hflight : v.flight = dl ::ₘ flight)
    (hdl : dl = .stream d r ∨ dl = .advisory d r) (put : List (Reply π)) :
    ({ v with
      call := { v.call with frames := v.call.frames ++ [r] }
      flight := flight
      put := put } : View π).Lossless d R := by
  obtain ⟨rs, hrs, hf⟩ := h.follows
  obtain ⟨r', rfl, rfl, rfl⟩ := hrs.of_cons hflight
  obtain rfl : r' = r := by
    obtain hdl | hdl := hdl
    · exact (Delivery.stream.inj hdl).2
    · cases hdl
  refine ⟨⟨[], .none rfl, ?_⟩, h.ended, h.fresh⟩
  have heq : v.call.taken ++ v.call.frames ++ [r'] = R := hf.2 (Bool.or_true _)
  exact .of_eq (by rw [List.append_nil, ← heq, List.append_assoc])

theorem Lossless.drop (h : v.Lossless d R) {r : Reply π} {dl : Delivery π}
    {flight : Multiset (Delivery π)} (hflight : v.flight = dl ::ₘ flight)
    (hdl : dl = .stream d r ∧ v.call.done = true ∨ dl = .advisory d r) :
    ({ v with flight := flight } : View π).Lossless d R := by
  obtain ⟨rs, hrs, hf⟩ := h.follows
  obtain ⟨r', rfl, rfl, rfl⟩ := hrs.of_cons hflight
  have hdone : v.call.done = true := by
    obtain ⟨-, hdone⟩ | hdl := hdl
    · exact hdone
    · cases hdl
  have hgone : v.pendingStream = false := h.ended (.inl hdone)
  refine ⟨⟨[], .none rfl, ?_⟩, h.ended, h.fresh⟩
  refine (hf.stop ?_).mono fun hl => ?_
  · rw [List.append_nil]
    exact List.prefix_append _ _
  · rw [hgone] at hl
    exact hl

theorem Lossless.register (h : v.Lossless d []) (hpc : v.call.pc = .register) :
    ({ v with call := { v.call with pc := .send }, pendingStream := true } : View π).Lossless d [] := by
  obtain ⟨rs, hrs, hf⟩ := h.follows
  obtain ⟨hdone, hclosing⟩ := h.fresh hpc
  refine ⟨⟨rs, hrs.congr rfl, .of_eq (List.prefix_nil.mp hf.1)⟩, fun hended => ?_,
    fun hpc => by cases hpc⟩
  simp [hdone, hclosing, CallPc.closesDone] at hended

end View

theorem Call.afterSend_closesDone (call : Call π) (err : Option GoError) :
    (call.afterSend err).closesDone = false := by
  rcases call.afterSend_cases err with ⟨h | h | h, -⟩ | ⟨h | h, -⟩ <;> rw [h] <;> rfl

section Step
variable {d : Nat} {v v' : View π} {R : List (Reply π)} {o : Option CallLabel}

theorem View.Lossless.moved {call : Call π} (h : v.Lossless d R)
    (hdata : call.taken ++ call.frames = v.call.taken ++ v.call.frames)
    (hended : call.done = true ∨ call.pc.closesDone = true → v.pendingStream = false)
    (hpc : call.pc ≠ .register) : ({ v with call := call } : View π).Lossless d R :=
  h.keep hdata rfl (fun hp => hp)
    (fun he => he.elim (fun he => hended (.inl he)) fun he => he.elim
      (fun he => h.ended (.inr (.inl he))) fun he => hended (.inr he))
    fun he => absurd he hpc

theorem CallMove.lossless {l : CallLabel} {call : Call π} (hok : v.Ok)
    (hkind : v.call.kind = .stream true) (hl : v.Lossless d R) (h : CallMove v l call) :
    ({ v with call := call } : View π).Lossless d R := by
  have hstream : v.call.kind.isStream = true := by rw [hkind]; rfl
  have hdone : v.call.done = true → v.pendingStream = false := fun hd => hl.ended (.inl hd)
  have hpc' := h.pc_ne
  cases h with
  | refused | ctxDone | tookClosed =>
    exact hl.moved rfl (fun he => he.elim hdone fun he => by cases he) hpc'
  | sent err hpc =>
    refine hl.moved rfl (fun he => he.elim hdone fun he => ?_) hpc'
    exact absurd ((v.call.afterSend_closesDone err).symm.trans he) Bool.false_ne_true
  | await hpc =>
    exact absurd ((hok.waits (.inl hpc)).symm.trans hstream) Bool.false_ne_true
  | tookResult r hpc hinbox =>
    exact absurd ((hok.waits (.inr hpc)).symm.trans hstream) Bool.false_ne_true
  | tookFrame r frames hpc hframes =>
    refine hl.moved ?_ (fun he => he.elim hdone fun he => ?_) hpc'
    · simp [hframes]
    · exact hl.ended (.inr (.inr he))
  | cancelGone failed hpc hgone => exact hl.moved rfl (fun _ => hgone) hpc'
  | cancelClosed live closed failed hpc =>
    have hgone : v.pendingStream = false := hl.ended (.inr (.inr (by rw [hpc]; rfl)))
    exact hl.moved rfl (fun _ => hgone) hpc'
  | cancelSent failed err hpc =>
    exact hl.moved rfl (fun _ => hdone (hok.cancelled failed hpc)) hpc'

theorem ViewStep.lossless (hok : v.Ok) (hkind : v.call.kind = .stream true)
    (hl : v.Lossless d R) (hnew : v.call.pc = .register → R = []) (h : ViewStep d v o v')
    (hflight : v'.flight ≤ v.flight) : v'.Lossless d R := by
  have hstream : v.call.kind.isStream = true := by rw [hkind]; rfl
  cases h with
  | move l call h => exact h.lossless hok hkind hl
  | registered hpc hopen hk => exact absurd (hk.symm.trans hstream) Bool.false_ne_true
  | registeredStream hpc hopen hk =>
    obtain rfl := hnew hpc
    exact hl.register hpc
  | unregistered hpc =>
    exact hl.keep rfl rfl (fun hp => hp)
      (fun he => hl.ended (he.imp_right fun he => he.imp_right fun he => by cases he))
      fun he => by cases he
  | cancelLive failed hpc hlive =>
    exact hl.keep rfl rfl (fun hp => by cases hp) (fun _ => rfl) fun he => by cases he
  | result | terminal | progress =>
    exact absurd hflight (Multiset.lt_cons_self _ _).not_ge
  | putResult r flight hflight' hinbox hopen =>
    have hsuits : v.call.kind.isStream = false ∧ _ := hok.suits _ (View.head_mem hflight')
    exact absurd (hsuits.1.symm.trans hstream) Bool.false_ne_true
  | putFrame r dl flight hflight' hdl => exact hl.put hflight' hdl _
  | dropped r dl flight hflight' hdl => exact hl.drop hflight' hdl
  | closeAll =>
    refine hl.keep rfl rfl (fun hp => by cases hp) (fun _ => rfl) fun hpc => ?_
    obtain ⟨hdone, hclosing⟩ := hl.fresh hpc
    obtain ⟨-, hheld, -⟩ := hok.unregistered hpc
    exact ⟨hdone, by rw [hclosing, hheld]; rfl⟩
  | closeDone closing hd =>
    refine hl.keep rfl rfl (fun hp => hp) (fun _ => hl.ended (.inr (.inl hd))) fun hpc => ?_
    exact absurd ((hl.fresh hpc).2.symm.trans hd) Bool.false_ne_true

theorem ViewStep.taken_eq (h : ViewStep d v o v') (ho : o ≠ some .take) :
    v'.call.taken = v.call.taken := by
  cases h with
  | move l call h =>
    cases h with
    | tookResult | tookFrame => exact absurd rfl ho
    | refused | sent | await | ctxDone | tookClosed | cancelGone | cancelClosed | cancelSent => rfl
  | registered | registeredStream | unregistered | cancelLive | result | terminal | progress
  | putResult | putFrame | dropped | closeAll | closeDone => rfl

end Step

namespace AgentConn
variable {c c' : AgentConn π} {d : Nat} {call : Call π} {r : Reply π}

theorem step_flight_le {l : ConnLabel π} {out : Option Command} {v v' : View π}
    (hr : incoming l = none) (h : c.step l = some (c', out)) (hv : c.view c.own d = some v)
    (hv' : c'.view c'.own d = some v') : v'.flight ≤ v.flight := by
  rw [view_flight hv, view_flight hv', own, own]
  obtain hnone | hsame | ⟨e, r, hin, -⟩ := (step_change h).1.delivery
  · dsimp only at hnone
    have hother : ∀ r, c'.delivery.target ≠ some (d, r) := fun r hr => by
      rw [hnone] at hr
      cases hr
    rw [flight_other hother, Multiset.filter_zero]
    exact Multiset.zero_le _
  · dsimp only at hsame
    rw [hsame]
  · rw [hr] at hin
    cases hin

def receivedFor (up : Fifo (Reply π)) (id : String) : List (Reply π) :=
  up.received.filter (·.requestId = id)

def Asked (c : AgentConn π) (up : Fifo (Reply π)) : Prop :=
  ∀ r ∈ up.sent, ∃ (d : Nat) (call : Call π), c.calls[d]? = some call ∧
    call.requestId = r.requestId ∧ call.pc ≠ .register

structure Carried (c : AgentConn π) (up : Fifo (Reply π)) : Prop where
  allOk : c.AllOk c.own
  numbered : c.Numbered
  asked : c.Asked up
  lossless : ∀ d v, c.view c.own d = some v → v.call.kind = .stream true →
    v.Lossless d (receivedFor up v.call.requestId)

variable {up up' : Fifo (Reply π)}

theorem Asked.receivedFor_eq_nil (h : c.Asked up) (hn : c.Numbered)
    (hcall : c.calls[d]? = some call) (hpc : call.pc = .register) :
    receivedFor up call.requestId = [] := by
  refine List.filter_eq_nil_iff.mpr fun r hr heq => ?_
  obtain ⟨e, other, hother, hid, hne⟩ := h r (up.received_isPrefix.subset hr)
  have hid' : call.requestId = other.requestId := by
    rw [hid]
    exact (of_decide_eq_true heq).symm
  obtain rfl : d = e := HasId.inj hn (hasId_of_call hcall) (hid' ▸ hasId_of_call hother)
  rw [hcall] at hother
  exact hne (Option.some.inj hother ▸ hpc)

theorem Carried.step_asked {l : ConnLabel π} {out : Option Command} (h : c.Carried up)
    (hs : c.step l = some (c', out)) : c'.Asked up := by
  intro r hr
  obtain ⟨d, call, hcall, hid, hpc⟩ := h.asked r hr
  obtain ⟨call', hcall', -, hid', hpc', -⟩ := h.allOk.call_step h.numbered hs hcall
  exact ⟨d, call', hcall', hid'.trans hid, hpc' hpc⟩

theorem Carried.step {l : ConnLabel π} {out : Option Command} (h : c.Carried up)
    (hr : incoming l = none) (hseq : Counts l = true → c.seq + 1 < UInt64.size)
    (hs : c.step l = some (c', out)) : c'.Carried up := by
  have hn' : c'.Numbered := step_numbered h.numbered hseq hs
  have hasked' := h.step_asked hs
  refine ⟨h.allOk.step h.numbered hs, hn', hasked', fun d v' hv' hkind => ?_⟩
  obtain hsame | ⟨v, w, o, hv, hw, hstep, -⟩ | ⟨kind, hnone, hnew⟩ :=
    step_view h.allOk.known h.numbered (step_cases hs) d
  · exact h.lossless d v' (hsame.symm.trans hv') hkind
  · obtain rfl := Option.some.inj (hw.symm.trans hv')
    rw [hstep.requestId_eq]
    have hkind' : v.call.kind = .stream true := hstep.kind_eq ▸ hkind
    exact hstep.lossless (h.allOk.views d v hv) hkind' (h.lossless d v hv hkind')
      (fun hpc => h.asked.receivedFor_eq_nil h.numbered (view_call hv) hpc)
      (step_flight_le hr hs hv hw)
  -- the number of a new request is in no reply
  · obtain rfl := Option.some.inj (hnew.symm.trans hv')
    rw [hasked'.receivedFor_eq_nil hn' (view_call hv') rfl]
    exact ⟨⟨[], .none rfl, .of_eq rfl⟩, fun _ => rfl, fun _ => ⟨rfl, rfl⟩⟩

theorem Carried.sent (h : c.Carried up) (hreceived : up'.received = up.received)
    (hasked : c.Asked up') : c.Carried up' := by
  refine ⟨h.allOk, h.numbered, hasked, fun d v hv hkind => ?_⟩
  rw [receivedFor, hreceived]
  exact h.lossless d v hv hkind

/-! ### The Control handler receives a reply -/

theorem receive_calls (c : AgentConn π) (r : Reply π) :
    (c.receive r).calls = c.calls ∧ (c.receive r).closing = c.closing := by
  unfold receive
  split
  · split
    · exact ⟨rfl, rfl⟩
    · split <;> exact ⟨rfl, rfl⟩
  · split <;> exact ⟨rfl, rfl⟩

theorem receive_own (hcall : c.calls[d]? = some call) (hkind : call.kind = .stream true)
    (hd : c.pendingStream.get r.requestId = some d) :
    (c.receive r).delivery = .stream d r ∧
      ∀ id, (c.receive r).pendingStream.get id = some d → c.pendingStream.get id = some d := by
  cases r with
  | result id body =>
    have hd' : c.pendingStream.get id = some d := hd
    simp only [receive, hd']
    exact ⟨trivial, fun id' h => GoMap.get_of_get_erase h⟩
  | progress id body =>
    have hd' : c.pendingStream.get id = some d := hd
    simp [receive, hd', hcall, hkind]

theorem receive_other (hidle : c.delivery = .idle) (hp : c.pending.get r.requestId ≠ some d)
    (hs : c.pendingStream.get r.requestId ≠ some d) :
    (∀ r', (c.receive r).delivery.target ≠ some (d, r')) ∧
      ∀ id, (c.receive r).pendingStream.get id = some d ↔ c.pendingStream.get id = some d := by
  have hcases := receive_cases hidle r
  generalize c.receive r = c' at hcases ⊢
  cases hcases with
  | result id body e _ hstream hpending =>
    exact ⟨fun r' hr' => hp (by cases hr'; exact hpending), fun _ => Iff.rfl⟩
  | terminal id body e _ hstream =>
    refine ⟨fun r' hr' => hs (by cases hr'; exact hstream), fun id' => ⟨GoMap.get_of_get_erase, ?_⟩⟩
    intro hid'
    have hne : id' ≠ id := fun heq => hs (heq ▸ hid')
    exact (GoMap.get_erase_of_ne _ hne).trans hid'
  | progress id body e dl _ hstream hdl =>
    refine ⟨fun r' hr' => hs ?_, fun _ => Iff.rfl⟩
    obtain rfl | ⟨rfl, -⟩ := hdl <;> cases hr' <;> exact hstream
  | unknown =>
    refine ⟨fun r' hr' => ?_, fun _ => Iff.rfl⟩
    rw [hidle] at hr'
    cases hr'

theorem receivedFor_pop? (hpop : up.pop? = some (r, up')) (id : String) :
    receivedFor up' id = receivedFor up id ++ if r.requestId = id then [r] else [] := by
  rw [receivedFor, Fifo.received_pop? hpop, List.filter_append, List.filter_singleton,
    Bool.cond_decide]
  rfl

theorem flight_own_idle (hidle : c.delivery = .idle) : c.own.filter (·.isFor d) = 0 := by
  rw [own, hidle, flight_idle, Multiset.filter_zero]

theorem Carried.receive_registered (h : c.Carried up) (hidle : c.delivery = .idle)
    (hcall : c.calls[d]? = some call) (hkind : call.kind = .stream true)
    (hd : c.pendingStream.get r.requestId = some d) (hpop : up.pop? = some (r, up')) {v : View π}
    (hv : (c.receive r).view (c.receive r).own d = some v) :
    v.Lossless d (receivedFor up' call.requestId) := by
  have hid : call.requestId = r.requestId :=
    requestId_of_hasId hcall (h.allOk.known.pendingStream _ d hd)
  obtain ⟨hcalls, hclosing⟩ := c.receive_calls r
  obtain ⟨hdelivery, hkept⟩ := receive_own hcall hkind hd
  have hl := h.lossless d _ (view_eq hcall) hkind
  rw [view_eq (hcalls ▸ hcall), Option.some.injEq] at hv
  subst hv
  refine ⟨⟨[r], .one r ?_, ?_⟩, fun hended => ?_, fun hpc => ?_⟩
  · show (c.receive r).own.filter (·.isFor d) = _
    rw [own, hdelivery, flight_self rfl, Multiset.filter_zero]
    rfl
  · obtain ⟨rs, hrs, hf⟩ := hl.follows
    cases hrs with
    | none =>
      rw [receivedFor_pop? hpop, if_pos hid.symm]
      have hlive : decide (c.pendingStream.get call.requestId = some d) = true :=
        decide_eq_true (hid ▸ hd)
      have heq := hf.2 (by rw [Bool.or_eq_true]; exact .inl hlive)
      rw [List.append_nil] at heq
      exact .of_eq (congrArg (· ++ [r]) heq)
    | one r' hflight =>
      rw [show c.own.filter (·.isFor d) = 0 from flight_own_idle hidle] at hflight
      exact absurd hflight.symm (Multiset.singleton_ne_zero _)
  · rw [decide_eq_false_iff_not]
    intro hget
    have hgone := hl.ended (by rwa [hclosing] at hended)
    exact decide_eq_false_iff_not.mp hgone (hkept _ hget)
  · have hfresh := hl.fresh hpc
    rwa [hclosing]

theorem Carried.receive_unregistered (h : c.Carried up) (hidle : c.delivery = .idle)
    (hcall : c.calls[d]? = some call) (hkind : call.kind = .stream true)
    (hd : c.pendingStream.get r.requestId ≠ some d) (hpop : up.pop? = some (r, up')) {v : View π}
    (hv : (c.receive r).view (c.receive r).own d = some v) :
    v.Lossless d (receivedFor up' call.requestId) := by
  have hpending : c.pending.get r.requestId ≠ some d := fun hp => by
    have hid : call.requestId = r.requestId :=
      requestId_of_hasId hcall (h.allOk.known.pending _ d hp)
    have hunary := (h.allOk.views d _ (view_eq hcall)).pending (decide_eq_true (hid ▸ hp))
    rw [hkind] at hunary
    cases hunary
  obtain ⟨hcalls, hclosing⟩ := c.receive_calls r
  obtain ⟨htarget, hkept⟩ := receive_other hidle hpending hd
  have hl := h.lossless d _ (view_eq hcall) hkind
  rw [view_eq (hcalls ▸ hcall), Option.some.injEq] at hv
  subst hv
  refine ⟨⟨[], .none ?_, ?_⟩, fun hended => ?_, fun hpc => ?_⟩
  · show (c.receive r).own.filter (·.isFor d) = _
    rw [own, flight_other htarget, Multiset.filter_zero]
  · obtain ⟨rs, hrs, hf⟩ := hl.follows
    cases hrs with
    | none =>
      rw [receivedFor_pop? hpop]
      split
      · next hid =>
        have hgone : decide ((c.receive r).pendingStream.get call.requestId = some d) = false :=
          decide_eq_false (fun hget => hd (hid ▸ (hkept _).mp hget))
        exact (hf.behind List.prefix_rfl [r]).mono fun hl => by rw [hgone] at hl; exact hl
      · simpa only [hkept, List.append_nil] using hf
    | one r' hflight =>
      rw [show c.own.filter (·.isFor d) = 0 from flight_own_idle hidle] at hflight
      exact absurd hflight.symm (Multiset.singleton_ne_zero _)
  · have hgone := hl.ended (by rwa [hclosing] at hended)
    simpa only [hkept] using hgone
  · have hfresh := hl.fresh hpc
    rwa [hclosing]

theorem Carried.receive (h : c.Carried up) (hidle : c.delivery = .idle)
    (hpop : up.pop? = some (r, up')) : (c.receive r).Carried up' := by
  have hs : c.step (.receive r) = some (c.receive r, none) := by
    rw [AgentConn.step, hidle]
  obtain ⟨hcalls, -⟩ := c.receive_calls r
  have hn' : (c.receive r).Numbered :=
    step_numbered (l := .receive r) h.numbered (fun hc => by cases hc) hs
  have hasked : (c.receive r).Asked up' := fun r' hr' => by
    rw [hcalls]
    exact h.asked r' ((Fifo.pop?_eq_some hpop).2.2.1 ▸ hr')
  refine ⟨h.allOk.step h.numbered hs, hn', hasked, fun d v' hv' hkind => ?_⟩
  have hcall : c.calls[d]? = some v'.call := hcalls ▸ view_call hv'
  by_cases hd : c.pendingStream.get r.requestId = some d
  · exact h.receive_registered hidle hcall hkind hd hpop hv'
  · exact h.receive_unregistered hidle hcall hkind hd hpop hv'

end AgentConn
end Hostlink.Controller
