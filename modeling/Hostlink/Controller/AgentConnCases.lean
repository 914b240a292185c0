import Hostlink.Controller.AgentConn

/-! What a step of an `agentConn` can do, as one relation. -/

namespace Hostlink.Controller.AgentConn
variable {π : Type}

inductive CallStep (c : AgentConn π) (d : Nat) (call : Call π) :
    CallLabel → AgentConn π → Option Command → Prop
  | refused (hpc : call.pc = .register) (hclosed : c.closed = true) :
      CallStep c d call .register
        (c.setCall d { call with pc := .returned, err := some errAgentDisconnected }) none
  | registered (hpc : call.pc = .register) (hopen : c.closed = false)
      (hkind : call.kind.isStream = false) :
      CallStep c d call .register
        { c.setCall d { call with pc := .send } with
          pending := c.pending.insert call.requestId d } none
  | registeredStream (hpc : call.pc = .register) (hopen : c.closed = false)
      (hkind : call.kind.isStream = true) :
      CallStep c d call .register
        { c.setCall d { call with pc := .send } with
          pendingStream := c.pendingStream.insert call.requestId d } none
  | sent (err : Option GoError) (hpc : call.pc = .send) :
      CallStep c d call (.send err)
        (c.setCall d { call with pc := call.afterSend err, err := err.map (sendErr c.agentId) })
        (if err.isNone then some (.request call.requestId call.kind d) else none)
  | chunk (last : Bool) (err : Option GoError) (hpc : call.pc = .body) :
      CallStep c d call (.chunk last err) c
        (if err.isNone then some (.chunk call.requestId last) else none)
  | await (hpc : call.pc = .body) :
      CallStep c d call .await (c.setCall d { call with pc := .wait }) none
  | ctxDone (err : GoError) (hpc : call.pc = .wait) :
      CallStep c d call (.ctxDone err)
        (c.setCall d { call with pc := .unregister, err := some err }) none
  | tookResult (r : Reply π) (hpc : call.pc = .wait) (hinbox : call.inbox = some r) :
      CallStep c d call .take
        (c.setCall d { call with pc := .unregister, inbox := none, taken := [r] }) none
  | tookClosed (hpc : call.pc = .wait) (hinbox : call.inbox = none)
      (hclosed : call.chanClosed = true) :
      CallStep c d call .take
        (c.setCall d { call with pc := .unregister, err := some errAgentDisconnected }) none
  | tookFrame (r : Reply π) (frames : List (Reply π)) (hpc : call.pc = .consume)
      (hframes : call.frames = r :: frames) :
      CallStep c d call .take
        (c.setCall d { call with frames := frames, taken := call.taken ++ [r] }) none
  | unregistered (hpc : call.pc = .unregister) :
      CallStep c d call .unregister
        { c.setCall d { call with pc := .returned } with
          pending := c.pending.erase call.requestId } none
  | cancelLive (failed : Bool) (hpc : call.pc = if failed then .cancel else .consume)
      (hlive : c.pendingStream.get call.requestId = some d) :
      CallStep c d call .cancel
        { c.setCall d { call with pc := .cancelClose true c.closed failed } with
          pendingStream := c.pendingStream.erase call.requestId } none
  | cancelGone (failed : Bool) (hpc : call.pc = if failed then .cancel else .consume)
      (hlive : c.pendingStream.get call.requestId ≠ some d) :
      CallStep c d call .cancel
        (c.setCall d { call with pc := .cancelClose false c.closed failed }) none
  | cancelClosed (live closed failed : Bool) (hpc : call.pc = .cancelClose live closed failed) :
      CallStep c d call .cancelClose
        (c.setCall d { call with
          pc := if !live || closed then Call.afterCancel failed else .cancelSend failed
          done := true }) none
  | cancelSent (failed : Bool) (err : Option GoError) (hpc : call.pc = .cancelSend failed) :
      CallStep c d call (.cancelSend err)
        { c.setCall d { call with pc := Call.afterCancel failed } with seq := c.nextSeq }
        (if err.isNone then some (.cancel (Strconv.formatUint c.nextSeq) call.requestId) else none)

inductive DeliveryStep (c : AgentConn π) : ConnLabel π → AgentConn π → Prop
  | result (id : String) (body : π) (d : Nat) (hidle : c.delivery = .idle)
      (hstream : c.pendingStream.get id = none) (hd : c.pending.get id = some d) :
      DeliveryStep c (.receive (.result id body))
        { c with pending := c.pending.erase id, delivery := .unary d (.result id body) }
  | terminal (id : String) (body : π) (d : Nat) (hidle : c.delivery = .idle)
      (hd : c.pendingStream.get id = some d) :
      DeliveryStep c (.receive (.result id body))
        { c with
          pendingStream := c.pendingStream.erase id
          delivery := .stream d (.result id body) }
  | progress (id : String) (body : π) (d : Nat) (dl : Delivery π) (hidle : c.delivery = .idle)
      (hd : c.pendingStream.get id = some d)
      (hdl : dl = .stream d (.progress id body) ∨ dl = .advisory d (.progress id body) ∧
        ∀ call, c.calls[d]? = some call → call.kind ≠ .stream true) :
      DeliveryStep c (.receive (.progress id body)) { c with delivery := dl }
  | unknown (r : Reply π) (hidle : c.delivery = .idle)
      (hd : c.pendingStream.get r.requestId = none) :
      DeliveryStep c (.receive r) c
  | putResult (d : Nat) (r : Reply π) (call : Call π) (hd : c.delivery = .unary d r)
      (hcall : c.calls[d]? = some call) (hinbox : call.inbox = none)
      (hopen : call.chanClosed = false) :
      DeliveryStep c .put
        { c.setCall d { call with inbox := some r } with
          delivery := .idle
          delivered := c.delivered ++ [(d, r)] }
  | putFrame (d : Nat) (r : Reply π) (call : Call π)
      (hd : c.delivery = .stream d r ∨ c.delivery = .advisory d r)
      (hcall : c.calls[d]? = some call) :
      DeliveryStep c .put
        { c.setCall d { call with frames := call.frames ++ [r] } with
          delivery := .idle
          delivered := c.delivered ++ [(d, r)] }
  | dropped (d : Nat) (r : Reply π) (call : Call π) (hcall : c.calls[d]? = some call)
      (hd : c.delivery = .stream d r ∧ call.done = true ∨ c.delivery = .advisory d r) :
      DeliveryStep c .drop { c with delivery := .idle }

inductive Step (c : AgentConn π) : ConnLabel π → AgentConn π → Option Command → Prop
  | start (kind : CallKind) :
      Step c (.start kind)
        { c with seq := c.nextSeq, calls := c.calls ++ [{ kind := kind, id := c.nextSeq }] } none
  | call (d : Nat) (call : Call π) (l : CallLabel) (c' : AgentConn π) (out : Option Command)
      (hcall : c.calls[d]? = some call) (h : CallStep c d call l c' out) :
      Step c (.call d l) c' out
  | delivery (l : ConnLabel π) (c' : AgentConn π) (h : DeliveryStep c l c') : Step c l c' none
  | closeAll : Step c .closeAll c.closeAll none
  | closeDone (d : Nat) (call : Call π) (hcall : c.calls[d]? = some call) (hd : d ∈ c.closing) :
      Step c (.closeDone d)
        { c.setCall d { call with done := true } with closing := c.closing.erase d } none

section Cases
variable {c c' : AgentConn π} {d : Nat} {call : Call π} {out : Option Command}

theorem cancelLock_cases {failed : Bool} (hpc : call.pc = if failed then .cancel else .consume) :
    CallStep c d call .cancel (c.cancelLock d call failed) none := by
  by_cases hlive : c.pendingStream.get call.requestId = some d
  · have heq : c.cancelLock d call failed =
        { c.setCall d { call with pc := .cancelClose true c.closed failed } with
          pendingStream := c.pendingStream.erase call.requestId } := by
      simp only [cancelLock, hlive, decide_true, if_true]
      rfl
    rw [heq]
    exact .cancelLive failed hpc hlive
  · have heq : c.cancelLock d call failed =
        c.setCall d { call with pc := .cancelClose false c.closed failed } := by
      simp only [cancelLock, hlive, decide_false, Bool.false_eq_true, if_false]
    rw [heq]
    exact .cancelGone failed hpc hlive

theorem register_cases (hpc : call.pc = .register) :
    CallStep c d call .register (c.register d call) none := by
  unfold register
  split
  · next hclosed => exact .refused hpc hclosed
  · next hclosed =>
    have hopen : c.closed = false := by simpa using hclosed
    dsimp only
    split
    · next hkind => exact .registeredStream hpc hopen hkind
    · next hkind => exact .registered hpc hopen (by simpa using hkind)

theorem stepCall_cases {l : CallLabel} (h : c.stepCall d call l = some (c', out)) :
    CallStep c d call l c' out := by
  cases l with
  | register =>
    simp only [stepCall] at h
    split at h
    · next hpc =>
      cases h
      exact register_cases hpc
    · cases h
  | send err =>
    simp only [stepCall] at h
    split at h
    · next hpc =>
      cases h
      exact .sent err hpc
    · cases h
  | chunk last err =>
    simp only [stepCall] at h
    split at h
    · next hpc =>
      cases h
      exact .chunk last err hpc
    · cases h
  | await =>
    simp only [stepCall] at h
    split at h
    · next hpc =>
      cases h
      exact .await hpc
    · cases h
  | ctxDone err =>
    simp only [stepCall] at h
    split at h
    · next hpc =>
      cases h
      exact .ctxDone err hpc
    · cases h
  | take =>
    simp only [stepCall] at h
    split at h
    · next hpc =>
      split at h
      · next r hinbox =>
        cases h
        exact .tookResult r hpc hinbox
      · next hinbox =>
        split at h
        · next hclosed =>
          cases h
          exact .tookClosed hpc hinbox hclosed
        · cases h
    · next hpc =>
      split at h
      · next r frames hframes =>
        cases h
        exact .tookFrame r frames hpc hframes
      · cases h
    · cases h
  | unregister =>
    simp only [stepCall] at h
    split at h
    · next hpc =>
      cases h
      exact .unregistered hpc
    · cases h
  | cancel =>
    simp only [stepCall] at h
    split at h
    · next hpc =>
      cases h
      exact cancelLock_cases hpc
    · next hpc =>
      cases h
      exact cancelLock_cases hpc
    · cases h
  | cancelClose =>
    simp only [stepCall] at h
    split at h
    · next live closed failed hpc =>
      cases h
      exact .cancelClosed live closed failed hpc
    · cases h
  | cancelSend err =>
    simp only [stepCall] at h
    split at h
    · next failed hpc =>
      cases h
      exact .cancelSent failed err hpc
    · cases h

theorem receive_cases (hidle : c.delivery = .idle) (r : Reply π) :
    DeliveryStep c (.receive r) (c.receive r) := by
  cases r with
  | result id body =>
    simp only [receive]
    split
    · next d hd => exact .terminal id body d hidle hd
    · next hstream =>
      split
      · next d hd => exact .result id body d hidle hstream hd
      · exact .unknown (.result id body) hidle hstream
  | progress id body =>
    simp only [receive]
    split
    · next d hd =>
      refine .progress id body d _ hidle hd ?_
      split
      · exact .inl rfl
      · next hkind =>
        refine .inr ⟨rfl, fun call hcall hrel => hkind ?_⟩
        rw [hcall, Option.any_some, hrel]
        rfl
    · next hd => exact .unknown (.progress id body) hidle hd

theorem putFrame_cases {r : Reply π} (hd : c.delivery = .stream d r ∨ c.delivery = .advisory d r)
    (hcall : c.calls[d]? = some call) (h : c.putFrame d r call = some c') :
    DeliveryStep c .put c' := by
  unfold AgentConn.putFrame at h
  split at h
  · cases h
    exact .putFrame d r call hd hcall
  · cases h

theorem put_cases (h : c.put = some c') : DeliveryStep c .put c' := by
  unfold put at h
  split at h
  · cases h
  · next d r hd =>
    obtain ⟨call, hcall, h⟩ := Option.bind_eq_some_iff.mp h
    split at h
    · next hfree =>
      cases h
      rw [Bool.and_eq_true, Option.isNone_iff_eq_none, Bool.not_eq_true'] at hfree
      exact .putResult d r call hd hcall hfree.1 hfree.2
    · cases h
  · next d r hd =>
    obtain ⟨call, hcall, h⟩ := Option.bind_eq_some_iff.mp h
    exact putFrame_cases (.inl hd) hcall h
  · next d r hd =>
    obtain ⟨call, hcall, h⟩ := Option.bind_eq_some_iff.mp h
    exact putFrame_cases (.inr hd) hcall h

theorem drop_cases (h : c.drop = some c') : DeliveryStep c .drop c' := by
  unfold drop at h
  split at h
  · next d r hd =>
    obtain ⟨call, hcall, h⟩ := Option.bind_eq_some_iff.mp h
    split at h
    · next hdone =>
      cases h
      exact .dropped d r call hcall (.inl ⟨hd, hdone⟩)
    · cases h
  · next d r hd =>
    obtain ⟨call, hcall, h⟩ := Option.bind_eq_some_iff.mp h
    split at h
    · cases h
      exact .dropped d r call hcall (.inr hd)
    · cases h
  · cases h
  · cases h

theorem step_cases {l : ConnLabel π} (h : c.step l = some (c', out)) : Step c l c' out := by
  cases l with
  | start kind =>
    cases h
    exact .start kind
  | call d l =>
    obtain ⟨call, hcall, h⟩ := Option.bind_eq_some_iff.mp h
    exact .call d call l c' out hcall (stepCall_cases h)
  | receive r =>
    simp only [step] at h
    split at h
    · next hidle =>
      cases h
      exact .delivery _ _ (receive_cases hidle r)
    · cases h
  | put =>
    obtain ⟨c', hput, h⟩ := Option.map_eq_some_iff.mp h
    cases h
    exact .delivery _ _ (put_cases hput)
  | drop =>
    obtain ⟨c', hdrop, h⟩ := Option.map_eq_some_iff.mp h
    cases h
    exact .delivery _ _ (drop_cases hdrop)
  | closeAll =>
    cases h
    exact .closeAll
  | closeDone d =>
    simp only [step] at h
    split at h
    · next hd =>
      obtain ⟨call, hcall, h⟩ := Option.map_eq_some_iff.mp h
      cases h
      exact .closeDone d call hcall hd
    · cases h

theorem CallStep.set {l : CallLabel} (h : CallStep c d call l c' out)
    (hcall : c.calls[d]? = some call) :
    c'.delivery = c.delivery ∧ ∃ call', c'.calls = c.calls.set d call' ∧ call'.id = call.id ∧
      call'.frames.length ≤ call.frames.length ∧ (call.done = true → call'.done = true) := by
  cases h with
  | chunk =>
    refine ⟨rfl, call, ?_, rfl, Nat.le_refl _, id⟩
    rw [← (List.getElem?_eq_some_iff.mp hcall).2, List.set_getElem_self]
  | tookFrame r frames hpc hframes =>
    refine ⟨rfl, _, rfl, rfl, ?_, id⟩
    rw [hframes]
    exact Nat.le_succ _
  | cancelClosed => exact ⟨rfl, _, rfl, rfl, Nat.le_refl _, fun _ => rfl⟩
  | refused | registered | registeredStream | sent | await | ctxDone | tookResult | tookClosed
  | unregistered | cancelLive | cancelGone | cancelSent =>
    exact ⟨rfl, _, rfl, rfl, Nat.le_refl _, id⟩

end Cases

end Hostlink.Controller.AgentConn
