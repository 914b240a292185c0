import Hostlink.Controller.SharedConn

/-! What becomes of the dispatchers of a connection that `closeAll` has closed: they are given what
was under way to them by then, or an error. -/

namespace Hostlink.Controller
variable {π : Type}

def CallPc.over : CallPc → Bool
  | .unregister | .cancel | .cancelClose _ _ true | .cancelSend true | .returned => true
  | .register | .send | .body | .wait | .consume | .cancelClose _ _ false | .cancelSend false =>
    false

/-- How a dispatcher can end: with one of the replies `given`, with `errAgentDisconnected`, or with
the error of a step of its own. -/
def Outcome (agentId : String) (given : Reply π → Prop) (own : List CallLabel) (call : Call π) :
    Prop :=
  (∃ r, given r ∧ call.taken = [r] ∧ call.err = none) ∨
  call.err = some errAgentDisconnected ∨
  (∃ err, .send (some err) ∈ own ∧ call.err = some (sendErr agentId err)) ∨
  ∃ err, .ctxDone err ∈ own ∧ call.err = some err

theorem Outcome.mono {agentId : String} {given : Reply π → Prop} {own own' : List CallLabel}
    {call call' : Call π} (h : Outcome agentId given own call) (hown : own ⊆ own')
    (htaken : call'.taken = call.taken) (herr : call'.err = call.err) :
    Outcome agentId given own' call' := by
  unfold Outcome at h ⊢
  rw [htaken, herr]
  obtain h | h | ⟨err, hmem, h⟩ | ⟨err, hmem, h⟩ := h
  · exact .inl h
  · exact .inr (.inl h)
  · exact .inr (.inr (.inl ⟨err, hown hmem, h⟩))
  · exact .inr (.inr (.inr ⟨err, hown hmem, h⟩))

theorem Call.over_afterSend (call : Call π) : (call.afterSend none).over = false := by
  cases hkind : call.kind <;> simp [afterSend, hkind, CallPc.over]

theorem CallMove.outstanding {v : View π} {l : CallLabel} {call : Call π} (h : CallMove v l call)
    (ho : ({ v with call := call } : View π).outstanding = true) : v.outstanding = true := by
  cases h with
  | sent err hpc | await hpc => rw [View.outstanding, hpc]
  | tookFrame r frames hpc => exact ho
  | cancelClosed live closed failed hpc =>
    rcases Call.afterCancel_cases failed with h | h <;> cases live <;> cases closed <;>
      simp [View.outstanding, h] at ho
  | cancelSent failed err hpc =>
    rcases Call.afterCancel_cases failed with h | h <;> simp [View.outstanding, h] at ho
  | refused | ctxDone | tookResult | tookClosed | cancelGone => cases ho

def View.Given (d : Nat) (v : View π) (r : Reply π) : Prop :=
  v.call.inbox = some r ∨ .unary d r ∈ v.flight

theorem View.Ok.token {v : View π} (hok : v.Ok) (hclosed : v.closed = true)
    (ha : v.awaits = true) :
    (∃ dl ∈ v.flight, dl.carriesResult = true) ∨ (∃ r ∈ v.put, r.isResult = true) ∨
      v.call.chanClosed = true := by
  have hload := hok.awaits ha
  obtain ⟨hp, hs⟩ := hok.closed hclosed
  rw [View.load, hp, hs, Bool.toNat_false] at hload
  by_contra hnone
  obtain ⟨hflight, hnone⟩ := not_or.mp hnone
  obtain ⟨hput, hopen⟩ := not_or.mp hnone
  have h1 : v.flight.countP (·.carriesResult) = 0 :=
    Multiset.countP_eq_zero.mpr fun dl hdl hc => hflight ⟨dl, hdl, hc⟩
  have h2 : v.put.countP Reply.isResult = 0 :=
    List.countP_eq_zero.mpr fun r hr hc => hput ⟨r, hr, hc⟩
  rw [h1, h2, eq_false_of_ne_true hopen, Bool.toNat_false] at hload
  omega

/-- What a dispatcher sees, `own` steps of its own after it had the view `v` of a closed
connection. -/
structure View.Since (d : Nat) (v : View π) (own : List CallLabel) (v' : View π) : Prop where
  agentId : v'.agentId = v.agentId
  closed : v'.closed = true
  given : v'.outstanding = true → ∀ r, v'.Given d r → v.Given d r
  outcome : v'.call.pc.over = true → Outcome v.agentId (v.Given d) own v'.call

namespace View.Since
variable {d : Nat} {v w w' : View π} {own : List CallLabel} {l : CallLabel} {call : Call π}

theorem refl (hclosed : v.closed = true) (hover : v.call.pc.over = false) : v.Since d [] v where
  agentId := rfl
  closed := hclosed
  given := fun _ _ h => h
  outcome := fun h => by
    rw [hover] at h
    cases h

theorem mono (h : v.Since d own w) {own' : List CallLabel} (hown : own ⊆ own') :
    v.Since d own' w :=
  { h with outcome := fun ho => (h.outcome ho).mono hown rfl rfl }

theorem keep (h : v.Since d own w) (hagent : w'.agentId = w.agentId) (hclosed : w'.closed = true)
    (hpc : w'.call.pc = w.call.pc) (htaken : w'.call.taken = w.call.taken)
    (herr : w'.call.err = w.call.err) (hgiven : ∀ r, w'.Given d r → w.Given d r) :
    v.Since d own w' where
  agentId := hagent.trans h.agentId
  closed := hclosed
  given := fun ho r hr => by
    refine h.given ?_ r (hgiven r hr)
    rwa [View.outstanding, ← hpc]
  outcome := fun ho => (h.outcome (hpc ▸ ho)).mono (List.Subset.refl own) htaken herr

theorem move (hok : w.Ok) (h : v.Since d own w) (hm : CallMove w l call) :
    v.Since d (own ++ [l]) { w with call := call } := by
  refine ⟨h.agentId, h.closed, fun ho r hr => ?_, fun ho => ?_⟩
  · exact h.given (hm.outstanding ho) r (hr.imp_left hm.inbox)
  · have hlast : l ∈ own ++ [l] := List.mem_append_right _ (List.mem_singleton_self l)
    cases hm with
    | refused => exact .inr (.inl rfl)
    | sent err hpc =>
      cases err with
      | none =>
        rw [Call.over_afterSend] at ho
        cases ho
      | some err => exact .inr (.inr (.inl ⟨err, hlast, by rw [← h.agentId]; rfl⟩))
    | await hpc => cases ho
    | ctxDone err hpc => exact .inr (.inr (.inr ⟨err, hlast, rfl⟩))
    | tookResult r hpc hinbox =>
      have hw : w.outstanding = true := by rw [View.outstanding, hpc]
      exact .inl ⟨r, h.given hw r (.inl hinbox), rfl, (hok.clean hw).2⟩
    | tookClosed => exact .inr (.inl rfl)
    | tookFrame r frames hpc =>
      simp [hpc, CallPc.over] at ho
    -- only a cancel after a failed send leads to the end, and then the error stands
    | cancelGone failed hpc | cancelSent failed err hpc =>
      obtain rfl : failed = true := by
        cases failed with
        | true => rfl
        | false => cases ho
      exact (h.outcome (by rw [hpc]; rfl)).mono (List.subset_append_left ..) rfl rfl
    | cancelClosed live closed failed hpc =>
      obtain rfl : failed = true := by
        cases failed with
        | true => rfl
        | false => cases live <;> cases closed <;> cases ho
      exact (h.outcome (by rw [hpc]; rfl)).mono (List.subset_append_left ..) rfl rfl

/-- Nothing new is registered or found on a closed connection, so no step but the dispatcher's own
changes its prospects. -/
theorem step (hok : w.Ok) (h : v.Since d own w) {o : Option CallLabel} (hs : ViewStep d w o w') :
    v.Since d (own ++ o.toList) w' := by
  cases hs with
  | move l call hm => exact h.move hok hm
  | registered hpc hopen | registeredStream hpc hopen =>
    rw [h.closed] at hopen
    cases hopen
  | unregistered hpc =>
    refine ⟨h.agentId, h.closed, fun ho => (by cases ho), fun _ => ?_⟩
    exact (h.outcome (by rw [hpc]; rfl)).mono (List.subset_append_left ..) rfl rfl
  | cancelLive failed hpc hheld | terminal r hr hid hheld | progress r dl hr hid hheld =>
    rw [(hok.closed h.closed).2] at hheld
    cases hheld
  | result r hr hid hheld =>
    rw [(hok.closed h.closed).1] at hheld
    cases hheld
  | putResult r flight hflight =>
    rw [Option.toList_none, List.append_nil]
    refine h.keep rfl h.closed rfl rfl rfl fun r' hr' => ?_
    obtain hr' | hr' := hr'
    · cases hr'
      exact .inr (View.head_mem hflight)
    · exact .inr (hflight ▸ Multiset.mem_cons_of_mem hr')
  | putFrame r dl flight hflight | dropped r dl flight hflight =>
    rw [Option.toList_none, List.append_nil]
    exact h.keep rfl h.closed rfl rfl rfl fun r' hr' =>
      hr'.imp_right fun hr' => hflight ▸ Multiset.mem_cons_of_mem hr'
  | closeAll =>
    rw [Option.toList_none, List.append_nil]
    exact h.keep rfl rfl rfl rfl rfl fun r' hr' => hr'
  | closeDone =>
    rw [Option.toList_none, List.append_nil]
    exact h.keep rfl h.closed rfl rfl rfl fun r' hr' => hr'

end View.Since

namespace SharedConn
variable {s t : SharedConn π}

def own (d : Nat) (ls : List (SharedLabel π)) : List CallLabel :=
  ls.filterMap fun
    | .conn (.call e l) => if e = d then some l else none
    | _ => none

theorem own_subset {d : Nat} {ls : List (SharedLabel π)} {l : SharedLabel π}
    {o : Option CallLabel} (h : ∀ l', o = some l' → l = .conn (.call d l')) :
    own d ls ++ o.toList ⊆ own d (ls ++ [l]) := by
  intro x hx
  rw [own, List.filterMap_append]
  obtain hx | hx := List.mem_append.mp hx
  · exact List.mem_append_left _ hx
  · rw [h x (Option.mem_toList.mp hx)]
    exact List.mem_append_right _ (by simp)

theorem since_of_run {agentId : String} {ls ls' : List (SharedLabel π)}
    (h : Lts.AnyRun step (init agentId) ls s) (h' : Lts.AnyRun step s ls' t)
    (hseq : (ls ++ ls').countP takesNumber < UInt64.size) {d : Nat} {v : View π}
    (hv : s.view d = some v) (hclosed : v.closed = true) (hover : v.call.pc.over = false) :
    ∃ v', t.view d = some v' ∧ v.Since d (own d ls') v' := by
  have hI : Lts.AnyRun step (init agentId) (ls ++ ls') t ∧
      ((ls ++ ls').countP takesNumber < UInt64.size →
        ∃ v', t.view d = some v' ∧ v.Since d (own d ls') v') := by
    refine h'.history (I := fun ls' t => Lts.AnyRun step (init agentId) (ls ++ ls') t ∧
      ((ls ++ ls').countP takesNumber < UInt64.size →
        ∃ v', t.view d = some v' ∧ v.Since d (own d ls') v')) ?_ ?_
    · rintro ls' t l u ⟨hrun, ih⟩ - hs
      refine ⟨List.append_assoc ls ls' [l] ▸ hrun.snoc trivial hs, fun hlt => ?_⟩
      rw [← List.append_assoc, List.countP_append] at hlt
      obtain ⟨w, hw, hsince⟩ := ih (by omega)
      have hi := inv_of_run hrun (by omega)
      obtain hsame | ⟨x, w', o, hx, hw', hstep, hlabel⟩ | ⟨kind, hnone, -⟩ := step_view hi hs d
      · refine ⟨w, hsame.trans hw, hsince.mono ?_⟩
        rw [own, own, List.filterMap_append]
        exact List.subset_append_left _ _
      · obtain rfl := Option.some.inj (hw.symm.trans hx)
        exact ⟨w', hw', (hsince.step (hi.allOk.views d w hw) hstep).mono (own_subset hlabel)⟩
      · rw [hw] at hnone
        cases hnone
    · exact ⟨by rwa [List.append_nil], fun _ => ⟨v, hv, .refl hclosed hover⟩⟩
  exact hI.2 hseq

def Given (s : SharedConn π) (d : Nat) (r : Reply π) : Prop :=
  (∃ call, s.conn.calls[d]? = some call ∧ call.inbox = some r) ∨
    ∃ i : Nat, s.deliveries[i]? = some (.unary d r)

/-- What holds in state `t`, to which the steps `ls` have led from the closed connection `s`. -/
structure Disconnected (s : SharedConn π) (ls : List (SharedLabel π)) (t : SharedConn π) :
    Prop where
  empty : ∀ id, t.conn.pending.get id = none ∧ t.conn.pendingStream.get id = none
  outcome : ∀ (d : Nat) (call call' : Call π), s.conn.calls[d]? = some call →
    call.pc.over = false → t.conn.calls[d]? = some call' → call'.pc = .returned →
      Outcome s.conn.agentId (s.Given d) (own d ls) call'
  -- a dispatcher that waits has something to receive, or a send to it that cannot block is due
  woken : ∀ (d : Nat) (call : Call π), t.conn.calls[d]? = some call → call.pc = .wait →
    call.inbox ≠ none ∨ call.chanClosed = true ∨
      ∃ (i : Nat) (r : Reply π), t.deliveries[i]? = some (.unary d r)
  ended : ∀ (d : Nat) (call : Call π), t.conn.calls[d]? = some call →
    call.kind.isStream = true → call.pc = .consume →
      call.done = true ∨ d ∈ t.conn.closing ∨
        (∃ r, r.isResult = true ∧ (r ∈ call.taken ∨ r ∈ call.frames)) ∨
        ∃ (i : Nat) (r : Reply π), r.isResult = true ∧ t.deliveries[i]? = some (.stream d r)

theorem given_of_view {d : Nat} {v : View π} {r : Reply π} (hv : s.view d = some v)
    (h : v.Given d r) : s.Given d r := by
  obtain ⟨call, hcall, rfl⟩ := Option.map_eq_some_iff.mp hv
  obtain h | h := h
  · exact .inl ⟨call, hcall, h⟩
  · have hmem := Multiset.mem_coe.mp (Multiset.mem_of_mem_filter h)
    exact .inr (List.mem_iff_getElem?.mp hmem)

theorem exists_delivery {d : Nat} {dl : Delivery π}
    (h : dl ∈ (t.deliveries : Multiset (Delivery π)).filter (·.isFor d)) :
    ∃ (i : Nat) (r : Reply π), t.deliveries[i]? = some dl ∧ dl.target = some (d, r) := by
  obtain ⟨hmem, hfor⟩ := Multiset.mem_filter.mp h
  obtain ⟨i, hi⟩ := List.mem_iff_getElem?.mp (Multiset.mem_coe.mp hmem)
  obtain ⟨r, hr⟩ := AgentConn.isFor_iff.mp hfor
  exact ⟨i, r, hi, hr⟩

theorem Inv.woken (hi : t.Inv) (hclosed : t.conn.closed = true) {d : Nat} {call : Call π}
    (hcall : t.conn.calls[d]? = some call) (hpc : call.pc = .wait) :
    call.inbox ≠ none ∨ call.chanClosed = true ∨
      ∃ (i : Nat) (r : Reply π), t.deliveries[i]? = some (.unary d r) := by
  have hok := hi.allOk.views d _ (AgentConn.view_eq hcall)
  have hkind : call.kind.isStream = false := hok.waits (.inr hpc)
  obtain ⟨dl, hdl, -⟩ | ⟨r, hr, -⟩ | hchan := hok.token hclosed (by simp [View.awaits, hpc, hkind])
  · have hsuits := hok.suits dl hdl
    obtain ⟨i, r, hi, htarget⟩ := exists_delivery hdl
    cases dl with
    | idle => cases htarget
    | unary e r' =>
      obtain ⟨rfl, rfl⟩ := Prod.mk.inj (Option.some.inj htarget)
      exact .inr (.inr ⟨i, _, hi⟩)
    | stream => cases hkind.symm.trans hsuits
    | advisory => cases hkind.symm.trans hsuits.1
  · have hin := hok.answered hkind r hr
    simp only [hpc, reduceCtorEq, or_false] at hin
    exact .inl (by rw [hin]; exact Option.some_ne_none r)
  · exact .inr (.inl hchan)

theorem Inv.ended (hi : t.Inv) (hclosed : t.conn.closed = true) {d : Nat} {call : Call π}
    (hcall : t.conn.calls[d]? = some call) (hkind : call.kind.isStream = true)
    (hpc : call.pc = .consume) :
    call.done = true ∨ d ∈ t.conn.closing ∨
      (∃ r, r.isResult = true ∧ (r ∈ call.taken ∨ r ∈ call.frames)) ∨
      ∃ (i : Nat) (r : Reply π), r.isResult = true ∧ t.deliveries[i]? = some (.stream d r) := by
  have hok := hi.allOk.views d _ (AgentConn.view_eq hcall)
  by_cases hdone : call.done = true
  · exact .inl hdone
  by_cases hclosing : d ∈ t.conn.closing
  · exact .inr (.inl hclosing)
  obtain ⟨dl, hdl, hres⟩ | ⟨r, hr, hres⟩ | hchan :=
    hok.token hclosed (by simp [View.awaits, hpc, hkind, hdone, hclosing])
  · have hsuits := hok.suits dl hdl
    obtain ⟨i, r, hi, htarget⟩ := exists_delivery hdl
    cases dl with
    | idle => cases htarget
    | unary => cases hkind.symm.trans hsuits.1
    | stream e r' =>
      obtain ⟨rfl, rfl⟩ := Prod.mk.inj (Option.some.inj htarget)
      exact .inr (.inr (.inr ⟨i, _, hres, hi⟩))
    | advisory e r' => cases hres.symm.trans hsuits.2
  · exact .inr (.inr (.inl ⟨r, hres, hok.streamed hkind r hr⟩))
  · cases hkind.symm.trans (hok.chanClosed hchan)

theorem Inv.empty (hi : t.Inv) (hclosed : t.conn.closed = true) (id : String) :
    t.conn.pending.get id = none ∧ t.conn.pendingStream.get id = none := by
  constructor
  · by_contra hsome
    obtain ⟨d, hd⟩ := Option.ne_none_iff_exists'.mp hsome
    obtain ⟨call, hcall⟩ : ∃ call, t.conn.calls[d]? = some call :=
      ⟨_, List.getElem?_eq_getElem (hi.allOk.known.pending id d hd).lt⟩
    obtain rfl := AgentConn.requestId_of_hasId hcall (hi.allOk.known.pending id d hd)
    have hnone := ((hi.allOk.views d _ (AgentConn.view_eq hcall)).closed hclosed).1
    exact of_decide_eq_false hnone hd
  · by_contra hsome
    obtain ⟨d, hd⟩ := Option.ne_none_iff_exists'.mp hsome
    obtain ⟨call, hcall⟩ : ∃ call, t.conn.calls[d]? = some call :=
      ⟨_, List.getElem?_eq_getElem (hi.allOk.known.pendingStream id d hd).lt⟩
    obtain rfl := AgentConn.requestId_of_hasId hcall (hi.allOk.known.pendingStream id d hd)
    have hnone := ((hi.allOk.views d _ (AgentConn.view_eq hcall)).closed hclosed).2
    exact of_decide_eq_false hnone hd

theorem closed_of_run {ls : List (SharedLabel π)} (h : Lts.AnyRun step s ls t)
    (hidle : s.conn.delivery = .idle) (hclosed : s.conn.closed = true) : t.conn.closed = true := by
  have hI : t.conn.delivery = .idle ∧ t.conn.closed = true := by
    refine h.invariant (I := fun u => u.conn.delivery = .idle ∧ u.conn.closed = true) ?_
      ⟨hidle, hclosed⟩
    rintro s l t ⟨hidle, hclosed⟩ - hs
    obtain ⟨dl, F, k, c', out, hf⟩ := step_focus hidle hs
    exact ⟨by rw [hf.conn], step_closed hidle hs hclosed⟩
  exact hI.2

/-- On one connection, with fewer than 2^64 numbers taken: in every state reached, registrations
have their own ids, get their own messages and at most one result, and no send meets a closed or a
full result channel. Once the connection is closed the maps stay empty and every dispatcher is
given what was under way to it by then, is woken, or ends with an error of its own. -/
theorem correlated_of_run {agentId : String} {ls ls' : List (SharedLabel π)}
    (h : Lts.AnyRun step (init agentId) ls s) (h' : Lts.AnyRun step s ls' t)
    (hseq : (ls ++ ls').countP takesNumber < UInt64.size) :
    s.Correlated ∧ (s.conn.closed = true → s.Disconnected ls' t) := by
  have hi : s.Inv := inv_of_run h (by rw [List.countP_append] at hseq; omega)
  have hi' : t.Inv := inv_of_run (h.trans h') hseq
  refine ⟨hi.correlated, fun hclosed => ?_⟩
  have hclosed' : t.conn.closed = true := closed_of_run h' hi.idle hclosed
  refine ⟨hi'.empty hclosed', fun d call call' hcall hover hcall' hpc' => ?_, fun d call hcall hpc => ?_,
    fun d call hcall hkind hpc => ?_⟩
  · have hv := AgentConn.view_eq (F := s.deliveries) hcall
    obtain ⟨v', hv', hsince⟩ := since_of_run h h' hseq hv hclosed hover
    obtain rfl := Option.some.inj ((AgentConn.view_eq hcall').symm.trans hv')
    obtain ⟨r, hr, hret⟩ | hrest := hsince.outcome (by rw [hpc']; rfl)
    · exact .inl ⟨r, given_of_view hv hr, hret⟩
    · exact .inr hrest
  · exact hi'.woken hclosed' hcall hpc
  · exact hi'.ended hclosed' hcall hkind hpc

def displaced : List (SharedLabel Nat) :=
  [.conn (.start .unary), .conn (.start .upload), .conn (.start (.stream true)),
    .conn (.call 0 .register), .conn (.call 1 .register), .conn (.call 2 .register),
    .conn (.call 0 (.send none)), .conn (.call 1 (.send none)), .conn (.call 2 (.send none)),
    .conn (.receive (.result "1" 7)), .conn .closeAll]

def afterDisplaced : List (SharedLabel Nat) :=
  [.conn (.receive (.result "2" 8)), .put 0, .conn (.call 0 .take), .conn (.call 0 .unregister),
    .conn (.call 1 .await), .conn (.call 1 .take), .conn (.call 1 .unregister),
    .conn (.closeDone 2)]

theorem correlated_of_run_displaced : ∃ s t : SharedConn Nat,
    Lts.AnyRun step (init "node-1") displaced s ∧ Lts.AnyRun step s afterDisplaced t ∧
      s.Correlated ∧ s.Disconnected afterDisplaced t ∧
      t.conn.calls.map (fun call => (call.taken, call.err, call.done)) =
        [([.result "1" 7], none, false), ([], some errAgentDisconnected, false),
          ([], none, true)] := by
  let s := (Lts.exec step (init "node-1") displaced).get (by decide +kernel)
  let t := (Lts.exec step s afterDisplaced).get (by decide +kernel)
  have hs := Lts.anyRun_of_exec (t := s) (Option.some_get _).symm
  have ht := Lts.anyRun_of_exec (t := t) (Option.some_get _).symm
  have hclosed : s.conn.closed = true := by decide +kernel
  obtain ⟨hcor, hdis⟩ := correlated_of_run hs ht (by decide)
  exact ⟨s, t, hs, ht, hcor, hdis hclosed, by decide +kernel⟩

/-- Two dispatchers are outstanding when the connection is closed: one gives up on its deadline,
the other finds that its request can no longer be sent. Neither ends with
`errAgentDisconnected`. -/
theorem own_errors_after_closeAll : ∃ s t : SharedConn Nat,
    Lts.AnyRun step (init "node-1")
      [.conn (.start .unary), .conn (.start .unary), .conn (.call 0 .register),
        .conn (.call 0 (.send none)), .conn (.call 1 .register), .conn .closeAll] s ∧
    s.conn.closed = true ∧ s.conn.calls.map Call.pc = [.wait, .send] ∧
    Lts.AnyRun step s
      [.conn (.call 0 (.ctxDone (.new "context deadline exceeded"))), .conn (.call 0 .unregister),
        .conn (.call 1 (.send (some GoError.eof))), .conn (.call 1 .unregister)] t ∧
    t.conn.calls.map Call.pc = [.returned, .returned] ∧ t.conn.calls.map Call.taken = [[], []] ∧
    t.conn.calls.map (fun call => call.err.any (·.is errAgentDisconnected)) = [false, false] := by
  let s := (Lts.exec step (init "node-1" : SharedConn Nat)
    [.conn (.start .unary), .conn (.start .unary), .conn (.call 0 .register),
      .conn (.call 0 (.send none)), .conn (.call 1 .register), .conn .closeAll]).get
    (by decide +kernel)
  let t := (Lts.exec step s
    [.conn (.call 0 (.ctxDone (.new "context deadline exceeded"))), .conn (.call 0 .unregister),
      .conn (.call 1 (.send (some GoError.eof))), .conn (.call 1 .unregister)]).get
    (by decide +kernel)
  exact ⟨s, t, Lts.anyRun_of_exec (Option.some_get _).symm, by decide +kernel, by decide +kernel,
    Lts.anyRun_of_exec (Option.some_get _).symm, by decide +kernel, by decide +kernel,
    by decide +kernel⟩

end SharedConn

end Hostlink.Controller
