import Mathlib.Data.List.Dedup
import Mathlib.Data.Multiset.Filter
import Hostlink.Controller.AgentConnCases
import Hostlink.Controller.Correlation

/-! One dispatcher's view of its connection: its own record, its entries in the two maps, and what
is on the way to it or was put on its channel. A step of the connection changes the view of a
dispatcher in the ways of `ViewStep` or not at all. -/

namespace Hostlink.Controller
variable {π : Type}

def Reply.isResult : Reply π → Bool
  | .result _ _ => true
  | .progress _ _ => false

def Delivery.isFor (d : Nat) (dl : Delivery π) : Bool := dl.target.any (·.1 = d)

/-- `flight` are the `deliver` and `deliverProgress` calls that have found the dispatcher, `put`
what they have put on its channel. -/
structure View (π : Type) where
  agentId : String
  call : Call π
  pending : Bool
  pendingStream : Bool
  flight : Multiset (Delivery π)
  put : List (Reply π)
  closing : Bool
  closed : Bool

inductive CallMove (v : View π) : CallLabel → Call π → Prop
  | refused (hpc : v.call.pc = .register) (hclosed : v.closed = true) :
      CallMove v .register { v.call with pc := .returned, err := some errAgentDisconnected }
  | sent (err : Option GoError) (hpc : v.call.pc = .send) :
      CallMove v (.send err)
        { v.call with pc := v.call.afterSend err, err := err.map (sendErr v.agentId) }
  | await (hpc : v.call.pc = .body) : CallMove v .await { v.call with pc := .wait }
  | ctxDone (err : GoError) (hpc : v.call.pc = .wait) :
      CallMove v (.ctxDone err) { v.call with pc := .unregister, err := some err }
  | tookResult (r : Reply π) (hpc : v.call.pc = .wait) (hinbox : v.call.inbox = some r) :
      CallMove v .take { v.call with pc := .unregister, inbox := none, taken := [r] }
  | tookClosed (hpc : v.call.pc = .wait) (hinbox : v.call.inbox = none)
      (hclosed : v.call.chanClosed = true) :
      CallMove v .take { v.call with pc := .unregister, err := some errAgentDisconnected }
  | tookFrame (r : Reply π) (frames : List (Reply π)) (hpc : v.call.pc = .consume)
      (hframes : v.call.frames = r :: frames) :
      CallMove v .take { v.call with frames := frames, taken := v.call.taken ++ [r] }
  | cancelGone (failed : Bool) (hpc : v.call.pc = if failed then .cancel else .consume)
      (hlive : v.pendingStream = false) :
      CallMove v .cancel { v.call with pc := .cancelClose false v.closed failed }
  | cancelClosed (live closed failed : Bool) (hpc : v.call.pc = .cancelClose live closed failed) :
      CallMove v .cancelClose { v.call with
        pc := if !live || closed then Call.afterCancel failed else .cancelSend failed
        done := true }
  | cancelSent (failed : Bool) (err : Option GoError) (hpc : v.call.pc = .cancelSend failed) :
      CallMove v (.cancelSend err) { v.call with pc := Call.afterCancel failed }

/-- What the steps of the connection do to the view of dispatcher `d`; the label is there if the
step is its own. -/
inductive ViewStep (d : Nat) (v : View π) : Option CallLabel → View π → Prop
  | move (l : CallLabel) (call : Call π) (h : CallMove v l call) :
      ViewStep d v (some l) { v with call := call }
  | registered (hpc : v.call.pc = .register) (hopen : v.closed = false)
      (hkind : v.call.kind.isStream = false) :
      ViewStep d v (some .register) { v with call := { v.call with pc := .send }, pending := true }
  | registeredStream (hpc : v.call.pc = .register) (hopen : v.closed = false)
      (hkind : v.call.kind.isStream = true) :
      ViewStep d v (some .register)
        { v with call := { v.call with pc := .send }, pendingStream := true }
  | unregistered (hpc : v.call.pc = .unregister) :
      ViewStep d v (some .unregister)
        { v with call := { v.call with pc := .returned }, pending := false }
  | cancelLive (failed : Bool) (hpc : v.call.pc = if failed then .cancel else .consume)
      (hlive : v.pendingStream = true) :
      ViewStep d v (some .cancel)
        { v with
          call := { v.call with pc := .cancelClose true v.closed failed }
          pendingStream := false }
  | result (r : Reply π) (hr : r.isResult = true) (hid : r.requestId = v.call.requestId)
      (hheld : v.pending = true) :
      ViewStep d v none { v with pending := false, flight := .unary d r ::ₘ v.flight }
  | terminal (r : Reply π) (hr : r.isResult = true) (hid : r.requestId = v.call.requestId)
      (hheld : v.pendingStream = true) :
      ViewStep d v none { v with pendingStream := false, flight := .stream d r ::ₘ v.flight }
  | progress (r : Reply π) (dl : Delivery π) (hr : r.isResult = false)
      (hid : r.requestId = v.call.requestId) (hheld : v.pendingStream = true)
      (hdl : dl = .stream d r ∨ dl = .advisory d r ∧ v.call.kind ≠ .stream true) :
      ViewStep d v none { v with flight := dl ::ₘ v.flight }
  | putResult (r : Reply π) (flight : Multiset (Delivery π))
      (hflight : v.flight = .unary d r ::ₘ flight) (hinbox : v.call.inbox = none)
      (hopen : v.call.chanClosed = false) :
      ViewStep d v none
        { v with
          call := { v.call with inbox := some r }
          flight := flight
          put := v.put ++ [r] }
  | putFrame (r : Reply π) (dl : Delivery π) (flight : Multiset (Delivery π))
      (hflight : v.flight = dl ::ₘ flight) (hdl : dl = .stream d r ∨ dl = .advisory d r) :
      ViewStep d v none
        { v with
          call := { v.call with frames := v.call.frames ++ [r] }
          flight := flight
          put := v.put ++ [r] }
  | dropped (r : Reply π) (dl : Delivery π) (flight : Multiset (Delivery π))
      (hflight : v.flight = dl ::ₘ flight)
      (hdl : dl = .stream d r ∧ v.call.done = true ∨ dl = .advisory d r) :
      ViewStep d v none { v with flight := flight }
  | closeAll :
      ViewStep d v none
        { v with
          call := { v.call with chanClosed := v.pending || v.call.chanClosed }
          pending := false
          closing := v.closing || v.pendingStream
          pendingStream := false
          closed := true }
  | closeDone (closing : Bool) (hd : v.closing = true) :
      ViewStep d v none
        { v with
          call := { v.call with done := true }
          closing := closing }

namespace AgentConn

def putTo (c : AgentConn π) (d : Nat) : List (Reply π) :=
  (c.delivered.filter (·.1 = d)).map Prod.snd

def view (c : AgentConn π) (F : Multiset (Delivery π)) (d : Nat) : Option (View π) :=
  (c.calls[d]?).map fun call => {
    agentId := c.agentId
    call := call
    pending := decide (c.pending.get call.requestId = some d)
    pendingStream := decide (c.pendingStream.get call.requestId = some d)
    flight := F.filter (·.isFor d)
    put := c.putTo d
    closing := decide (d ∈ c.closing)
    closed := c.closed }

structure Known (c : AgentConn π) (F : Multiset (Delivery π)) : Prop where
  pending : ∀ (id : String) (d : Nat), c.pending.get id = some d → c.HasId d id
  pendingStream : ∀ (id : String) (d : Nat), c.pendingStream.get id = some d → c.HasId d id
  flight : ∀ dl ∈ F, ∀ x, dl.target = some x → x.1 < c.calls.length
  delivered : ∀ x ∈ c.delivered, x.1 < c.calls.length
  closing : ∀ d ∈ c.closing, d < c.calls.length

theorem HasId.lt {c : AgentConn π} {d : Nat} {id : String} (h : c.HasId d id) :
    d < c.calls.length := by
  obtain ⟨n, hn, -⟩ := h
  simpa [ids] using (List.getElem?_eq_some_iff.mp hn).1

theorem requestId_of_hasId {c : AgentConn π} {d : Nat} {call : Call π} {id : String}
    (hcall : c.calls[d]? = some call) (h : c.HasId d id) : call.requestId = id := by
  obtain ⟨n, hn, rfl⟩ := h
  rw [ids, List.getElem?_map, hcall, Option.map_some, Option.some.injEq] at hn
  rw [← hn]
  rfl

theorem mem_closeAll_closing {c : AgentConn π} {d : Nat} :
    d ∈ c.closeAll.closing ↔ d ∈ c.closing ∨ ∃ id, c.pendingStream.get id = some d := by
  simp only [closeAll, List.mem_append, List.mem_filterMap, List.mem_dedup]
  refine or_congr Iff.rfl ⟨?_, ?_⟩
  · rintro ⟨id, -, hid⟩
    exact ⟨id, hid⟩
  · rintro ⟨id, hid⟩
    exact ⟨id, c.pendingStream.covers id (by rw [hid]; exact Option.some_ne_none d), hid⟩

section Views
variable {c c' : AgentConn π} {F F' : Multiset (Delivery π)} {d e : Nat} {call call' : Call π}
  {v : View π}

theorem view_eq (hcall : c.calls[d]? = some call) : c.view F d = some {
    agentId := c.agentId
    call := call
    pending := decide (c.pending.get call.requestId = some d)
    pendingStream := decide (c.pendingStream.get call.requestId = some d)
    flight := F.filter (·.isFor d)
    put := c.putTo d
    closing := decide (d ∈ c.closing)
    closed := c.closed } := by
  rw [view, hcall, Option.map_some]

theorem view_of {p q b : Bool} {flight : Multiset (Delivery π)} {put : List (Reply π)}
    (hcall : c.calls[d]? = some call)
    (hp : c.pending.get call.requestId = some d ↔ p = true)
    (hq : c.pendingStream.get call.requestId = some d ↔ q = true)
    (hflight : F.filter (·.isFor d) = flight) (hput : c.putTo d = put)
    (hb : d ∈ c.closing ↔ b = true) :
    c.view F d = some ⟨c.agentId, call, p, q, flight, put, b, c.closed⟩ := by
  rw [view_eq hcall, hflight, hput]
  simp only [hp, hq, hb, Bool.decide_eq_true]

theorem view_none (hcall : c.calls[d]? = none) : c.view F d = none := by
  rw [view, hcall, Option.map_none]

theorem view_congr (hcall : c'.calls[e]? = c.calls[e]?)
    (hpending : ∀ call, c.calls[e]? = some call →
      (c'.pending.get call.requestId = some e ↔ c.pending.get call.requestId = some e))
    (hstream : ∀ call, c.calls[e]? = some call →
      (c'.pendingStream.get call.requestId = some e ↔
        c.pendingStream.get call.requestId = some e))
    (hflight : F'.filter (·.isFor e) = F.filter (·.isFor e)) (hput : c'.putTo e = c.putTo e)
    (hclosing : e ∈ c'.closing ↔ e ∈ c.closing) (hclosed : c'.closed = c.closed)
    (hagent : c'.agentId = c.agentId) : c'.view F' e = c.view F e := by
  cases hc : c.calls[e]? with
  | none => rw [view_none hc, view_none (hcall.trans hc)]
  | some call =>
    rw [view_eq hc, view_eq (hcall.trans hc), hflight, hput, hclosed, hagent]
    simp only [hpending call hc, hstream call hc, hclosing]

theorem getElem?_setCall (hcall : c.calls[d]? = some call) :
    (c.setCall d call').calls[d]? = some call' :=
  List.getElem?_set_self (List.getElem?_eq_some_iff.mp hcall).1

theorem getElem?_setCall_of_ne (h : e ≠ d) : (c.setCall d call').calls[e]? = c.calls[e]? :=
  List.getElem?_set_ne h.symm

theorem requestId_ne (hn : c.Numbered) (hcall : c.calls[d]? = some call) {other : Call π}
    (hother : c.calls[e]? = some other) (hne : e ≠ d) : other.requestId ≠ call.requestId := by
  intro heq
  exact hne (HasId.inj hn (hasId_of_call hother) (heq ▸ hasId_of_call hcall))

def SameBut (d : Nat) (c c' : AgentConn π) (F F' : Multiset (Delivery π)) : Prop :=
  ∀ e, e ≠ d → c'.view F' e = c.view F e

theorem sameBut_setCall : SameBut d c (c.setCall d call') F F := fun _ hne =>
  view_congr (getElem?_setCall_of_ne hne) (fun _ _ => Iff.rfl) (fun _ _ => Iff.rfl) rfl rfl Iff.rfl
    rfl rfl

theorem sameBut_pending (hn : c.Numbered) (hcall : c.calls[d]? = some call)
    {m : GoMap String Nat} (hm : ∀ id, id ≠ call.requestId → m.get id = c.pending.get id) :
    SameBut d c { c.setCall d call' with pending := m } F F := by
  refine fun e hne => view_congr (getElem?_setCall_of_ne hne) (fun other hother => ?_)
    (fun _ _ => Iff.rfl) rfl rfl Iff.rfl rfl rfl
  rw [hm _ (requestId_ne hn hcall hother hne)]

theorem sameBut_pendingStream (hn : c.Numbered) (hcall : c.calls[d]? = some call)
    {m : GoMap String Nat} (hm : ∀ id, id ≠ call.requestId → m.get id = c.pendingStream.get id) :
    SameBut d c { c.setCall d call' with pendingStream := m } F F := by
  refine fun e hne => view_congr (getElem?_setCall_of_ne hne) (fun _ _ => Iff.rfl)
    (fun other hother => ?_) rfl rfl Iff.rfl rfl rfl
  rw [hm _ (requestId_ne hn hcall hother hne)]

theorem erase_self_ne (m : GoMap String Nat) (id : String) : (m.erase id).get id ≠ some d := by
  rw [GoMap.get_erase_self]
  exact (Option.some_ne_none d).symm

/-! ### The dispatcher's own steps -/

theorem callStep_view {l : CallLabel} {out : Option Command} (hn : c.Numbered)
    (hcall : c.calls[d]? = some call) (h : CallStep c d call l c' out) :
    SameBut d c c' (c.delivery ::ₘ F) (c'.delivery ::ₘ F) ∧
      (c' = c ∨ ∃ v v', c.view (c.delivery ::ₘ F) d = some v ∧
        c'.view (c'.delivery ::ₘ F) d = some v' ∧ ViewStep d v (some l) v') := by
  cases h with
  | refused hpc hclosed =>
    exact ⟨sameBut_setCall, .inr ⟨_, _, view_eq hcall, view_eq (getElem?_setCall hcall),
      .move _ _ (.refused hpc hclosed)⟩⟩
  | registered hpc hopen hkind =>
    refine ⟨sameBut_pending hn hcall fun id hne => GoMap.get_insert_of_ne _ hne _, .inr ⟨_, _,
      view_eq hcall, ?_, .registered hpc hopen hkind⟩⟩
    refine view_of (getElem?_setCall hcall) ?_ decide_eq_true_iff.symm rfl rfl decide_eq_true_iff.symm
    exact iff_of_true (GoMap.get_insert_self ..) rfl
  | registeredStream hpc hopen hkind =>
    refine ⟨sameBut_pendingStream hn hcall fun id hne => GoMap.get_insert_of_ne _ hne _, .inr ⟨_, _,
      view_eq hcall, ?_, .registeredStream hpc hopen hkind⟩⟩
    refine view_of (getElem?_setCall hcall) decide_eq_true_iff.symm ?_ rfl rfl decide_eq_true_iff.symm
    exact iff_of_true (GoMap.get_insert_self ..) rfl
  | sent err hpc =>
    exact ⟨sameBut_setCall, .inr ⟨_, _, view_eq hcall, view_eq (getElem?_setCall hcall),
      .move _ _ (.sent err hpc)⟩⟩
  | chunk last err hpc => exact ⟨fun _ _ => rfl, .inl rfl⟩
  | await hpc =>
    exact ⟨sameBut_setCall, .inr ⟨_, _, view_eq hcall, view_eq (getElem?_setCall hcall),
      .move _ _ (.await hpc)⟩⟩
  | ctxDone err hpc =>
    exact ⟨sameBut_setCall, .inr ⟨_, _, view_eq hcall, view_eq (getElem?_setCall hcall),
      .move _ _ (.ctxDone err hpc)⟩⟩
  | tookResult r hpc hinbox =>
    exact ⟨sameBut_setCall, .inr ⟨_, _, view_eq hcall, view_eq (getElem?_setCall hcall),
      .move _ _ (.tookResult r hpc hinbox)⟩⟩
  | tookClosed hpc hinbox hclosed =>
    exact ⟨sameBut_setCall, .inr ⟨_, _, view_eq hcall, view_eq (getElem?_setCall hcall),
      .move _ _ (.tookClosed hpc hinbox hclosed)⟩⟩
  | tookFrame r frames hpc hframes =>
    exact ⟨sameBut_setCall, .inr ⟨_, _, view_eq hcall, view_eq (getElem?_setCall hcall),
      .move _ _ (.tookFrame r frames hpc hframes)⟩⟩
  | unregistered hpc =>
    refine ⟨sameBut_pending hn hcall fun id hne => GoMap.get_erase_of_ne _ hne, .inr ⟨_, _,
      view_eq hcall, ?_, .unregistered hpc⟩⟩
    refine view_of (getElem?_setCall hcall) ?_ decide_eq_true_iff.symm rfl rfl decide_eq_true_iff.symm
    exact iff_of_false (erase_self_ne _ _) Bool.false_ne_true
  | cancelLive failed hpc hlive =>
    refine ⟨sameBut_pendingStream hn hcall fun id hne => GoMap.get_erase_of_ne _ hne, .inr ⟨_, _,
      view_eq hcall, ?_, .cancelLive failed hpc (decide_eq_true hlive)⟩⟩
    refine view_of (getElem?_setCall hcall) decide_eq_true_iff.symm ?_ rfl rfl decide_eq_true_iff.symm
    exact iff_of_false (erase_self_ne _ _) Bool.false_ne_true
  | cancelGone failed hpc hlive =>
    exact ⟨sameBut_setCall, .inr ⟨_, _, view_eq hcall, view_eq (getElem?_setCall hcall),
      .move _ _ (.cancelGone failed hpc (decide_eq_false hlive))⟩⟩
  | cancelClosed live closed failed hpc =>
    exact ⟨sameBut_setCall, .inr ⟨_, _, view_eq hcall, view_eq (getElem?_setCall hcall),
      .move _ _ (.cancelClosed live closed failed hpc)⟩⟩
  | cancelSent failed err hpc =>
    exact ⟨sameBut_setCall, .inr ⟨_, _, view_eq hcall, view_eq (getElem?_setCall hcall),
      .move _ _ (.cancelSent failed err hpc)⟩⟩

/-! ### Deliveries -/

theorem isFor_iff {dl : Delivery π} : dl.isFor d = true ↔ ∃ r, dl.target = some (d, r) := by
  unfold Delivery.isFor
  cases dl.target with
  | none => simp
  | some x =>
    obtain ⟨e, r⟩ := x
    simp

theorem flight_self {dl : Delivery π} {r : Reply π} (hdl : dl.target = some (d, r)) :
    (dl ::ₘ F).filter (·.isFor d) = dl ::ₘ F.filter (·.isFor d) :=
  Multiset.filter_cons_of_pos _ (isFor_iff.mpr ⟨r, hdl⟩)

theorem flight_other {dl : Delivery π} (hdl : ∀ r, dl.target ≠ some (e, r)) :
    (dl ::ₘ F).filter (·.isFor e) = F.filter (·.isFor e) := by
  refine Multiset.filter_cons_of_neg _ fun h => ?_
  obtain ⟨r, hr⟩ := isFor_iff.mp h
  exact hdl r hr

theorem flight_idle : ((.idle : Delivery π) ::ₘ F).filter (·.isFor e) = F.filter (·.isFor e) :=
  flight_other fun _ h => by cases h

theorem flight_ne {dl : Delivery π} {r : Reply π} (hdl : dl.target = some (d, r)) (hne : e ≠ d) :
    (dl ::ₘ F).filter (·.isFor e) = ((.idle : Delivery π) ::ₘ F).filter (·.isFor e) := by
  rw [flight_idle, flight_other]
  intro r' hr'
  rw [hdl, Option.some.injEq, Prod.mk.injEq] at hr'
  exact hne hr'.1.symm

theorem putTo_self {r : Reply π} (h : c'.delivered = c.delivered ++ [(d, r)]) :
    c'.putTo d = c.putTo d ++ [r] := by
  simp [putTo, h]

theorem putTo_ne {r : Reply π} (h : c'.delivered = c.delivered ++ [(d, r)]) (hne : e ≠ d) :
    c'.putTo e = c.putTo e := by
  simp [putTo, h, hne.symm]

theorem deliveryStep_view {l : ConnLabel π} (hk : c.Known (c.delivery ::ₘ F)) (hn : c.Numbered)
    (h : DeliveryStep c l c') :
    c' = c ∨ ∃ d v v', SameBut d c c' (c.delivery ::ₘ F) (c'.delivery ::ₘ F) ∧
      c.view (c.delivery ::ₘ F) d = some v ∧ c'.view (c'.delivery ::ₘ F) d = some v' ∧
      ViewStep d v none v' := by
  have hcall : ∀ {d : Nat} {id : String}, c.HasId d id → ∃ call, c.calls[d]? = some call ∧
      call.requestId = id := by
    intro d id hid
    have hlt := hid.lt
    exact ⟨_, List.getElem?_eq_getElem hlt, requestId_of_hasId (List.getElem?_eq_getElem hlt) hid⟩
  cases h with
  | result id body d hidle hstream hd =>
    obtain ⟨call, hcall, rfl⟩ := hcall (hk.pending id d hd)
    refine .inr ⟨d, _, _, fun e hne => ?_, view_eq hcall, ?_,
      .result (.result call.requestId body) rfl rfl (decide_eq_true hd)⟩
    · refine view_congr rfl (fun other hother => ?_) (fun _ _ => Iff.rfl) ?_ rfl Iff.rfl rfl rfl
      · rw [GoMap.get_erase_of_ne _ (requestId_ne hn hcall hother hne)]
      · rw [hidle]
        exact flight_ne rfl hne
    · rw [hidle, flight_idle]
      refine view_of hcall ?_ decide_eq_true_iff.symm (flight_self rfl) rfl decide_eq_true_iff.symm
      exact iff_of_false (erase_self_ne _ _) Bool.false_ne_true
  | terminal id body d hidle hd =>
    obtain ⟨call, hcall, rfl⟩ := hcall (hk.pendingStream id d hd)
    refine .inr ⟨d, _, _, fun e hne => ?_, view_eq hcall, ?_,
      .terminal (.result call.requestId body) rfl rfl (decide_eq_true hd)⟩
    · refine view_congr rfl (fun _ _ => Iff.rfl) (fun other hother => ?_) ?_ rfl Iff.rfl rfl rfl
      · rw [GoMap.get_erase_of_ne _ (requestId_ne hn hcall hother hne)]
      · rw [hidle]
        exact flight_ne rfl hne
    · rw [hidle, flight_idle]
      refine view_of hcall decide_eq_true_iff.symm ?_ (flight_self rfl) rfl decide_eq_true_iff.symm
      exact iff_of_false (erase_self_ne _ _) Bool.false_ne_true
  | progress id body d dl hidle hd hdl =>
    obtain ⟨call, hcall, rfl⟩ := hcall (hk.pendingStream id d hd)
    have htarget : dl.target = some (d, .progress call.requestId body) := by
      obtain rfl | ⟨rfl, -⟩ := hdl <;> rfl
    refine .inr ⟨d, _, _, fun e hne => ?_, view_eq hcall, ?_,
      .progress (.progress call.requestId body) dl rfl rfl (decide_eq_true hd)
        (hdl.imp_right fun h => ⟨h.1, h.2 call hcall⟩)⟩
    · refine view_congr rfl (fun _ _ => Iff.rfl) (fun _ _ => Iff.rfl) ?_ rfl Iff.rfl rfl rfl
      rw [hidle]
      exact flight_ne htarget hne
    · rw [hidle, flight_idle]
      exact view_of hcall decide_eq_true_iff.symm decide_eq_true_iff.symm (flight_self htarget) rfl decide_eq_true_iff.symm
  | unknown r hidle hd => exact .inl rfl
  | putResult d r call hd hcall hinbox hopen =>
    refine .inr ⟨d, _, _, fun e hne => ?_, view_eq hcall, ?_,
      .putResult r (F.filter (·.isFor d)) ?_ hinbox hopen⟩
    · refine view_congr (getElem?_setCall_of_ne hne) (fun _ _ => Iff.rfl) (fun _ _ => Iff.rfl) ?_
        (putTo_ne rfl hne) Iff.rfl rfl rfl
      rw [hd]
      exact (flight_ne rfl hne).symm
    · exact view_of (getElem?_setCall hcall) decide_eq_true_iff.symm decide_eq_true_iff.symm
        flight_idle (putTo_self rfl) decide_eq_true_iff.symm
    · rw [hd]
      exact flight_self rfl
  | putFrame d r call hd hcall =>
    have htarget : c.delivery.target = some (d, r) := by
      obtain hd | hd := hd <;> rw [hd] <;> rfl
    refine .inr ⟨d, _, _, fun e hne => ?_, view_eq hcall, ?_,
      .putFrame r c.delivery (F.filter (·.isFor d)) (flight_self htarget) hd⟩
    · exact view_congr (getElem?_setCall_of_ne hne) (fun _ _ => Iff.rfl) (fun _ _ => Iff.rfl)
        (flight_ne htarget hne).symm (putTo_ne rfl hne) Iff.rfl rfl rfl
    · exact view_of (getElem?_setCall hcall) decide_eq_true_iff.symm decide_eq_true_iff.symm
        flight_idle (putTo_self rfl) decide_eq_true_iff.symm
  | dropped d r call hcall hd =>
    have htarget : c.delivery.target = some (d, r) := by
      obtain ⟨hd, -⟩ | hd := hd <;> rw [hd] <;> rfl
    refine .inr ⟨d, _, _, fun e hne => ?_, view_eq hcall, ?_,
      .dropped r c.delivery (F.filter (·.isFor d)) (flight_self htarget) hd⟩
    · exact view_congr rfl (fun _ _ => Iff.rfl) (fun _ _ => Iff.rfl)
        (flight_ne htarget hne).symm rfl Iff.rfl rfl rfl
    · exact view_of hcall decide_eq_true_iff.symm decide_eq_true_iff.symm flight_idle rfl decide_eq_true_iff.symm

/-! ### `closeAll` and new dispatchers -/

theorem mem_waiting (hk : c.Known F) (hcall : c.calls[d]? = some call) :
    d ∈ c.pending.keys.filterMap c.pending.get ↔ c.pending.get call.requestId = some d := by
  rw [List.mem_filterMap]
  constructor
  · rintro ⟨id, -, hid⟩
    rwa [requestId_of_hasId hcall (hk.pending id d hid)]
  · intro hd
    exact ⟨_, c.pending.covers _ (by rw [hd]; exact Option.some_ne_none d), hd⟩

theorem closeAll_view (hk : c.Known F) (hcall : c.calls[d]? = some call) :
    ∃ v v', c.view F d = some v ∧ c.closeAll.view F d = some v' ∧ ViewStep d v none v' := by
  have hcall' : c.closeAll.calls[d]? = some { call with
      chanClosed := decide (c.pending.get call.requestId = some d) || call.chanClosed } := by
    rw [closeAll, List.getElem?_mapIdx, hcall, Option.map_some, Option.some.injEq]
    simp only [mem_waiting hk hcall]
    split
    · next h => simp [h]
    · next h => simp [h]
  refine ⟨_, _, view_eq hcall, ?_, .closeAll⟩
  refine view_of hcall' ?_ ?_ rfl rfl ?_
  · exact iff_of_false (fun h => by cases h) Bool.false_ne_true
  · exact iff_of_false (fun h => by cases h) Bool.false_ne_true
  · rw [mem_closeAll_closing, Bool.or_eq_true, decide_eq_true_iff, decide_eq_true_iff]
    refine or_congr Iff.rfl ⟨?_, fun hid => ⟨_, hid⟩⟩
    rintro ⟨id, hid⟩
    rwa [requestId_of_hasId hcall (hk.pendingStream id d hid)]

def freshView (c : AgentConn π) (kind : CallKind) : View π :=
  ⟨c.agentId, { kind := kind, id := c.nextSeq }, false, false, 0, [], false, c.closed⟩

theorem start_view (kind : CallKind) (hk : c.Known F)
    (hstart : c' = { c with
      seq := c.nextSeq
      calls := c.calls ++ [{ kind := kind, id := c.nextSeq }] }) :
    SameBut c.calls.length c c' F F ∧ c.view F c.calls.length = none ∧
      c'.view F c.calls.length = some (c.freshView kind) := by
  subst hstart
  refine ⟨fun e hne => ?_, view_none (List.getElem?_eq_none (Nat.le_refl _)), ?_⟩
  · refine view_congr ?_ (fun _ _ => Iff.rfl) (fun _ _ => Iff.rfl) rfl rfl Iff.rfl rfl rfl
    obtain hlt | hge := Nat.lt_or_ge e c.calls.length
    · exact List.getElem?_append_left hlt
    · rw [List.getElem?_eq_none hge, List.getElem?_eq_none]
      rw [List.length_append, List.length_singleton]
      omega
  -- nothing names the new dispatcher yet
  · have hnew : ∀ {id : String}, ¬c.HasId c.calls.length id := fun h => absurd h.lt (Nat.lt_irrefl _)
    refine view_of (List.getElem?_concat_length ..) ?_ ?_ ?_ ?_ ?_
    · exact iff_of_false (fun h => hnew (hk.pending _ _ h)) Bool.false_ne_true
    · exact iff_of_false (fun h => hnew (hk.pendingStream _ _ h)) Bool.false_ne_true
    · refine Multiset.filter_eq_nil.mpr fun dl hdl hfor => ?_
      obtain ⟨r, hr⟩ := isFor_iff.mp hfor
      exact Nat.lt_irrefl _ (hk.flight dl hdl _ hr)
    · simp only [putTo, List.map_eq_nil_iff]
      refine List.filter_eq_nil_iff.mpr fun x hx heq => ?_
      have hlt := hk.delivered x hx
      rw [decide_eq_true_iff] at heq
      omega
    · exact iff_of_false (fun h => Nat.lt_irrefl _ (hk.closing _ h)) Bool.false_ne_true

theorem step_view {l : ConnLabel π} {out : Option Command} (hk : c.Known (c.delivery ::ₘ F))
    (hn : c.Numbered) (h : Step c l c' out) (e : Nat) :
    c'.view (c'.delivery ::ₘ F) e = c.view (c.delivery ::ₘ F) e ∨
    (∃ v v' o, c.view (c.delivery ::ₘ F) e = some v ∧ c'.view (c'.delivery ::ₘ F) e = some v' ∧
      ViewStep e v o v' ∧ ∀ l', o = some l' → l = .call e l') ∨
    ∃ kind, c.view (c.delivery ::ₘ F) e = none ∧
      c'.view (c'.delivery ::ₘ F) e = some (c.freshView kind) := by
  cases h with
  | start kind =>
    obtain ⟨hsame, hnone, hnew⟩ := start_view kind hk rfl
    by_cases he : e = c.calls.length
    · subst he
      exact .inr (.inr ⟨kind, hnone, hnew⟩)
    · exact .inl (hsame e he)
  | call d call l c' out hcall h =>
    obtain ⟨hsame, hstep⟩ := callStep_view (F := F) hn hcall h
    by_cases he : e = d
    · subst he
      obtain rfl | ⟨v, v', hv, hv', hstep⟩ := hstep
      · exact .inl rfl
      · refine .inr (.inl ⟨v, v', some l, hv, hv', hstep, fun l' hl' => ?_⟩)
        rw [Option.some.inj hl']
    · exact .inl (hsame e he)
  | delivery l c' h =>
    obtain rfl | ⟨d, v, v', hsame, hv, hv', hstep⟩ := deliveryStep_view hk hn h
    · exact .inl rfl
    · by_cases he : e = d
      · subst he
        exact .inr (.inl ⟨v, v', none, hv, hv', hstep, fun l' hl' => by cases hl'⟩)
      · exact .inl (hsame e he)
  | closeAll =>
    cases hcall : c.calls[e]? with
    | none =>
      refine .inl ((view_none ?_).trans (view_none hcall).symm)
      rw [closeAll, List.getElem?_mapIdx, hcall, Option.map_none]
    | some call =>
      obtain ⟨v, v', hv, hv', hstep⟩ := closeAll_view hk hcall
      exact .inr (.inl ⟨v, v', none, hv, hv', hstep, fun l' hl' => by cases hl'⟩)
  | closeDone d call hcall hd =>
    by_cases he : e = d
    · subst he
      refine .inr (.inl ⟨_, _, none, view_eq hcall, view_of (getElem?_setCall hcall)
        decide_eq_true_iff.symm decide_eq_true_iff.symm rfl rfl decide_eq_true_iff.symm,
        .closeDone _ (decide_eq_true hd), fun l' hl' => by cases hl'⟩)
    · exact .inl (view_congr (getElem?_setCall_of_ne he) (fun _ _ => Iff.rfl) (fun _ _ => Iff.rfl)
        rfl rfl (List.mem_erase_of_ne he) rfl rfl)

theorem step_known {l : ConnLabel π} {out : Option Command} (hk : c.Known (c.delivery ::ₘ F))
    (h : Step c l c' out) (hchange : c.Change c' (incoming l)) : c'.Known (c'.delivery ::ₘ F) := by
  have hlen : c.calls.length ≤ c'.calls.length := by
    simpa [ids] using hchange.ids.length_le
  have hpending : ∀ (id : String) (d : Nat), c'.pending.get id = some d → c'.HasId d id :=
    fun id d hd => (hchange.pending id d hd).elim
      (fun hd => (hk.pending id d hd).grows hchange.ids) fun hd => hd
  have hstream : ∀ (id : String) (d : Nat), c'.pendingStream.get id = some d → c'.HasId d id :=
    fun id d hd => (hchange.pendingStream id d hd).elim
      (fun hd => (hk.pendingStream id d hd).grows hchange.ids) fun hd => hd
  refine ⟨hpending, hstream, fun dl hdl x hx => ?_, fun x hx => ?_, fun d hd => ?_⟩
  · rw [Multiset.mem_cons] at hdl
    obtain rfl | hdl := hdl
    · obtain hn | hsame | ⟨d, r, -, ht, hfound⟩ := hchange.delivery
      · rw [hn] at hx
        cases hx
      · rw [hsame] at hx
        exact Nat.lt_of_lt_of_le (hk.flight _ (Multiset.mem_cons_self _ _) x hx) hlen
      · obtain rfl := Option.some.inj (ht.symm.trans hx)
        exact Nat.lt_of_lt_of_le
          (hfound.elim (fun h => (hk.pending _ _ h).lt) fun h => (hk.pendingStream _ _ h).lt) hlen
    · exact Nat.lt_of_lt_of_le (hk.flight dl (Multiset.mem_cons_of_mem hdl) x hx) hlen
  · obtain hsame | ⟨y, hy, happ⟩ := hchange.delivered
    · exact Nat.lt_of_lt_of_le (hk.delivered x (hsame ▸ hx)) hlen
    · rw [happ, List.mem_append, List.mem_singleton] at hx
      obtain hx | rfl := hx
      · exact Nat.lt_of_lt_of_le (hk.delivered x hx) hlen
      · exact Nat.lt_of_lt_of_le (hk.flight _ (Multiset.mem_cons_self _ _) x hy) hlen
  · refine Nat.lt_of_lt_of_le ?_ hlen
    cases h with
    | start kind => exact hk.closing d hd
    | call e call l c' out hcall h => cases h <;> exact hk.closing d hd
    | delivery l c' h => cases h <;> exact hk.closing d hd
    | closeAll =>
      obtain hd | ⟨id, hid⟩ := mem_closeAll_closing.mp hd
      · exact hk.closing d hd
      · exact (hk.pendingStream id d hid).lt
    | closeDone e call hcall he => exact hk.closing d (List.mem_of_mem_erase hd)

end Views

end AgentConn
end Hostlink.Controller
