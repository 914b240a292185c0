import Hostlink.Lib.Run
import Hostlink.Controller.DispatcherInv

/-! An `agentConn` used by any number of goroutines at once: dispatchers, `deliver` and
`deliverProgress` calls, and `closeAll` calls. -/

namespace Hostlink.Controller
variable {π : Type}

/-- `deliveries` are the `deliver` and `deliverProgress` calls made so far, idle once they have
returned. -/
structure SharedConn (π : Type) where
  conn : AgentConn π
  deliveries : List (Delivery π) := []

inductive SharedLabel (π : Type) where
  | conn (l : ConnLabel π)
  | put (i : Nat)
  | drop (i : Nat)
  deriving DecidableEq, Repr

namespace SharedConn

def init (agentId : String) : SharedConn π := { conn := newAgentConn agentId }

/-- The send of delivery `i`, or its other way out. -/
def deliver (s : SharedConn π) (i : Nat) (l : ConnLabel π) : Option (SharedConn π) :=
  (s.deliveries[i]?).bind fun dl => (({ s.conn with delivery := dl } : AgentConn π).step l).map fun x =>
    { conn := { x.1 with delivery := .idle }
      deliveries := s.deliveries.set i x.1.delivery }

def step (s : SharedConn π) : SharedLabel π → Option (SharedConn π)
  | .conn l => (s.conn.step l).map fun x =>
      { conn := { x.1 with delivery := .idle }
        deliveries := match l with
          | .receive _ => s.deliveries ++ [x.1.delivery]
          | _ => s.deliveries }
  | .put i => s.deliver i .put
  | .drop i => s.deliver i .drop

def takesNumber : SharedLabel π → Bool
  | .conn l => AgentConn.Counts l
  | .put _ | .drop _ => false

end SharedConn

namespace AgentConn

structure AllOk (c : AgentConn π) (F : Multiset (Delivery π)) : Prop where
  known : c.Known F
  views : ∀ d v, c.view F d = some v → v.Ok

theorem freshView_ok (c : AgentConn π) (kind : CallKind) : (c.freshView kind).Ok where
  load_le := Nat.zero_le _
  fresh := fun _ => rfl
  awaits := fun h => by cases h
  closed := fun _ => ⟨rfl, rfl⟩
  own := fun _ h => absurd h (Multiset.notMem_zero _)
  ownPut := fun _ h => by cases h
  suits := fun _ h => absurd h (Multiset.notMem_zero _)
  pending := fun h => by cases h
  pendingStream := fun h => by cases h
  inbox := fun _ h => by cases h
  answered := fun _ _ h => by cases h
  streamed := fun _ _ h => by cases h
  waits := fun h => h.elim (fun h => by cases h) fun h => by cases h
  clean := fun _ => ⟨rfl, rfl⟩
  chanClosed := fun h => by cases h
  cancelled := fun _ h => by cases h

variable {c c' : AgentConn π} {F F' : Multiset (Delivery π)} {d : Nat}

theorem AllOk.step {l : ConnLabel π} {out : Option Command} (h : c.AllOk (c.delivery ::ₘ F))
    (hn : c.Numbered) (hs : c.step l = some (c', out)) : c'.AllOk (c'.delivery ::ₘ F) := by
  have hcases := step_cases hs
  refine ⟨step_known h.known hcases (step_change hs).1, fun e v' hv' => ?_⟩
  obtain hsame | ⟨v, w, o, hv, hw, hstep, -⟩ | ⟨kind, -, hnew⟩ := step_view h.known hn hcases e
  · exact h.views e v' (hsame ▸ hv')
  · obtain rfl := Option.some.inj (hw.symm.trans hv')
    exact hstep.ok (h.views e v hv)
  · obtain rfl := Option.some.inj (hnew.symm.trans hv')
    exact c.freshView_ok kind

def own (c : AgentConn π) : Multiset (Delivery π) := c.delivery ::ₘ 0

theorem view_call {F : Multiset (Delivery π)} {v : View π} (h : c.view F d = some v) :
    c.calls[d]? = some v.call := by
  obtain ⟨call, hcall, rfl⟩ := Option.map_eq_some_iff.mp h
  exact hcall

theorem view_flight {F : Multiset (Delivery π)} {v : View π} (h : c.view F d = some v) :
    v.flight = F.filter (·.isFor d) := by
  obtain ⟨call, -, rfl⟩ := Option.map_eq_some_iff.mp h
  rfl

theorem step_length {l : ConnLabel π} {out : Option Command} (hl : ∀ kind, l ≠ .start kind)
    (h : c.step l = some (c', out)) : c'.calls.length = c.calls.length := by
  replace h := step_cases h
  cases h with
  | start kind => exact absurd rfl (hl kind)
  | call d call l c' out hcall h =>
    obtain ⟨-, call', hcalls, -⟩ := h.set hcall
    rw [hcalls]
    exact List.length_set ..
  | delivery l c' h => cases h <;> first | rfl | exact List.length_set ..
  | closeAll => exact List.length_mapIdx
  | closeDone d call hcall hd => exact List.length_set ..

theorem step_seq_le {l : ConnLabel π} {out : Option Command} (h : c.step l = some (c', out)) :
    c'.seq ≤ c.seq + if Counts l then 1 else 0 := by
  obtain ⟨-, -, ⟨-, hsame⟩ | ⟨hl, hnext, -⟩⟩ := step_change h
  · exact hsame ▸ Nat.le_add_right _ _
  · rw [if_pos hl, hnext]
    exact Nat.mod_le _ _

theorem AllOk.call_step {l : ConnLabel π} {out : Option Command} {call : Call π}
    (h : c.AllOk c.own) (hn : c.Numbered) (hs : c.step l = some (c', out))
    (hcall : c.calls[d]? = some call) : ∃ call', c'.calls[d]? = some call' ∧
      call'.kind = call.kind ∧ call'.requestId = call.requestId ∧
      (call.pc ≠ .register → call'.pc ≠ .register) ∧
      (call.pc.sent = true → call'.pc.sent = true) := by
  have hv : c.view c.own d = some _ := view_eq hcall
  obtain hsame | ⟨v, v', o, hv', hw, hstep, -⟩ | ⟨kind, hnone, -⟩ :=
    step_view h.known hn (step_cases hs) d
  · exact ⟨call, view_call (hsame.trans hv), rfl, rfl, id, id⟩
  · obtain rfl := Option.some.inj (hcall.symm.trans (view_call hv'))
    exact ⟨v'.call, view_call hw, hstep.kind_eq, hstep.requestId_eq,
      fun hpc he => hpc (hstep.pc_register he), hstep.pc_sent⟩
  · exact absurd (hnone.symm.trans hv) (Option.some_ne_none _).symm

/-! ### Deliveries that have returned -/

def live (F : Multiset (Delivery π)) : Multiset (Delivery π) := F.filter (·.target.isSome)

theorem filter_live (d : Nat) : (live F).filter (·.isFor d) = F.filter (·.isFor d) := by
  rw [live, Multiset.filter_filter]
  refine Multiset.filter_congr fun dl _ => ⟨fun h => h.1, fun h => ⟨h, ?_⟩⟩
  obtain ⟨r, hr⟩ := isFor_iff.mp h
  rw [hr, Option.isSome_some]

theorem view_live (h : live F = live F') (d : Nat) : c.view F d = c.view F' d :=
  view_congr rfl (fun _ _ => Iff.rfl) (fun _ _ => Iff.rfl)
    (by rw [← filter_live, h, filter_live]) rfl Iff.rfl rfl rfl

theorem AllOk.live (hok : c.AllOk F) (h : live F = live F') : c.AllOk F' := by
  refine ⟨{ hok.known with flight := fun dl hdl x hx => ?_ }, fun d v hv => ?_⟩
  · have hlive : dl ∈ AgentConn.live F := by
      rw [h, AgentConn.live, Multiset.mem_filter, hx]
      exact ⟨hdl, rfl⟩
    exact hok.known.flight dl (Multiset.mem_of_mem_filter hlive) x hx
  · exact hok.views d v ((view_live h d).trans hv)

theorem live_none {dl : Delivery π} (h : dl.target = none) : live (dl ::ₘ F) = live F :=
  Multiset.filter_cons_of_neg _ (by rw [h]; exact Bool.false_ne_true)

theorem live_idle : live (.idle ::ₘ F) = live F := live_none rfl

theorem AllOk.setDelivery (h : c.AllOk F) (dl : Delivery π) :
    ({ c with delivery := dl } : AgentConn π).AllOk F :=
  ⟨⟨h.known.pending, h.known.pendingStream, h.known.flight, h.known.delivered, h.known.closing⟩,
    h.views⟩

end AgentConn

namespace SharedConn
open AgentConn (live)

variable {s t : SharedConn π}

def view (s : SharedConn π) (d : Nat) : Option (View π) := s.conn.view s.deliveries d

structure Inv (s : SharedConn π) : Prop where
  idle : s.conn.delivery = .idle
  allOk : s.conn.AllOk s.deliveries
  numbered : s.conn.Numbered

theorem init_inv (agentId : String) : (init agentId : SharedConn π).Inv where
  idle := rfl
  allOk := ⟨⟨fun _ _ h => (by cases h), fun _ _ h => (by cases h),
    fun _ h => absurd h (Multiset.notMem_zero _), fun _ h => (by cases h), fun _ h => by cases h⟩,
    fun _ _ h => by cases h⟩
  numbered := AgentConn.init_numbered agentId

structure Focus (s t : SharedConn π) (l : SharedLabel π) (dl : Delivery π)
    (F : Multiset (Delivery π)) (k : ConnLabel π) (c' : AgentConn π) (out : Option Command) :
    Prop where
  step : ({ s.conn with delivery := dl } : AgentConn π).step k = some (c', out)
  conn : t.conn = { c' with delivery := .idle }
  before : live (s.deliveries : Multiset (Delivery π)) = live (dl ::ₘ F)
  after : live (t.deliveries : Multiset (Delivery π)) = live (c'.delivery ::ₘ F)
  label : ∀ d l', k = .call d l' → l = .conn (.call d l')
  counts : AgentConn.Counts k = takesNumber l

theorem deliver_focus {i : Nat} {l : SharedLabel π} {k : ConnLabel π}
    (h : s.deliver i k = some t) (hlabel : ∀ d l', k = .call d l' → l = .conn (.call d l'))
    (hcounts : AgentConn.Counts k = takesNumber l) :
    ∃ dl F c' out, s.Focus t l dl F k c' out := by
  obtain ⟨dl, hdl, h⟩ := Option.bind_eq_some_iff.mp h
  obtain ⟨⟨c', out⟩, hstep, rfl⟩ := Option.map_eq_some_iff.mp h
  obtain ⟨hlt, rfl⟩ := List.getElem?_eq_some_iff.mp hdl
  refine ⟨s.deliveries[i], s.deliveries.eraseIdx i, c', out, hstep, rfl, ?_, ?_, hlabel, hcounts⟩
  · rw [Multiset.cons_coe]
    exact congrArg live (Multiset.coe_eq_coe.mpr (List.getElem_cons_eraseIdx_perm hlt).symm)
  · rw [Multiset.cons_coe]
    exact congrArg live (Multiset.coe_eq_coe.mpr (List.set_perm_cons_eraseIdx hlt _))

theorem step_focus {l : SharedLabel π} (hidle : s.conn.delivery = .idle) (h : s.step l = some t) :
    ∃ dl F k c' out, s.Focus t l dl F k c' out := by
  cases l with
  | put i =>
    obtain ⟨dl, F, c', out, hf⟩ := deliver_focus (l := .put i) h (fun _ _ hk => by cases hk) rfl
    exact ⟨dl, F, _, c', out, hf⟩
  | drop i =>
    obtain ⟨dl, F, c', out, hf⟩ := deliver_focus (l := .drop i) h (fun _ _ hk => by cases hk) rfl
    exact ⟨dl, F, _, c', out, hf⟩
  | conn k =>
    obtain ⟨⟨c', out⟩, hstep, rfl⟩ := Option.map_eq_some_iff.mp h
    have hstep' : ({ s.conn with delivery := .idle } : AgentConn π).step k = some (c', out) := by
      rw [← hidle]
      exact hstep
    refine ⟨.idle, s.deliveries, k, c', out, hstep', rfl, AgentConn.live_idle.symm, ?_,
      fun d l' hk => hk ▸ rfl, rfl⟩
    have hnone : AgentConn.incoming k = none → c'.delivery.target = none := by
      intro hk
      obtain hn | hsame | ⟨d, r, hr, -⟩ := (AgentConn.step_change hstep').1.delivery
      · exact hn
      · exact congrArg Delivery.target hsame
      · rw [hk] at hr
        cases hr
    cases k with
    | receive r =>
      exact congrArg live (Multiset.coe_eq_coe.mpr (List.perm_append_singleton _ _))
    | start | call | put | drop | closeAll | closeDone =>
      exact (AgentConn.live_none (hnone rfl)).symm

theorem step_view {l : SharedLabel π} (hi : s.Inv) (h : s.step l = some t) (d : Nat) :
    t.view d = s.view d ∨
    (∃ v v' o, s.view d = some v ∧ t.view d = some v' ∧ ViewStep d v o v' ∧
      ∀ l', o = some l' → l = .conn (.call d l')) ∨
    ∃ kind, s.view d = none ∧ t.view d = some (s.conn.freshView kind) := by
  obtain ⟨dl, F, k, c', out, hf⟩ := step_focus hi.idle h
  have hok : ({ s.conn with delivery := dl } : AgentConn π).AllOk (dl ::ₘ F) :=
    (hi.allOk.live hf.before).setDelivery dl
  have hs : s.view d = ({ s.conn with delivery := dl } : AgentConn π).view (dl ::ₘ F) d :=
    AgentConn.view_live hf.before d
  have ht : t.view d = c'.view (c'.delivery ::ₘ F) d := by
    rw [view, hf.conn]
    exact AgentConn.view_live hf.after d
  rw [hs, ht]
  obtain hsame | ⟨v, v', o, hv, hv', hstep, hlabel⟩ | hnew :=
    AgentConn.step_view hok.known ⟨hi.numbered.sorted, hi.numbered.bounded⟩
      (AgentConn.step_cases hf.step) d
  · exact .inl hsame
  · exact .inr (.inl ⟨v, v', o, hv, hv', hstep, fun l' hl' => hf.label d l' (hlabel l' hl')⟩)
  · exact .inr (.inr hnew)

theorem step_inv {l : SharedLabel π} (hi : s.Inv)
    (hseq : takesNumber l = true → s.conn.seq + 1 < UInt64.size) (h : s.step l = some t) : t.Inv := by
  obtain ⟨dl, F, k, c', out, hf⟩ := step_focus hi.idle h
  have hn : ({ s.conn with delivery := dl } : AgentConn π).Numbered :=
    ⟨hi.numbered.sorted, hi.numbered.bounded⟩
  have hok := ((hi.allOk.live hf.before).setDelivery dl).step hn hf.step
  have hn' := AgentConn.step_numbered hn (fun hk => hseq (hf.counts ▸ hk)) hf.step
  refine ⟨?_, ?_, ?_⟩
  · rw [hf.conn]
  · rw [hf.conn]
    exact (hok.live hf.after.symm).setDelivery .idle
  · rw [hf.conn]
    exact ⟨hn'.sorted, hn'.bounded⟩

theorem step_closed {l : SharedLabel π} (hidle : s.conn.delivery = .idle) (h : s.step l = some t)
    (hclosed : s.conn.closed = true) : t.conn.closed = true := by
  obtain ⟨dl, F, k, c', out, hf⟩ := step_focus hidle h
  rw [hf.conn]
  cases AgentConn.step_cases hf.step with
  | start | closeDone => exact hclosed
  | call d call l c' out hcall h => cases h <;> exact hclosed
  | delivery l c' h => cases h <;> exact hclosed
  | closeAll => rfl

theorem step_seq {l : SharedLabel π} (hidle : s.conn.delivery = .idle) (h : s.step l = some t) :
    t.conn.seq ≤ s.conn.seq + if takesNumber l then 1 else 0 := by
  obtain ⟨dl, F, k, c', out, hf⟩ := step_focus hidle h
  rw [hf.conn]
  obtain ⟨-, -, ⟨-, hsame⟩ | ⟨hk, hnext, -⟩⟩ := AgentConn.step_change hf.step
  · exact hsame ▸ Nat.le_add_right _ _
  · rw [← hf.counts, if_pos hk, hnext]
    exact Nat.mod_le _ _

theorem inv_of_run {agentId : String} {ls : List (SharedLabel π)}
    (h : Lts.AnyRun step (init agentId) ls s) (hseq : ls.countP takesNumber < UInt64.size) :
    s.Inv :=
  h.invariant_below (fun _ _ _ hi hl hs => step_inv hi hl hs)
    (fun _ _ _ hi hs => step_seq hi.idle hs) (init_inv agentId) rfl hseq

/-! ### Whom a message reaches -/

structure Correlated (s : SharedConn π) : Prop where
  distinct : ∀ (d e : Nat) (id : String), s.conn.HasId d id → s.conn.HasId e id → d = e
  registered : ∀ (id : String) (d : Nat),
    s.conn.pending.get id = some d ∨ s.conn.pendingStream.get id = some d → s.conn.HasId d id
  disjoint : ∀ id, s.conn.pending.get id = none ∨ s.conn.pendingStream.get id = none
  own : ∀ (d : Nat) (r : Reply π), (d, r) ∈ s.conn.delivered → s.conn.HasId d r.requestId
  once : ∀ d, (s.conn.putTo d).countP Reply.isResult ≤ 1
  -- `closeAll` closes the channels of `pending`
  closesOpen : ∀ (id : String) (d : Nat) (call : Call π), s.conn.pending.get id = some d →
    s.conn.calls[d]? = some call → call.chanClosed = false
  closesOnce : ∀ (id id' : String) (d : Nat), s.conn.pending.get id = some d →
    s.conn.pending.get id' = some d → id = id'
  sendsOpen : ∀ (i d : Nat) (r : Reply π) (call : Call π), s.deliveries[i]? = some (.unary d r) →
    s.conn.calls[d]? = some call → call.chanClosed = false
  neverBlocks : ∀ (i d : Nat) (r : Reply π), s.deliveries[i]? = some (.unary d r) →
    (s.step (.put i)).isSome = true

theorem mem_flight {i d : Nat} {dl : Delivery π} {r : Reply π} (hdl : s.deliveries[i]? = some dl)
    (ht : dl.target = some (d, r)) :
    dl ∈ (s.deliveries : Multiset (Delivery π)).filter (·.isFor d) :=
  Multiset.mem_filter.mpr ⟨Multiset.mem_coe.mpr (List.mem_of_getElem? hdl),
    AgentConn.isFor_iff.mpr ⟨r, ht⟩⟩

theorem Inv.unary (hi : s.Inv) {i d : Nat} {r : Reply π} {call : Call π}
    (hdl : s.deliveries[i]? = some (.unary d r)) (hcall : s.conn.calls[d]? = some call) :
    call.inbox = none ∧ call.chanClosed = false :=
  (hi.allOk.views d _ (AgentConn.view_eq hcall)).unary (mem_flight hdl rfl)

theorem put_isSome {i d : Nat} {r : Reply π} {call : Call π}
    (hdl : s.deliveries[i]? = some (.unary d r)) (hcall : s.conn.calls[d]? = some call)
    (hinbox : call.inbox = none) (hopen : call.chanClosed = false) :
    (s.step (.put i)).isSome = true := by
  simp [step, deliver, hdl, AgentConn.step, AgentConn.put, hcall, hinbox, hopen]

theorem Inv.correlated (hi : s.Inv) : s.Correlated where
  distinct := fun d e id hd he => AgentConn.HasId.inj hi.numbered hd he
  registered := fun id d h => h.elim (hi.allOk.known.pending id d) (hi.allOk.known.pendingStream id d)
  disjoint := fun id => by
    by_contra hboth
    obtain ⟨hp, hs⟩ := not_or.mp hboth
    obtain ⟨d, hd⟩ := Option.ne_none_iff_exists'.mp hp
    obtain ⟨e, he⟩ := Option.ne_none_iff_exists'.mp hs
    have hdid := hi.allOk.known.pending id d hd
    obtain rfl := AgentConn.HasId.inj hi.numbered hdid (hi.allOk.known.pendingStream id e he)
    obtain ⟨call, hcall⟩ : ∃ call, s.conn.calls[d]? = some call :=
      ⟨_, List.getElem?_eq_getElem hdid.lt⟩
    obtain rfl := AgentConn.requestId_of_hasId hcall hdid
    have hone := ((hi.allOk.views d _ (AgentConn.view_eq hcall)).alone (.inl (decide_eq_true hd))).2.2.2
    simp [hd, he] at hone
  own := fun d r hr => by
    have hcall := List.getElem?_eq_getElem (hi.allOk.known.delivered _ hr)
    have hmem : r ∈ s.conn.putTo d :=
      List.mem_map.mpr ⟨(d, r), List.mem_filter.mpr ⟨hr, decide_eq_true rfl⟩, rfl⟩
    rw [(hi.allOk.views d _ (AgentConn.view_eq hcall)).ownPut r hmem]
    exact AgentConn.hasId_of_call hcall
  once := fun d => by
    cases hcall : s.conn.calls[d]? with
    | some call =>
      have hload := (hi.allOk.views d _ (AgentConn.view_eq hcall)).load_le
      rw [View.load] at hload
      dsimp only at hload
      omega
    | none =>
      have hnone : s.conn.delivered.filter (·.1 = d) = [] := by
        refine List.filter_eq_nil_iff.mpr fun x hx heq => ?_
        rw [decide_eq_true_iff] at heq
        have hlt := hi.allOk.known.delivered x hx
        rw [heq] at hlt
        rw [List.getElem?_eq_getElem hlt] at hcall
        cases hcall
      rw [AgentConn.putTo, hnone]
      exact Nat.zero_le _
  closesOpen := fun id d call hd hcall => by
    obtain rfl := AgentConn.requestId_of_hasId hcall (hi.allOk.known.pending id d hd)
    exact ((hi.allOk.views d _ (AgentConn.view_eq hcall)).alone (.inl (decide_eq_true hd))).2.2.1
  closesOnce := fun id id' d hd hd' => by
    have hdid := hi.allOk.known.pending id d hd
    have hcall := List.getElem?_eq_getElem hdid.lt
    rw [← AgentConn.requestId_of_hasId hcall hdid]
    exact AgentConn.requestId_of_hasId hcall (hi.allOk.known.pending id' d hd')
  sendsOpen := fun i d r call hdl hcall => (hi.unary hdl hcall).2
  neverBlocks := fun i d r hdl => by
    have hlt : d < s.conn.calls.length :=
      hi.allOk.known.flight _ (Multiset.mem_coe.mpr (List.mem_of_getElem? hdl)) _ rfl
    have hcall := List.getElem?_eq_getElem hlt
    obtain ⟨hinbox, hopen⟩ := hi.unary hdl hcall
    exact put_isSome hdl hcall hinbox hopen

end SharedConn
end Hostlink.Controller
