import Hostlink.Controller.Registrations

/-! The `cancel` of a stream, called any number of times and by any number of goroutines, against
`deliver`, `deliverProgress` and `closeAll`. Whether the agent is told is decided under the lock by
whether the registration is still there; the command goes out after the lock is released. -/

namespace Hostlink.Controller
variable {π : Type}

/-- Where a call of `cancel` stands; `live` and `closed` are what it saw under the lock. -/
inductive CancelPc where
  | lock
  | close (live closed : Bool)
  | send
  | returned
  deriving DecidableEq, Repr

structure CancelCall where
  d : Nat
  pc : CancelPc := .lock
  deriving DecidableEq, Repr

/-- What the four operations have done, in this order: `deliver` has taken the registration of
`d` out of its map, `closeAll` or a `cancel` of `d` has held the lock, a `request.cancel` for `d`
was sent under `requestId`, a `cancel` of `d` has returned. -/
inductive CancelEvent where
  | taken (d : Nat)
  | closedAll
  | locked (d : Nat)
  | sent (d : Nat) (requestId target : String)
  | returned (d : Nat)
  deriving DecidableEq, Repr

def CancelEvent.isSent (d : Nat) : CancelEvent → Bool
  | .sent e _ _ => e = d
  | _ => false

structure CancelConn (π : Type) where
  shared : SharedConn π
  cancels : List CancelCall := []
  log : List CancelEvent := []

inductive CancelLabel (π : Type) where
  | conn (l : SharedLabel π)
  | call (d : Nat)
  | lock (i : Nat)
  | close (i : Nat)
  | send (i : Nat)
  deriving DecidableEq, Repr

namespace CancelConn

def init (agentId : String) : CancelConn π := { shared := .init agentId }

/-- The steps of a dispatcher that calls its `cancel` itself; here any goroutine calls it. -/
def cancelling : SharedLabel π → Bool
  | .conn (.call _ .cancel) | .conn (.call _ .cancelClose) | .conn (.call _ (.cancelSend _)) => true
  | _ => false

def noted (c : AgentConn π) : SharedLabel π → List CancelEvent
  | .conn (.receive (.result id _)) =>
    ((c.pendingStream.get id).or (c.pending.get id)).toList.map .taken
  | .conn .closeAll => [.closedAll]
  | _ => []

def lock (s : CancelConn π) (i d : Nat) (call : Call π) : CancelConn π :=
  let c := s.shared.conn
  let live : Bool := c.pendingStream.get call.requestId = some d
  { shared := { s.shared with
      conn := { c with
        pendingStream := if live then c.pendingStream.erase call.requestId else c.pendingStream } }
    cancels := s.cancels.set i { d := d, pc := .close live c.closed }
    log := s.log ++ [.locked d] }

/-- `reg.close`, and the decision taken under the lock. -/
def close (s : CancelConn π) (i d : Nat) (call : Call π) (live closed : Bool) : CancelConn π :=
  let quiet := !live || closed
  { shared := { s.shared with conn := s.shared.conn.setCall d { call with done := true } }
    cancels := s.cancels.set i { d := d, pc := if quiet then .returned else .send }
    log := s.log ++ if quiet then [.returned d] else [] }

/-- The command; an error of `send` is only logged. -/
def send (s : CancelConn π) (i d : Nat) (call : Call π) : CancelConn π :=
  let c := s.shared.conn
  { shared := { s.shared with conn := { c with seq := c.nextSeq } }
    cancels := s.cancels.set i { d := d, pc := .returned }
    log := s.log ++ [.sent d (Strconv.formatUint c.nextSeq) call.requestId, .returned d] }

def stepCancel (s : CancelConn π) (i : Nat)
    (f : CancelPc → Nat → Call π → Option (CancelConn π)) : Option (CancelConn π) :=
  (s.cancels[i]?).bind fun x => (s.shared.conn.calls[x.d]?).bind fun call => f x.pc x.d call

def step (s : CancelConn π) : CancelLabel π → Option (CancelConn π)
  | .conn l =>
    if cancelling l then none
    else (s.shared.step l).map fun shared =>
      { s with shared := shared, log := s.log ++ noted s.shared.conn l }
  | .call d =>
    (s.shared.conn.calls[d]?).bind fun call =>
      -- the consumer calls it at will, `dispatchStream` once when the request could not be sent
      if call.pc = .consume ∨ call.pc = .cancel ∧ ∀ x ∈ s.cancels, x.d ≠ d then
        some { s with cancels := s.cancels ++ [{ d := d }] }
      else none
  | .lock i => s.stepCancel i fun pc d call =>
      match pc with
      | .lock => some (s.lock i d call)
      | _ => none
  | .close i => s.stepCancel i fun pc d call =>
      match pc with
      | .close live closed => some (s.close i d call live closed)
      | _ => none
  | .send i => s.stepCancel i fun pc d call =>
      match pc with
      | .send => some (s.send i d call)
      | _ => none

def takesNumber : CancelLabel π → Bool
  | .conn l => SharedConn.takesNumber l
  | .send _ => true
  | .call _ | .lock _ | .close _ => false

inductive Step (s : CancelConn π) : CancelLabel π → CancelConn π → Prop
  | conn (l : SharedLabel π) (shared : SharedConn π) (hl : cancelling l = false)
      (h : s.shared.step l = some shared) :
      Step s (.conn l) { s with shared := shared, log := s.log ++ noted s.shared.conn l }
  | call (d : Nat) (call : Call π) (hcall : s.shared.conn.calls[d]? = some call)
      (hpc : call.pc = .consume ∨ call.pc = .cancel) :
      Step s (.call d) { s with cancels := s.cancels ++ [{ d := d }] }
  | lock (i d : Nat) (call : Call π) (hx : s.cancels[i]? = some { d := d })
      (hcall : s.shared.conn.calls[d]? = some call) : Step s (.lock i) (s.lock i d call)
  | close (i d : Nat) (call : Call π) (live closed : Bool)
      (hx : s.cancels[i]? = some { d := d, pc := .close live closed })
      (hcall : s.shared.conn.calls[d]? = some call) :
      Step s (.close i) (s.close i d call live closed)
  | send (i d : Nat) (call : Call π) (hx : s.cancels[i]? = some { d := d, pc := .send })
      (hcall : s.shared.conn.calls[d]? = some call) : Step s (.send i) (s.send i d call)

theorem stepCancel_cases {s t : CancelConn π} {i : Nat}
    {f : CancelPc → Nat → Call π → Option (CancelConn π)} (h : s.stepCancel i f = some t) :
    ∃ d pc call, s.cancels[i]? = some { d := d, pc := pc } ∧
      s.shared.conn.calls[d]? = some call ∧ f pc d call = some t := by
  obtain ⟨x, hx, h⟩ := Option.bind_eq_some_iff.mp h
  obtain ⟨call, hcall, h⟩ := Option.bind_eq_some_iff.mp h
  exact ⟨x.d, x.pc, call, hx, hcall, h⟩

theorem step_cases {s t : CancelConn π} {l : CancelLabel π} (h : s.step l = some t) : Step s l t := by
  cases l with
  | conn l =>
    simp only [step] at h
    split at h
    · cases h
    · next hl =>
      obtain ⟨shared, hstep, rfl⟩ := Option.map_eq_some_iff.mp h
      exact .conn l shared (eq_false_of_ne_true hl) hstep
  | call d =>
    obtain ⟨call, hcall, h⟩ := Option.bind_eq_some_iff.mp h
    split at h
    · next hpc =>
      cases h
      exact .call d call hcall (hpc.imp_right And.left)
    · cases h
  | lock i =>
    simp only [step] at h
    obtain ⟨d, pc, call, hx, hcall, h⟩ := stepCancel_cases h
    split at h
    · cases h
      exact .lock i d call hx hcall
    · cases h
  | close i =>
    simp only [step] at h
    obtain ⟨d, pc, call, hx, hcall, h⟩ := stepCancel_cases h
    split at h
    · next live closed =>
      cases h
      exact .close i d call live closed hx hcall
    · cases h
  | send i =>
    simp only [step] at h
    obtain ⟨d, pc, call, hx, hcall, h⟩ := stepCancel_cases h
    split at h
    · cases h
      exact .send i d call hx hcall
    · cases h

end CancelConn

/-! ### What the other steps of a connection keep -/

namespace AgentConn
variable {c c' : AgentConn π} {d : Nat} {call call' : Call π}

def Keeps (c c' : AgentConn π) : Prop :=
  ∀ (d : Nat) (call : Call π), c.calls[d]? = some call → ∃ call', c'.calls[d]? = some call' ∧
    call'.requestId = call.requestId ∧ (call.done = true → call'.done = true) ∧
    (call.pc = .consume ∨ call.pc = .cancel → call'.pc = call.pc)

theorem Keeps.of_calls (h : c'.calls = c.calls) : c.Keeps c' := by
  intro d call hcall
  exact ⟨call, by rw [h, hcall], rfl, id, fun _ => rfl⟩

theorem Keeps.set (hcall : c.calls[d]? = some call) (hcalls : c'.calls = c.calls.set d call')
    (hid : call'.id = call.id) (hdone : call.done = true → call'.done = true)
    (hpc : call.pc = .consume ∨ call.pc = .cancel → call'.pc = call.pc) : c.Keeps c' := by
  intro e other hother
  rw [hcalls]
  rcases List.getElem?_set_of (a := call') hcall hother with hkept | ⟨hset, rfl⟩
  · exact ⟨other, hkept, rfl, id, fun _ => rfl⟩
  · exact ⟨call', hset, by rw [Call.requestId, Call.requestId, hid], hdone, hpc⟩

theorem callStep_keeps {l : CallLabel} {out : Option Command} (hcall : c.calls[d]? = some call)
    (hs : CallStep c d call l c' out) (hl : l ≠ .cancel) : c.Keeps c' := by
  have hat : ∀ {pc pc' : CallPc}, call.pc = pc → pc ≠ .consume → pc ≠ .cancel →
      call.pc = .consume ∨ call.pc = .cancel → pc' = call.pc := by
    rintro pc pc' hpc hconsume hcancel (hat | hat)
    · exact absurd (hpc.symm.trans hat) hconsume
    · exact absurd (hpc.symm.trans hat) hcancel
  cases hs with
  | chunk => exact .of_calls rfl
  | tookFrame => exact .set hcall rfl rfl id fun _ => rfl
  | cancelLive | cancelGone => exact absurd rfl hl
  | cancelClosed live closed failed hpc =>
    exact .set hcall rfl rfl (fun _ => rfl) (hat hpc (by rintro ⟨⟩) (by rintro ⟨⟩))
  | refused hpc | registered hpc | registeredStream hpc | sent err hpc | await hpc | ctxDone err hpc
  | tookResult r hpc | tookClosed hpc | unregistered hpc | cancelSent failed err hpc =>
    exact .set hcall rfl rfl id (hat hpc (by rintro ⟨⟩) (by rintro ⟨⟩))

theorem step_keeps {l : ConnLabel π} {out : Option Command} (hs : c.step l = some (c', out))
    (hl : ∀ d, l ≠ .call d .cancel) : c.Keeps c' := by
  cases step_cases hs with
  | start kind =>
    intro d call hcall
    exact ⟨call, List.getElem?_append_of hcall _, rfl, id, fun _ => rfl⟩
  | call d call l c' out hcall hstep => exact callStep_keeps hcall hstep fun h => hl d (h ▸ rfl)
  | delivery l c' hstep =>
    cases hstep with
    | result | terminal | progress | unknown | dropped => exact .of_calls rfl
    | putResult d r call hd hcall | putFrame d r call hd hcall =>
      exact .set hcall rfl rfl id fun _ => rfl
  | closeAll =>
    intro d call hcall
    refine ⟨_, by rw [closeAll, List.getElem?_mapIdx, hcall, Option.map_some], ?_⟩
    split <;> exact ⟨rfl, id, fun _ => rfl⟩
  | closeDone d call hcall => exact .set hcall rfl rfl (fun _ => rfl) fun _ => rfl

def Received (c : AgentConn π) : Prop :=
  ∀ (d : Nat) (call : Call π), c.calls[d]? = some call → ∀ r,
    call.inbox = some r ∨ r ∈ call.frames ∨ r ∈ call.taken → (d, r) ∈ c.delivered

theorem Received.set (h : c.Received) (hcall : c.calls[d]? = some call)
    (hcalls : c'.calls = c.calls.set d call') (hput : ∀ x ∈ c.delivered, x ∈ c'.delivered)
    (hnew : ∀ r, call'.inbox = some r ∨ r ∈ call'.frames ∨ r ∈ call'.taken →
      (call.inbox = some r ∨ r ∈ call.frames ∨ r ∈ call.taken) ∨ (d, r) ∈ c'.delivered) :
    c'.Received := by
  intro e other hother r hr
  rw [hcalls] at hother
  rcases List.getElem?_of_set hother with ⟨-, hold⟩ | ⟨rfl, rfl⟩
  · exact hput _ (h e other hold r hr)
  · rcases hnew r hr with hold | hnow
    · exact hput _ (h e call hcall r hold)
    · exact hnow

theorem Received.setCall (h : c.Received) (hcall : c.calls[d]? = some call)
    (hcalls : c'.calls = c.calls.set d call') (hput : c'.delivered = c.delivered)
    (hnew : ∀ r, call'.inbox = some r ∨ r ∈ call'.frames ∨ r ∈ call'.taken →
      call.inbox = some r ∨ r ∈ call.frames ∨ r ∈ call.taken) : c'.Received :=
  h.set hcall hcalls (fun _ hx => hput ▸ hx) fun r hr => .inl (hnew r hr)

theorem Received.callStep {l : CallLabel} {out : Option Command} (h : c.Received)
    (hcall : c.calls[d]? = some call) (hs : CallStep c d call l c' out) : c'.Received := by
  cases hs with
  | chunk => exact h
  | tookResult r hpc hinbox =>
    refine h.setCall hcall rfl rfl fun r' hr => ?_
    rcases hr with hnone | hframes | htaken
    · cases hnone
    · exact .inr (.inl hframes)
    · exact .inl (List.mem_singleton.mp htaken ▸ hinbox)
  | tookFrame r frames hpc hframes =>
    refine h.setCall hcall rfl rfl fun r' hr => ?_
    rw [hframes]
    rcases hr with hinbox | hrest | htaken
    · exact .inl hinbox
    · exact .inr (.inl (List.mem_cons_of_mem _ hrest))
    · rcases List.mem_append.mp htaken with hold | hnow
      · exact .inr (.inr hold)
      · exact .inr (.inl (List.mem_singleton.mp hnow ▸ List.mem_cons_self))
  | refused | registered | registeredStream | sent | await | ctxDone | tookClosed | unregistered
  | cancelLive | cancelGone | cancelClosed | cancelSent =>
    exact h.setCall hcall rfl rfl fun _ => id

theorem Received.step {l : ConnLabel π} {out : Option Command} (h : c.Received)
    (hs : c.step l = some (c', out)) : c'.Received := by
  cases step_cases hs with
  | start kind =>
    intro d call hcall r hr
    rcases List.getElem?_of_concat hcall with hold | ⟨-, rfl⟩
    · exact h d call hold r hr
    · rcases hr with hnone | hnil | hnil
      · cases hnone
      · exact absurd hnil List.not_mem_nil
      · exact absurd hnil List.not_mem_nil
  | call d call l c' out hcall hstep => exact h.callStep hcall hstep
  | delivery l c' hstep =>
    cases hstep with
    | result | terminal | progress | unknown | dropped => exact h
    | putResult d r call hd hcall =>
      refine h.set hcall rfl (fun _ => List.mem_append_left _) fun r' hr => ?_
      rcases hr with hinbox | hrest
      · obtain rfl := Option.some.inj hinbox
        exact .inr (List.mem_append_right _ (List.mem_singleton.mpr rfl))
      · exact .inl (.inr hrest)
    | putFrame d r call hd hcall =>
      refine h.set hcall rfl (fun _ => List.mem_append_left _) fun r' hr => ?_
      rcases hr with hinbox | hframes | htaken
      · exact .inl (.inl hinbox)
      · rcases List.mem_append.mp hframes with hold | hnow
        · exact .inl (.inr (.inl hold))
        · rw [List.mem_singleton.mp hnow]
          exact .inr (List.mem_append_right _ (List.mem_singleton.mpr rfl))
      · exact .inl (.inr (.inr htaken))
  | closeAll =>
    intro d call' hcall' r hr
    rw [AgentConn.closeAll, List.getElem?_mapIdx] at hcall'
    obtain ⟨call, hcall, rfl⟩ := Option.map_eq_some_iff.mp hcall'
    refine h d call hcall r ?_
    split at hr <;> exact hr
  | closeDone d call hcall => exact h.setCall hcall rfl rfl fun _ => id

theorem receive_of_step {r : Reply π} {out : Option Command}
    (h : c.step (.receive r) = some (c', out)) : c' = c.receive r := by
  simp only [step] at h
  split at h
  · cases h
    rfl
  · cases h

end AgentConn

/-! ### What is noted -/

namespace CancelConn

theorem taken_mem_noted {c : AgentConn π} {l : SharedLabel π} {d : Nat} :
    .taken d ∈ noted c l ↔ ∃ id body, l = .conn (.receive (.result id body)) ∧
      (c.pendingStream.get id).or (c.pending.get id) = some d := by
  unfold noted
  split
  · next id body =>
    simp only [List.mem_map, Option.mem_toList, CancelEvent.taken.injEq, exists_eq_right]
    constructor
    · intro h
      exact ⟨id, body, rfl, h⟩
    · rintro ⟨id', body', heq, h⟩
      cases heq
      exact h
  · simp
  · next hl _ =>
    constructor
    · intro h
      exact absurd h List.not_mem_nil
    · rintro ⟨id, body, rfl, -⟩
      exact absurd rfl (hl id body)

theorem noted_cases {c : AgentConn π} {l : SharedLabel π} {e : CancelEvent} (h : e ∈ noted c l) :
    (∃ d, e = .taken d) ∨ e = .closedAll ∧ l = .conn .closeAll := by
  unfold noted at h
  split at h
  · obtain ⟨d, -, rfl⟩ := List.mem_map.mp h
    exact .inl ⟨d, rfl⟩
  · exact .inr ⟨List.mem_singleton.mp h, rfl⟩
  · exact absurd h List.not_mem_nil

theorem locked_notMem_noted {c : AgentConn π} {l : SharedLabel π} {d : Nat} :
    .locked d ∉ noted c l := by
  intro h
  rcases noted_cases h with ⟨e, he⟩ | ⟨he, -⟩
  · cases he
  · cases he

end CancelConn

namespace SharedConn
open CancelConn (noted taken_mem_noted)
variable {s t : SharedConn π} {l : SharedLabel π} {d : Nat}

theorem step_keeps (hidle : s.conn.delivery = .idle) (h : s.step l = some t)
    (hl : ∀ d, l ≠ .conn (.call d .cancel)) : s.conn.Keeps t.conn := by
  obtain ⟨dl, F, k, c', out, hf⟩ := step_focus hidle h
  have hkeeps := AgentConn.step_keeps hf.step fun e hk => hl e (hf.label e _ hk)
  rw [hf.conn]
  exact hkeeps

theorem step_received (hidle : s.conn.delivery = .idle) (h : s.step l = some t)
    (hr : s.conn.Received) : t.conn.Received := by
  obtain ⟨dl, F, k, c', out, hf⟩ := step_focus hidle h
  have hstart : ({ s.conn with delivery := dl } : AgentConn π).Received := hr
  have hnext := hstart.step hf.step
  rw [hf.conn]
  exact hnext

def Carries (s : SharedConn π) (d : Nat) (r : Reply π) : Prop :=
  (∃ dl ∈ s.deliveries, dl.target = some (d, r)) ∨ (d, r) ∈ s.conn.delivered

theorem carries_deliver {i : Nat} {k : ConnLabel π} {r : Reply π} (h : s.deliver i k = some t)
    (hk : AgentConn.incoming k = none) (ht : t.Carries d r) : s.Carries d r := by
  obtain ⟨dl, hdl, h⟩ := Option.bind_eq_some_iff.mp h
  obtain ⟨⟨c', out⟩, hstep, rfl⟩ := Option.map_eq_some_iff.mp h
  have hmem : dl ∈ s.deliveries := List.mem_of_getElem? hdl
  have hchange := (AgentConn.step_change hstep).1
  rcases ht with ⟨dl', hdl', htarget⟩ | hput
  · rcases List.mem_or_eq_of_mem_set hdl' with hold | rfl
    · exact .inl ⟨dl', hold, htarget⟩
    · rcases hchange.delivery with hnone | hsame | ⟨e, r', hin, -⟩
      · exact absurd (hnone.symm.trans htarget) (Option.some_ne_none _).symm
      · have hsame : c'.delivery = dl := hsame
        exact .inl ⟨dl, hmem, hsame ▸ htarget⟩
      · rw [hk] at hin
        cases hin
  · rcases hchange.delivered with hsame | ⟨x, hx, happend⟩
    · exact .inr (hsame ▸ hput)
    · dsimp only at hput happend
      rw [happend, List.mem_append, List.mem_singleton] at hput
      rcases hput with hold | rfl
      · exact .inr hold
      · exact .inl ⟨dl, hmem, hx⟩

theorem carries_step {r : Reply π} (hidle : s.conn.delivery = .idle) (h : s.step l = some t)
    (hr : r.isResult = true) (ht : t.Carries d r) :
    s.Carries d r ∨ .taken d ∈ noted s.conn l := by
  cases l with
  | put i => exact .inl (carries_deliver h rfl ht)
  | drop i => exact .inl (carries_deliver h rfl ht)
  | conn k =>
    obtain ⟨⟨c', out⟩, hstep, rfl⟩ := Option.map_eq_some_iff.mp h
    have hdelivered : c'.delivered = s.conn.delivered := by
      rcases (AgentConn.step_change hstep).1.delivered with hsame | ⟨x, hx, -⟩
      · exact hsame
      · rw [hidle] at hx
        cases hx
    rcases ht with ⟨dl, hdl, htarget⟩ | hput
    · cases k with
      | receive r' =>
        rcases List.mem_append.mp hdl with hold | hnew
        · exact .inl (.inl ⟨dl, hold, htarget⟩)
        · obtain rfl := List.mem_singleton.mp hnew
          refine .inr (taken_mem_noted.mpr ?_)
          cases AgentConn.step_cases hstep with
          | delivery _ _ hdelivery =>
            cases hdelivery with
            | result id body e _ hstream he =>
              obtain ⟨rfl, rfl⟩ := Prod.mk.inj (Option.some.inj htarget)
              exact ⟨id, body, rfl, by rw [hstream, Option.none_or, he]⟩
            | terminal id body e _ he =>
              obtain ⟨rfl, rfl⟩ := Prod.mk.inj (Option.some.inj htarget)
              exact ⟨id, body, rfl, by rw [he, Option.some_or]⟩
            | progress id body e way _ he hway =>
              rcases hway with rfl | ⟨rfl, -⟩
              all_goals
                obtain ⟨rfl, rfl⟩ := Prod.mk.inj (Option.some.inj htarget)
                cases hr
            | unknown _ hidle' =>
              dsimp only at htarget
              rw [hidle] at htarget
              cases htarget
      | start | call | put | drop | closeAll | closeDone => exact .inl (.inl ⟨dl, hdl, htarget⟩)
    · exact .inl (.inr (hdelivered ▸ hput))

theorem registration_of_taken {gone : Nat → Prop} (h : s.conn.Accounted gone)
    (htaken : .taken d ∈ noted s.conn l) : ¬ gone d := by
  obtain ⟨id, body, -, hd⟩ := taken_mem_noted.mp htaken
  rcases Option.or_eq_some_iff.mp hd with hstream | ⟨-, hunary⟩
  · exact (h.entry true id d hstream).1
  · exact (h.entry false id d hunary).1

theorem accounted_taken {gone : Nat → Prop} (h : s.conn.Accounted gone) (hs : s.step l = some t)
    (hl : ∀ e, l ≠ .conn (.call e .cancel)) :
    t.conn.Accounted fun e => gone e ∨ .taken e ∈ noted s.conn l := by
  have hstep : t.conn.Accounted gone := by
    refine (accounted_step h hs).of_iff fun e => ?_
    simp only [hl, or_false]
  by_cases htaken : ∃ d, .taken d ∈ noted s.conn l
  · obtain ⟨d, hd⟩ := htaken
    obtain ⟨id, body, rfl, hget⟩ := taken_mem_noted.mp hd
    have hone : ∀ e, .taken e ∈ noted s.conn (.conn (.receive (.result id body))) ↔ e = d := by
      intro e
      constructor
      · intro he
        obtain ⟨id', body', heq, he⟩ := taken_mem_noted.mp he
        cases heq
        exact Option.some.inj (he.symm.trans hget)
      · rintro rfl
        exact hd
    refine AgentConn.Accounted.of_iff ?_ fun e => or_congr_right (hone e)
    obtain ⟨⟨c', out⟩, hreceive, rfl⟩ := Option.map_eq_some_iff.mp hs
    obtain rfl := AgentConn.receive_of_step hreceive
    rcases Option.or_eq_some_iff.mp hget with hstream | ⟨hnone, hunary⟩
    · have heq : s.conn.receive (.result id body) = { s.conn with
          pendingStream := s.conn.pendingStream.erase id, delivery := .stream d (.result id body) } := by
        simp only [AgentConn.receive, hstream]
      rw [heq]
      exact h.takeOut true hstream rfl rfl rfl
    · have heq : s.conn.receive (.result id body) = { s.conn with
          pending := s.conn.pending.erase id, delivery := .unary d (.result id body) } := by
        simp only [AgentConn.receive, hnone, hunary]
      rw [heq]
      exact h.takeOut false hunary rfl rfl rfl
  · refine hstep.of_iff fun e => ?_
    rw [or_iff_left fun he => htaken ⟨e, he⟩]

end SharedConn

end Hostlink.Controller
