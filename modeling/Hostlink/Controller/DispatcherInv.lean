import Hostlink.Controller.Dispatcher

/-! The token of a request. From its registration on a request has one: its entry in a map, the
delivery of its result, the result on its channel, or the closing of that channel. No step makes a
second one, and a token is only lost with a dispatcher that no longer waits for it. -/

namespace Hostlink.Controller
variable {π : Type}

def CallPc.sent : CallPc → Bool
  | .register | .send => false
  | _ => true

def Delivery.carriesResult (dl : Delivery π) : Bool := dl.target.any (·.2.isResult)

namespace View

def load (v : View π) : Nat :=
  v.pending.toNat + v.pendingStream.toNat + v.flight.countP (·.carriesResult) +
    v.put.countP Reply.isResult + v.call.chanClosed.toNat

def awaits (v : View π) : Bool :=
  match v.call.pc with
  | .send => if v.call.kind.isStream then !v.call.done && !v.closing else true
  | .body | .wait => !v.call.kind.isStream
  | .consume => v.call.kind.isStream && !v.call.done && !v.closing
  | _ => false

def outstanding (v : View π) : Bool :=
  match v.call.pc with
  | .register | .send | .body | .wait => true
  | _ => false

def suits (v : View π) : Delivery π → Prop
  | .idle => False
  | .unary _ r => v.call.kind.isStream = false ∧ r.isResult = true
  | .stream _ _ => v.call.kind.isStream = true
  | .advisory _ r => v.call.kind.isStream = true ∧ r.isResult = false

structure Ok (v : View π) : Prop where
  load_le : v.load ≤ 1
  fresh : v.call.pc = .register → v.load = 0
  awaits : v.awaits = true → v.load = 1
  closed : v.closed = true → v.pending = false ∧ v.pendingStream = false
  own : ∀ dl ∈ v.flight, ∀ x, dl.target = some x → x.2.requestId = v.call.requestId
  ownPut : ∀ r ∈ v.put, r.requestId = v.call.requestId
  suits : ∀ dl ∈ v.flight, v.suits dl
  pending : v.pending = true → v.call.kind.isStream = false
  pendingStream : v.pendingStream = true → v.call.kind.isStream = true
  inbox : ∀ r, v.call.inbox = some r → r ∈ v.put ∧ r.isResult = true
  answered : v.call.kind.isStream = false → ∀ r ∈ v.put,
    v.call.inbox = some r ∨ v.call.pc = .unregister ∨ v.call.pc = .returned
  streamed : v.call.kind.isStream = true → ∀ r ∈ v.put, r ∈ v.call.taken ∨ r ∈ v.call.frames
  waits : v.call.pc = .body ∨ v.call.pc = .wait → v.call.kind.isStream = false
  clean : v.outstanding = true → v.call.taken = [] ∧ v.call.err = none
  chanClosed : v.call.chanClosed = true → v.call.kind.isStream = false
  cancelled : ∀ failed, v.call.pc = .cancelSend failed → v.call.done = true

variable {d : Nat} {v v' : View π} {o : Option CallLabel}

theorem countP_flight {flight : Multiset (Delivery π)} {dl : Delivery π}
    (h : v.flight = dl ::ₘ flight) :
    v.flight.countP (·.carriesResult) =
      flight.countP (·.carriesResult) + if dl.carriesResult then 1 else 0 := by
  rw [h, Multiset.countP_cons]

theorem head_mem {flight : Multiset (Delivery π)} {dl : Delivery π} (h : v.flight = dl ::ₘ flight) :
    dl ∈ v.flight := h ▸ Multiset.mem_cons_self _ _

theorem awaits_of (ha : v'.awaits = true) (hpc : v'.call.pc = v.call.pc)
    (hkind : v'.call.kind = v.call.kind) (hdone : v.call.done = true → v'.call.done = true)
    (hclosing : v.closing = true → v'.closing = true ∨ v'.call.done = true) :
    v.awaits = true := by
  unfold awaits at ha ⊢
  rw [hpc, hkind] at ha
  split at ha <;> grind

theorem suits_congr {dl : Delivery π} (h : v'.call.kind = v.call.kind) :
    v'.suits dl ↔ v.suits dl := by
  cases dl <;> simp only [suits, h]

end View

namespace Call

theorem afterSend_cases (call : Call π) (err : Option GoError) :
    (call.afterSend err = .wait ∨ call.afterSend err = .body ∨ call.afterSend err = .unregister) ∧
        call.kind.isStream = false ∨
      (call.afterSend err = .consume ∨ call.afterSend err = .cancel) ∧
        call.kind.isStream = true := by
  cases err with
  | none => cases hkind : call.kind <;> simp [afterSend, hkind, CallKind.isStream]
  | some err => cases hkind : call.kind <;> simp [afterSend, hkind, CallKind.isStream]

theorem afterCancel_cases (failed : Bool) :
    afterCancel failed = .returned ∨ afterCancel failed = .consume := by
  cases failed <;> decide

end Call

namespace CallMove
variable {v : View π} {l : CallLabel} {call : Call π}

theorem same (h : CallMove v l call) :
    call.kind = v.call.kind ∧ call.id = v.call.id ∧ call.chanClosed = v.call.chanClosed := by
  cases h <;> exact ⟨rfl, rfl, rfl⟩

theorem pc_ne (h : CallMove v l call) : call.pc ≠ .register := by
  cases h with
  | sent err hpc => rcases v.call.afterSend_cases err with ⟨h | h | h, -⟩ | ⟨h | h, -⟩ <;> simp [h]
  | cancelClosed live closed failed hpc =>
    rcases Call.afterCancel_cases failed with h | h <;> cases live <;> cases closed <;> simp [h]
  | cancelSent failed err hpc => rcases Call.afterCancel_cases failed with h | h <;> simp [h]
  | refused | await | ctxDone | tookResult | tookClosed | tookFrame | cancelGone => simp [*]

theorem awaits (hok : v.Ok) (h : CallMove v l call)
    (ha : ({ v with call := call } : View π).awaits = true) : v.awaits = true := by
  cases h with
  | sent err hpc =>
    rcases v.call.afterSend_cases err with ⟨h | h | h, hk⟩ | ⟨h | h, hk⟩ <;>
      simp_all [View.awaits]
  | cancelClosed live closed failed hpc =>
    rcases Call.afterCancel_cases failed with h | h <;> cases live <;> cases closed <;>
      simp_all [View.awaits]
  | cancelSent failed err hpc =>
    have hdone := hok.cancelled failed hpc
    rcases Call.afterCancel_cases failed with h | h <;> simp_all [View.awaits]
  | await hpc => simp_all [View.awaits]
  | tookFrame r frames hpc hframes => simp_all [View.awaits]
  | refused | ctxDone | tookResult | tookClosed | cancelGone => simp [View.awaits] at ha

theorem load_eq (h : CallMove v l call) : ({ v with call := call } : View π).load = v.load := by
  rw [View.load, View.load, h.same.2.2]

theorem pc_sent (h : CallMove v l call) (hpc : v.call.pc.sent = true) : call.pc.sent = true := by
  cases h with
  | sent err hpc' =>
    rw [hpc'] at hpc
    cases hpc
  | cancelClosed live closed failed _ => cases live <;> cases closed <;> cases failed <;> rfl
  | cancelSent failed => cases failed <;> rfl
  | tookFrame => exact hpc
  | refused | await | ctxDone | tookResult | tookClosed | cancelGone => rfl

theorem requestId_eq (h : CallMove v l call) : call.requestId = v.call.requestId := by
  rw [Call.requestId, Call.requestId, h.same.2.1]

theorem inbox (h : CallMove v l call) {r : Reply π} (hr : call.inbox = some r) :
    v.call.inbox = some r := by
  cases h with
  | tookResult => cases hr
  | refused | sent | await | ctxDone | tookClosed | tookFrame | cancelGone | cancelClosed
  | cancelSent => exact hr

theorem answered (hpc : ∀ r, v.call.inbox ≠ some r → v.call.pc ≠ .unregister → v.call.pc ≠ .returned →
      r ∉ v.put) (h : CallMove v l call) {r : Reply π} (hr : r ∈ v.put) :
    call.inbox = some r ∨ call.pc = .unregister ∨ call.pc = .returned := by
  have hbefore : v.call.pc ≠ .unregister → v.call.pc ≠ .returned → v.call.inbox = some r :=
    fun hne hne' => by_contra fun hn => hpc r hn hne hne' hr
  cases h with
  | refused | ctxDone | tookResult | tookClosed => simp
  | sent _ hpc | await hpc | tookFrame _ _ hpc | cancelClosed _ _ _ hpc | cancelSent _ _ hpc =>
    exact .inl (hbefore (by simp [hpc]) (by simp [hpc]))
  | cancelGone failed hpc =>
    exact .inl (hbefore (by rw [hpc]; cases failed <;> decide) (by rw [hpc]; cases failed <;> decide))

theorem streamed (hok : v.Ok) (hkind : v.call.kind.isStream = true) (h : CallMove v l call)
    {r : Reply π} (hr : r ∈ v.put) : r ∈ call.taken ∨ r ∈ call.frames := by
  have hbefore := hok.streamed hkind r hr
  cases h with
  | tookFrame r' frames hpc hframes =>
    rw [hframes, List.mem_cons] at hbefore
    rw [List.mem_append, List.mem_singleton]
    tauto
  | tookResult r' hpc =>
    rw [hok.waits (.inr hpc)] at hkind
    cases hkind
  | refused | sent | await | ctxDone | tookClosed | cancelGone | cancelClosed | cancelSent =>
    exact hbefore

theorem waits (hok : v.Ok) (h : CallMove v l call) (hpc' : call.pc = .body ∨ call.pc = .wait) :
    v.call.kind.isStream = false := by
  cases h with
  | sent err hpc =>
    rcases v.call.afterSend_cases err with ⟨-, hk⟩ | ⟨h | h, -⟩
    · exact hk
    · simp [h] at hpc'
    · simp [h] at hpc'
  | await hpc => exact hok.waits (.inl hpc)
  | cancelClosed live closed failed hpc =>
    rcases Call.afterCancel_cases failed with h | h <;> cases live <;> cases closed <;>
      simp [h] at hpc'
  | cancelSent failed err hpc => rcases Call.afterCancel_cases failed with h | h <;> simp [h] at hpc'
  | tookFrame r frames hpc => simp [hpc] at hpc'
  | refused | ctxDone | tookResult | tookClosed | cancelGone => simp at hpc'

theorem cancelled (h : CallMove v l call) {failed : Bool} (hpc' : call.pc = .cancelSend failed) :
    call.done = true := by
  cases h with
  | cancelClosed => rfl
  | sent err hpc =>
    rcases v.call.afterSend_cases err with ⟨h | h | h, -⟩ | ⟨h | h, -⟩ <;> simp [h] at hpc'
  | cancelSent failed' err hpc => rcases Call.afterCancel_cases failed' with h | h <;> simp [h] at hpc'
  | tookFrame r frames hpc => simp [hpc] at hpc'
  | refused | await | ctxDone | tookResult | tookClosed | cancelGone => simp at hpc'

theorem clean (hok : v.Ok) (h : CallMove v l call)
    (ho : ({ v with call := call } : View π).outstanding = true) :
    call.taken = [] ∧ call.err = none := by
  cases h with
  | sent err hpc =>
    obtain ⟨htaken, -⟩ := hok.clean (by simp [View.outstanding, hpc])
    cases err with
    | none => exact ⟨htaken, rfl⟩
    | some err => cases hkind : v.call.kind.isStream <;>
        simp [View.outstanding, Call.afterSend, hkind] at ho
  | await hpc => exact hok.clean (by simp [View.outstanding, hpc])
  | cancelClosed live closed failed hpc =>
    rcases Call.afterCancel_cases failed with h | h <;> cases live <;> cases closed <;>
      simp [View.outstanding, h] at ho
  | cancelSent failed err hpc =>
    rcases Call.afterCancel_cases failed with h | h <;> simp [View.outstanding, h] at ho
  | tookFrame r frames hpc => simp [View.outstanding, hpc] at ho
  | refused | ctxDone | tookResult | tookClosed | cancelGone => cases ho

theorem ok (hok : v.Ok) (h : CallMove v l call) : ({ v with call := call } : View π).Ok where
  load_le := h.load_eq ▸ hok.load_le
  fresh := fun hpc => absurd hpc h.pc_ne
  awaits := fun ha => h.load_eq ▸ hok.awaits (h.awaits hok ha)
  closed := hok.closed
  own := fun dl hdl x hx => (hok.own dl hdl x hx).trans h.requestId_eq.symm
  ownPut := fun r hr => (hok.ownPut r hr).trans h.requestId_eq.symm
  suits := fun dl hdl => (View.suits_congr h.same.1).mpr (hok.suits dl hdl)
  pending := fun hp => h.same.1 ▸ hok.pending hp
  pendingStream := fun hp => h.same.1 ▸ hok.pendingStream hp
  inbox := fun r hr => hok.inbox r (h.inbox hr)
  answered := fun hkind r hr => by
    refine h.answered (fun r hn hne hne' hmem => ?_) hr
    have := hok.answered (h.same.1 ▸ hkind) r hmem
    tauto
  streamed := fun hkind r hr => h.streamed hok (h.same.1 ▸ hkind) hr
  waits := fun hpc => h.same.1 ▸ h.waits hok hpc
  clean := h.clean hok
  chanClosed := fun hc => h.same.1 ▸ hok.chanClosed (h.same.2.2 ▸ hc)
  cancelled := fun failed hpc => h.cancelled hpc

end CallMove

namespace View
variable {d : Nat} {v v' : View π} {o : Option CallLabel}

theorem Ok.alone (hok : v.Ok) (hheld : v.pending = true ∨ v.pendingStream = true) :
    v.flight.countP (·.carriesResult) = 0 ∧ v.put.countP Reply.isResult = 0 ∧
      v.call.chanClosed = false ∧ v.pending.toNat + v.pendingStream.toNat = 1 := by
  have hload := hok.load_le
  rw [load] at hload
  have hone : 1 ≤ v.pending.toNat + v.pendingStream.toNat := by
    obtain h | h := hheld <;> rw [h, Bool.toNat_true] <;> omega
  exact ⟨by omega, by omega, Bool.toNat_eq_zero.mp (by omega), by omega⟩

theorem Ok.unregistered (hok : v.Ok) (hpc : v.call.pc = .register) :
    v.pending = false ∧ v.pendingStream = false ∧
      v.flight.countP (·.carriesResult) = 0 ∧ v.put.countP Reply.isResult = 0 ∧
      v.call.chanClosed = false := by
  have hload := hok.fresh hpc
  rw [load] at hload
  exact ⟨Bool.toNat_eq_zero.mp (by omega), Bool.toNat_eq_zero.mp (by omega), by omega, by omega,
    Bool.toNat_eq_zero.mp (by omega)⟩

theorem Ok.unary (hok : v.Ok) {r : Reply π} (h : .unary d r ∈ v.flight) :
    v.call.inbox = none ∧ v.call.chanClosed = false := by
  have hres : r.isResult = true := (hok.suits _ h).2
  have hpos : 0 < v.flight.countP (·.carriesResult) :=
    Multiset.countP_pos.mpr ⟨_, h, hres⟩
  have hload := hok.load_le
  rw [load] at hload
  constructor
  · cases hinbox : v.call.inbox with
    | none => rfl
    | some r' =>
      obtain ⟨hmem, hr'⟩ := hok.inbox r' hinbox
      have := List.countP_pos_iff.mpr ⟨r', hmem, hr'⟩
      omega
  · cases hc : v.call.chanClosed with
    | false => rfl
    | true =>
      rw [hc, Bool.toNat_true] at hload
      omega

end View

/-! ### One step -/

namespace ViewStep
variable {d : Nat} {v v' : View π} {o : Option CallLabel}

theorem load (hok : v.Ok) (h : ViewStep d v o v') :
    v'.load = v.load ∨ (v'.call.pc ≠ .register ∧ v'.load = 1) ∨
      (v'.load ≤ v.load ∧ v'.awaits = false) := by
  cases h with
  | move l call h => exact .inl h.load_eq
  | registered hpc | registeredStream hpc =>
    obtain ⟨hp, hs, hflight, hput, hc⟩ := hok.unregistered hpc
    exact .inr (.inl ⟨by simp, by simp [View.load, hp, hs, hflight, hput, hc]⟩)
  | unregistered hpc =>
    refine .inr (.inr ⟨?_, rfl⟩)
    simp only [View.load, Bool.toNat_false]
    omega
  | cancelLive failed hpc hlive =>
    refine .inr (.inr ⟨?_, rfl⟩)
    simp only [View.load, Bool.toNat_false]
    omega
  | result r hr hid hheld =>
    left
    have hcarries : Delivery.carriesResult (.unary d r) = true := hr
    simp only [View.load, Multiset.countP_cons, hcarries, hheld, Bool.toNat_true, Bool.toNat_false,
      if_true]
    omega
  | terminal r hr hid hheld =>
    left
    have hcarries : Delivery.carriesResult (.stream d r) = true := hr
    simp only [View.load, Multiset.countP_cons, hcarries, hheld, Bool.toNat_true, Bool.toNat_false,
      if_true]
    omega
  | progress r dl hr hid hheld hdl =>
    left
    have hcarries : Delivery.carriesResult dl = false := by
      obtain rfl | ⟨rfl, -⟩ := hdl <;> exact hr
    simp only [View.load, Multiset.countP_cons, hcarries, Bool.false_eq_true, if_false, Nat.add_zero]
  | putResult r flight hflight hinbox hopen =>
    left
    have hmem : .unary d r ∈ v.flight := View.head_mem hflight
    have hr : r.isResult = true := (hok.suits _ hmem).2
    have hcarries : Delivery.carriesResult (.unary d r) = true := hr
    simp only [View.load, View.countP_flight hflight, List.countP_append, List.countP_singleton, hr,
      hcarries, if_true]
    omega
  | putFrame r dl flight hflight hdl =>
    left
    have hcarries : Delivery.carriesResult dl = r.isResult := by
      obtain rfl | rfl := hdl <;> rfl
    simp only [View.load, View.countP_flight hflight, List.countP_append, List.countP_singleton, hcarries]
    omega
  | dropped r dl flight hflight hdl =>
    obtain ⟨rfl, hdone⟩ | rfl := hdl
    · have hmem : .stream d r ∈ v.flight := View.head_mem hflight
      have hkind : v.call.kind.isStream = true := hok.suits _ hmem
      refine .inr (.inr ⟨?_, ?_⟩)
      · simp only [View.load, View.countP_flight hflight]
        omega
      · unfold View.awaits
        simp only [hdone, hkind]
        split <;> rfl
    · have hmem : .advisory d r ∈ v.flight := View.head_mem hflight
      have hcarries : Delivery.carriesResult (.advisory d r) = false := (hok.suits _ hmem).2
      left
      simp only [View.load, View.countP_flight hflight, hcarries, Bool.false_eq_true, if_false,
        Nat.add_zero]
  | closeAll =>
    cases hs : v.pendingStream with
    | false =>
      -- the token of a unary request goes from the map to the closing of its channel
      left
      have halone := hok.alone
      cases hp : v.pending with
      | false => simp [View.load, hp, hs]
      | true =>
        obtain ⟨-, -, hc, -⟩ := halone (.inl hp)
        simp only [View.load, hp, hs, hc, Bool.toNat_true, Bool.toNat_false, Bool.true_or]
        omega
    | true =>
      obtain ⟨-, -, hc, hone⟩ := hok.alone (.inr hs)
      have hp : v.pending = false := Bool.toNat_eq_zero.mp (by rw [hs, Bool.toNat_true] at hone; omega)
      have hkind := hok.pendingStream hs
      refine .inr (.inr ⟨?_, ?_⟩)
      · simp only [View.load, hp, hs, hc, Bool.toNat_false, Bool.false_or]
        omega
      · unfold View.awaits
        simp only [hkind, Bool.or_true]
        split <;> simp
  | closeDone closing hd => exact .inl rfl

theorem pc_register (h : ViewStep d v o v') (hpc : v'.call.pc = .register) :
    v.call.pc = .register := by
  cases h with
  | move l call h => exact absurd hpc h.pc_ne
  | registered | registeredStream | unregistered | cancelLive => cases hpc
  | result | terminal | progress | putResult | putFrame | dropped | closeAll | closeDone => exact hpc

theorem pc_sent (h : ViewStep d v o v') (hpc : v.call.pc.sent = true) : v'.call.pc.sent = true := by
  cases h with
  | move l call h => exact h.pc_sent hpc
  | registered hpc' | registeredStream hpc' =>
    rw [hpc'] at hpc
    cases hpc
  | unregistered | cancelLive => rfl
  | result | terminal | progress | putResult | putFrame | dropped | closeAll | closeDone => exact hpc

theorem awaits (hok : v.Ok) (h : ViewStep d v o v') (ha : v'.awaits = true) :
    v.awaits = true ∨ v'.load = 1 := by
  cases h with
  | move l call h => exact .inl (h.awaits hok ha)
  | registered hpc | registeredStream hpc =>
    obtain ⟨hp, hs, hflight, hput, hc⟩ := hok.unregistered hpc
    exact .inr (by simp [View.load, hp, hs, hflight, hput, hc])
  | unregistered | cancelLive => cases ha
  | result | terminal | progress | putResult | putFrame | dropped => exact .inl ha
  | closeAll => exact .inl (View.awaits_of ha rfl rfl (fun hd => hd) fun hc => .inl (by simp [hc]))
  | closeDone closing hd => exact .inl (View.awaits_of ha rfl rfl (fun _ => rfl) fun _ => .inr rfl)

theorem kind_eq (h : ViewStep d v o v') : v'.call.kind = v.call.kind := by
  cases h with
  | move l call h => exact h.same.1
  | registered | registeredStream | unregistered | cancelLive | result | terminal | progress
  | putResult | putFrame | dropped | closeAll | closeDone => rfl

theorem requestId_eq (h : ViewStep d v o v') : v'.call.requestId = v.call.requestId := by
  cases h with
  | move l call h => exact h.requestId_eq
  | registered | registeredStream | unregistered | cancelLive | result | terminal | progress
  | putResult | putFrame | dropped | closeAll | closeDone => rfl

theorem closed (hok : v.Ok) (h : ViewStep d v o v') (hc : v'.closed = true) :
    v'.pending = false ∧ v'.pendingStream = false := by
  cases h with
  | move l call h => exact hok.closed hc
  | registered hpc hopen | registeredStream hpc hopen =>
    rw [hopen] at hc
    cases hc
  | unregistered | result => exact ⟨rfl, (hok.closed hc).2⟩
  | cancelLive | terminal => exact ⟨(hok.closed hc).1, rfl⟩
  | progress | putResult | putFrame | dropped | closeDone => exact hok.closed hc
  | closeAll => exact ⟨rfl, rfl⟩

theorem mem_flight (hok : v.Ok) (h : ViewStep d v o v') {dl : Delivery π} (hdl : dl ∈ v'.flight) :
    dl ∈ v.flight ∨ v.suits dl ∧ ∀ x, dl.target = some x → x.2.requestId = v.call.requestId := by
  cases h with
  | result r hr hid hheld =>
    obtain rfl | hdl := Multiset.mem_cons.mp hdl
    · refine .inr ⟨⟨hok.pending hheld, hr⟩, fun x hx => ?_⟩
      cases hx
      exact hid
    · exact .inl hdl
  | terminal r hr hid hheld =>
    obtain rfl | hdl := Multiset.mem_cons.mp hdl
    · refine .inr ⟨hok.pendingStream hheld, fun x hx => ?_⟩
      cases hx
      exact hid
    · exact .inl hdl
  | progress r dl' hr hid hheld hdl' =>
    obtain rfl | hdl := Multiset.mem_cons.mp hdl
    · have hkind := hok.pendingStream hheld
      obtain rfl | ⟨rfl, -⟩ := hdl'
      · refine .inr ⟨hkind, fun x hx => ?_⟩
        cases hx
        exact hid
      · refine .inr ⟨⟨hkind, hr⟩, fun x hx => ?_⟩
        cases hx
        exact hid
    · exact .inl hdl
  | putResult r flight hflight | putFrame r dl flight hflight | dropped r dl flight hflight =>
    exact .inl (hflight ▸ Multiset.mem_cons_of_mem hdl)
  | move | registered | registeredStream | unregistered | cancelLive | closeAll | closeDone =>
    exact .inl hdl

theorem mem_put (h : ViewStep d v o v') {r : Reply π} (hr : r ∈ v'.put) :
    r ∈ v.put ∨ ∃ dl ∈ v.flight, dl.target = some (d, r) := by
  cases h with
  | putResult r' flight hflight =>
    obtain hr | hr := List.mem_append.mp hr
    · exact .inl hr
    · obtain rfl := List.mem_singleton.mp hr
      exact .inr ⟨_, View.head_mem hflight, rfl⟩
  | putFrame r' dl flight hflight hdl =>
    obtain hr | hr := List.mem_append.mp hr
    · exact .inl hr
    · obtain rfl := List.mem_singleton.mp hr
      refine .inr ⟨dl, View.head_mem hflight, ?_⟩
      obtain rfl | rfl := hdl <;> rfl
  | move | registered | registeredStream | unregistered | cancelLive | result | terminal | progress
  | dropped | closeAll | closeDone => exact .inl hr

theorem pending (hok : v.Ok) (h : ViewStep d v o v') (hp : v'.pending = true) :
    v.call.kind.isStream = false := by
  cases h with
  | registered hpc hopen hkind => exact hkind
  | unregistered | result | closeAll => cases hp
  | move | registeredStream | cancelLive | terminal | progress | putResult | putFrame | dropped
  | closeDone => exact hok.pending hp

theorem pendingStream (hok : v.Ok) (h : ViewStep d v o v') (hp : v'.pendingStream = true) :
    v.call.kind.isStream = true := by
  cases h with
  | registeredStream hpc hopen hkind => exact hkind
  | cancelLive | terminal | closeAll => cases hp
  | move | registered | unregistered | result | progress | putResult | putFrame | dropped
  | closeDone => exact hok.pendingStream hp

theorem inbox (hok : v.Ok) (h : ViewStep d v o v') {r : Reply π} (hr : v'.call.inbox = some r) :
    r ∈ v'.put ∧ r.isResult = true := by
  cases h with
  | move l call h => exact hok.inbox r (h.inbox hr)
  | putResult r' flight hflight =>
    cases hr
    have hmem : .unary d r ∈ v.flight := View.head_mem hflight
    exact ⟨List.mem_append_right _ (List.mem_singleton_self r), (hok.suits _ hmem).2⟩
  | putFrame =>
    obtain ⟨hmem, hres⟩ := hok.inbox r hr
    exact ⟨List.mem_append_left _ hmem, hres⟩
  | registered | registeredStream | unregistered | cancelLive | result | terminal | progress
  | dropped | closeAll | closeDone => exact hok.inbox r hr

theorem answered (hok : v.Ok) (h : ViewStep d v o v') (hkind : v.call.kind.isStream = false)
    {r : Reply π} (hr : r ∈ v'.put) :
    v'.call.inbox = some r ∨ v'.call.pc = .unregister ∨ v'.call.pc = .returned := by
  cases h with
  | move l call h => exact (h.ok hok).answered (h.same.1 ▸ hkind) r hr
  | registered hpc | registeredStream hpc =>
    have := hok.answered hkind r hr
    rw [hpc] at this
    simpa using this
  | unregistered => exact .inr (.inr rfl)
  | cancelLive failed hpc hlive =>
    rw [hok.pendingStream hlive] at hkind
    cases hkind
  | putResult r' flight hflight hinbox =>
    obtain hr | hr := List.mem_append.mp hr
    · have := hok.answered hkind r hr
      rw [hinbox] at this
      exact .inr (this.resolve_left (Option.some_ne_none r).symm)
    · exact .inl (congrArg some (List.mem_singleton.mp hr).symm)
  | putFrame r' dl flight hflight hdl =>
    have hsuits := hok.suits dl (View.head_mem hflight)
    obtain rfl | rfl := hdl
    · rw [View.suits, hkind] at hsuits
      cases hsuits
    · rw [View.suits, hkind] at hsuits
      cases hsuits.1
  | result | terminal | progress | dropped | closeAll | closeDone =>
    exact hok.answered hkind r hr

theorem streamed (hok : v.Ok) (h : ViewStep d v o v') (hkind : v.call.kind.isStream = true)
    {r : Reply π} (hr : r ∈ v'.put) : r ∈ v'.call.taken ∨ r ∈ v'.call.frames := by
  cases h with
  | move l call h => exact h.streamed hok hkind hr
  | putResult r' flight hflight =>
    have hsuits := hok.suits _ (View.head_mem hflight)
    rw [View.suits, hkind] at hsuits
    cases hsuits.1
  | putFrame r' dl flight hflight hdl =>
    obtain hr | hr := List.mem_append.mp hr
    · exact (hok.streamed hkind r hr).imp_right (List.mem_append_left _)
    · exact .inr (List.mem_append_right _ hr)
  | registered | registeredStream | unregistered | cancelLive | result | terminal | progress
  | dropped | closeAll | closeDone => exact hok.streamed hkind r hr

theorem waits (hok : v.Ok) (h : ViewStep d v o v')
    (hpc : v'.call.pc = .body ∨ v'.call.pc = .wait) : v.call.kind.isStream = false := by
  cases h with
  | move l call h => exact h.waits hok hpc
  | registered | registeredStream | unregistered | cancelLive => simp at hpc
  | result | terminal | progress | putResult | putFrame | dropped | closeAll | closeDone =>
    exact hok.waits hpc

theorem clean (hok : v.Ok) (h : ViewStep d v o v') (ho : v'.outstanding = true) :
    v'.call.taken = [] ∧ v'.call.err = none := by
  cases h with
  | move l call h => exact h.clean hok ho
  | registered hpc | registeredStream hpc => exact hok.clean (by simp [View.outstanding, hpc])
  | unregistered | cancelLive => cases ho
  | result | terminal | progress | putResult | putFrame | dropped | closeAll | closeDone =>
    exact hok.clean ho

theorem chanClosed (hok : v.Ok) (h : ViewStep d v o v') (hc : v'.call.chanClosed = true) :
    v.call.kind.isStream = false := by
  cases h with
  | move l call h => exact hok.chanClosed (h.same.2.2 ▸ hc)
  | closeAll => exact (Bool.or_eq_true_iff.mp hc).elim hok.pending hok.chanClosed
  | registered | registeredStream | unregistered | cancelLive | result | terminal | progress
  | putResult | putFrame | dropped | closeDone => exact hok.chanClosed hc

theorem cancelled (hok : v.Ok) (h : ViewStep d v o v') {failed : Bool}
    (hpc : v'.call.pc = .cancelSend failed) : v'.call.done = true := by
  cases h with
  | move l call h => exact h.cancelled hpc
  | registered | registeredStream | unregistered | cancelLive => simp at hpc
  | closeDone => rfl
  | result | terminal | progress | putResult | putFrame | dropped | closeAll =>
    exact hok.cancelled failed hpc

theorem ok (hok : v.Ok) (h : ViewStep d v o v') : v'.Ok where
  load_le := by
    have := hok.load_le
    obtain hl | ⟨-, hl⟩ | ⟨hl, -⟩ := h.load hok <;> omega
  fresh := fun hpc => by
    have := hok.fresh (h.pc_register hpc)
    obtain hl | ⟨hne, -⟩ | ⟨hl, -⟩ := h.load hok
    · omega
    · exact absurd hpc hne
    · omega
  awaits := fun ha => by
    obtain hl | ⟨-, hl⟩ | ⟨-, hna⟩ := h.load hok
    · exact (h.awaits hok ha).elim (fun ha => hl.trans (hok.awaits ha)) fun hl => hl
    · exact hl
    · rw [hna] at ha
      cases ha
  closed := h.closed hok
  own := fun dl hdl x hx => by
    rw [h.requestId_eq]
    exact (h.mem_flight hok hdl).elim (fun hdl => hok.own dl hdl x hx) fun hnew => hnew.2 x hx
  ownPut := fun r hr => by
    rw [h.requestId_eq]
    obtain hr | ⟨dl, hdl, ht⟩ := h.mem_put hr
    · exact hok.ownPut r hr
    · exact hok.own dl hdl _ ht
  suits := fun dl hdl => (View.suits_congr h.kind_eq).mpr
    ((h.mem_flight hok hdl).elim (hok.suits dl) fun hnew => hnew.1)
  pending := fun hp => h.kind_eq ▸ h.pending hok hp
  pendingStream := fun hp => h.kind_eq ▸ h.pendingStream hok hp
  inbox := fun _ hr => h.inbox hok hr
  answered := fun hkind _ hr => h.answered hok (h.kind_eq ▸ hkind) hr
  streamed := fun hkind _ hr => h.streamed hok (h.kind_eq ▸ hkind) hr
  waits := fun hpc => h.kind_eq ▸ h.waits hok hpc
  clean := h.clean hok
  chanClosed := fun hc => h.kind_eq ▸ h.chanClosed hok hc
  cancelled := fun _ hpc => h.cancelled hok hpc

end ViewStep

end Hostlink.Controller
