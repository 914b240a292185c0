import Hostlink.Controller.Listeners
import Hostlink.Lib.Run
import Hostlink.Lib.Slots

/-! Calls of `reconcile` and `close` on one manager, step by step. The mutex keeps the loops of two
calls apart; the context may be done at any moment, also while a reconcile has the mutex. -/

namespace Hostlink.Controller

structure ClosePlan where
  closeErr : Nat → Option GoError
  order : List Nat

/-- Where a call stands. A reconcile remembers the listeners it found when it took the mutex. -/
inductive ManagerCall where
  | reconcile (desired : GoMap Nat Unit)
  | closing (before : Listeners) (desired : GoMap Nat Unit) (plan : ReconcilePlan) (todo : List Nat)
  | binding (before : Listeners) (desired : GoMap Nat Unit) (plan : ReconcilePlan) (todo : List Nat)
      (failed : List Nat)
  | reconciled (bound failed : List Nat)
  | close
  | cancel
  | closeLock
  | closeLoop (plan : ClosePlan) (todo : List Nat) (errs : List (Option GoError))
  | closeWait (errs : List (Option GoError))
  | closed

/-- A `listenerManager` and the calls on it. `done` is that of `ctx`, `lock` the call that has `mu`,
`onceTaken` and `onceDone` are the state of `closeOnce`. -/
structure ListenerManager where
  listeners : Listeners := {}
  done : Bool := false
  lock : Option Nat := none
  onceTaken : Bool := false
  onceDone : Bool := false
  closeErr : Option GoError := none
  calls : List ManagerCall := []

inductive ManagerLabel where
  | reconcile (desired : GoMap Nat Unit)
  | close
  | contextDone
  | lockReconcile (i : Nat) (plan : ReconcilePlan)
  | lockClose (i : Nat) (plan : ClosePlan)
  | visit (i : Nat)
  | next (i : Nat)

namespace Listeners

def closePortErr (plan : ClosePlan) (port : Nat) : Option GoError :=
  (plan.closeErr port).bind fun err =>
    if err.is errNetClosed then none
    else some (.wrap ("close public port listener " ++ toString port) err)

end Listeners

namespace ListenerManager

def setCall (s : ListenerManager) (i : Nat) (call : ManagerCall) : ListenerManager :=
  { s with calls := s.calls.set i call }

/-- A call takes the mutex; a reconcile that finds the context done gives it back at once. -/
def lockReconcile (s : ListenerManager) (i : Nat) (plan : ReconcilePlan) : Option ListenerManager :=
  match s.calls[i]?, s.lock with
  | some (.reconcile desired), none =>
    if s.done then some (s.setCall i (.reconciled [] []))
    else if s.listeners.active.Iteration plan.activeOrder ∧ desired.Iteration plan.desiredOrder then
      some { s.setCall i (.closing s.listeners desired plan plan.activeOrder) with lock := some i }
    else none
  | _, _ => none

def lockClose (s : ListenerManager) (i : Nat) (plan : ClosePlan) : Option ListenerManager :=
  match s.calls[i]?, s.lock with
  | some .closeLock, none =>
    if s.listeners.active.Iteration plan.order then
      some { s.setCall i (.closeLoop plan plan.order []) with lock := some i }
    else none
  | _, _ => none

def visit (s : ListenerManager) (i : Nat) : Option ListenerManager :=
  match s.calls[i]? with
  | some (.closing before desired plan (port :: todo)) =>
    some { s.setCall i (.closing before desired plan todo) with
      listeners := s.listeners.closeUndesired desired plan port }
  | some (.binding before desired plan (port :: todo) failed) =>
    let r := Listeners.bindDesired plan (s.listeners, failed) port
    some { s.setCall i (.binding before desired plan todo r.2) with listeners := r.1 }
  | some (.closeLoop plan (port :: todo) errs) =>
    some { s.setCall i (.closeLoop plan todo (errs ++ [Listeners.closePortErr plan port])) with
      listeners := s.listeners.closePort port }
  | _ => none

/-- The other steps of a call. `closeOnce` lets one call of `close` in and the others wait for it. -/
def next (s : ListenerManager) (i : Nat) : Option ListenerManager :=
  match s.calls[i]? with
  | some (.closing before desired plan []) =>
    some (s.setCall i (.binding before desired plan plan.desiredOrder []))
  | some (.binding _ _ _ [] failed) =>
    some { s.setCall i (.reconciled s.listeners.boundPorts (sortedPorts failed)) with lock := none }
  | some .close =>
    if s.onceDone then some (s.setCall i .closed)
    else if s.onceTaken then none
    else some { s.setCall i .cancel with onceTaken := true }
  | some .cancel => some { s.setCall i .closeLock with done := true }
  | some (.closeLoop _ [] errs) => some { s.setCall i (.closeWait errs) with lock := none }
  | some (.closeWait errs) =>
    -- after `wg.Wait`
    some { s.setCall i .closed with onceDone := true, closeErr := GoError.joinAll errs }
  | _ => none

def step (s : ListenerManager) : ManagerLabel → Option ListenerManager
  | .reconcile desired => some { s with calls := s.calls ++ [.reconcile desired] }
  | .close => some { s with calls := s.calls ++ [.close] }
  | .contextDone => some { s with done := true }
  | .lockReconcile i plan => s.lockReconcile i plan
  | .lockClose i plan => s.lockClose i plan
  | .visit i => s.visit i
  | .next i => s.next i

end ListenerManager

namespace ManagerCall

def holds : ManagerCall → Bool
  | .closing .. | .binding .. | .closeLoop .. => true
  | _ => false

def reconciling : ManagerCall → Bool
  | .closing .. | .binding .. => true
  | _ => false

def new : ManagerCall → Bool
  | .reconcile _ | .close => true
  | _ => false

theorem holds_of_new {c : ManagerCall} (h : c.new = true) : c.holds = false := by
  cases c <;> first | rfl | cases h

theorem holds_of_reconciling {c : ManagerCall} (h : c.reconciling = true) : c.holds = true := by
  cases c <;> first | rfl | cases h

end ManagerCall

namespace ListenerManager

inductive CallStep (s : ListenerManager) (i : Nat) : ManagerCall → ListenerManager → Prop
  | refused (desired : GoMap Nat Unit) (hlock : s.lock = none) (hdone : s.done = true) :
      CallStep s i (.reconcile desired) (s.setCall i (.reconciled [] []))
  | locked (desired : GoMap Nat Unit) (plan : ReconcilePlan) (hlock : s.lock = none)
      (hdone : s.done = false) (hactive : s.listeners.active.Iteration plan.activeOrder)
      (hdesired : desired.Iteration plan.desiredOrder) :
      CallStep s i (.reconcile desired)
        { s.setCall i (.closing s.listeners desired plan plan.activeOrder) with lock := some i }
  | closed (before : Listeners) (desired : GoMap Nat Unit) (plan : ReconcilePlan) (port : Nat)
      (todo : List Nat) :
      CallStep s i (.closing before desired plan (port :: todo))
        { s.setCall i (.closing before desired plan todo) with
          listeners := s.listeners.closeUndesired desired plan port }
  | binds (before : Listeners) (desired : GoMap Nat Unit) (plan : ReconcilePlan) :
      CallStep s i (.closing before desired plan [])
        (s.setCall i (.binding before desired plan plan.desiredOrder []))
  | bound (before : Listeners) (desired : GoMap Nat Unit) (plan : ReconcilePlan) (port : Nat)
      (todo failed : List Nat) :
      CallStep s i (.binding before desired plan (port :: todo) failed)
        { s.setCall i (.binding before desired plan todo
            (Listeners.bindDesired plan (s.listeners, failed) port).2) with
          listeners := (Listeners.bindDesired plan (s.listeners, failed) port).1 }
  | returned (before : Listeners) (desired : GoMap Nat Unit) (plan : ReconcilePlan) (failed : List Nat) :
      CallStep s i (.binding before desired plan [] failed)
        { s.setCall i (.reconciled s.listeners.boundPorts (sortedPorts failed)) with lock := none }
  | onceDone (honce : s.onceDone = true) : CallStep s i .close (s.setCall i .closed)
  | once (honce : s.onceTaken = false) :
      CallStep s i .close { s.setCall i .cancel with onceTaken := true }
  | cancels : CallStep s i .cancel { s.setCall i .closeLock with done := true }
  | lockedClose (plan : ClosePlan) (hlock : s.lock = none)
      (hactive : s.listeners.active.Iteration plan.order) :
      CallStep s i .closeLock { s.setCall i (.closeLoop plan plan.order []) with lock := some i }
  | closedPort (plan : ClosePlan) (port : Nat) (todo : List Nat) (errs : List (Option GoError)) :
      CallStep s i (.closeLoop plan (port :: todo) errs)
        { s.setCall i (.closeLoop plan todo (errs ++ [Listeners.closePortErr plan port])) with
          listeners := s.listeners.closePort port }
  | unlocked (plan : ClosePlan) (errs : List (Option GoError)) :
      CallStep s i (.closeLoop plan [] errs) { s.setCall i (.closeWait errs) with lock := none }
  | waited (errs : List (Option GoError)) :
      CallStep s i (.closeWait errs)
        { s.setCall i .closed with onceDone := true, closeErr := GoError.joinAll errs }

theorem step_cases {s t : ListenerManager} {l : ManagerLabel} (h : s.step l = some t) :
    (∃ call, call.new = true ∧ t = { s with calls := s.calls ++ [call] }) ∨
    t = { s with done := true } ∨
    ∃ i call, s.calls[i]? = some call ∧ s.CallStep i call t := by
  cases l with
  | reconcile desired => exact .inl ⟨_, rfl, (Option.some.inj h).symm⟩
  | close => exact .inl ⟨_, rfl, (Option.some.inj h).symm⟩
  | contextDone => exact .inr (.inl (Option.some.inj h).symm)
  | lockReconcile i plan =>
    simp only [step, lockReconcile] at h
    split at h
    · next desired hcall hlock =>
      refine .inr (.inr ⟨i, _, hcall, ?_⟩)
      split at h
      · next hdone => exact Option.some.inj h ▸ .refused desired hlock hdone
      · next hdone =>
        split at h
        · next hiter =>
          exact Option.some.inj h ▸ .locked desired plan hlock (Bool.not_eq_true _ ▸ hdone) hiter.1 hiter.2
        · cases h
    · cases h
  | lockClose i plan =>
    simp only [step, lockClose] at h
    split at h
    · next hcall hlock =>
      split at h
      · next hiter => exact .inr (.inr ⟨i, _, hcall, Option.some.inj h ▸ .lockedClose plan hlock hiter⟩)
      · cases h
    · cases h
  | visit i =>
    simp only [step, visit] at h
    split at h
    · next hcall => exact .inr (.inr ⟨i, _, hcall, Option.some.inj h ▸ .closed ..⟩)
    · next hcall => exact .inr (.inr ⟨i, _, hcall, Option.some.inj h ▸ .bound ..⟩)
    · next hcall => exact .inr (.inr ⟨i, _, hcall, Option.some.inj h ▸ .closedPort ..⟩)
    · cases h
  | next i =>
    simp only [step, next] at h
    split at h
    · next hcall => exact .inr (.inr ⟨i, _, hcall, Option.some.inj h ▸ .binds ..⟩)
    · next hcall => exact .inr (.inr ⟨i, _, hcall, Option.some.inj h ▸ .returned ..⟩)
    · next hcall =>
      refine .inr (.inr ⟨i, _, hcall, ?_⟩)
      split at h
      · next honce => exact Option.some.inj h ▸ .onceDone honce
      · split at h
        · cases h
        · next htaken => exact Option.some.inj h ▸ .once (Bool.not_eq_true _ ▸ htaken)
    · next hcall => exact .inr (.inr ⟨i, _, hcall, Option.some.inj h ▸ .cancels⟩)
    · next hcall => exact .inr (.inr ⟨i, _, hcall, Option.some.inj h ▸ .unlocked ..⟩)
    · next hcall => exact .inr (.inr ⟨i, _, hcall, Option.some.inj h ▸ .waited ..⟩)
    · cases h

end ListenerManager

/-! ### The invariant -/

namespace Listeners
variable {t : Listeners}

def NoLeak (t : Listeners) : Prop :=
  ∀ listener < t.bound, listener ∈ t.closed ∨ ∃ port, t.active.get port = some listener

theorem NoLeak.closePort (h : t.NoLeak) (port : Nat) : (t.closePort port).NoLeak := by
  unfold Listeners.closePort
  cases hget : t.active.get port with
  | none => exact h
  | some listener =>
    intro other hother
    rcases h other hother with hclosed | ⟨q, hq⟩
    · exact .inl (List.mem_append_left _ hclosed)
    · rcases eq_or_ne q port with rfl | hne
      · rw [hget] at hq
        exact .inl (List.mem_append_right _ (List.mem_singleton.mpr (Option.some.inj hq).symm))
      · exact .inr ⟨q, (GoMap.get_erase_of_ne _ hne).trans hq⟩

theorem NoLeak.closeUndesired (h : t.NoLeak) (desired : GoMap Nat Unit) (plan : ReconcilePlan)
    (port : Nat) : (t.closeUndesired desired plan port).NoLeak := by
  have hclose := h.closePort port
  unfold Listeners.closeUndesired
  unfold Listeners.closePort at hclose
  split
  · exact h
  · cases hget : t.active.get port with
    | none => exact h
    | some listener =>
      simp only [hget] at hclose ⊢
      split
      · intro other hother
        exact (h other hother).imp_left fun hclosed => List.mem_append_left _ hclosed
      · exact hclose

theorem NoLeak.bindDesired {failed : List Nat} (h : t.NoLeak) (plan : ReconcilePlan) (port : Nat) :
    (Listeners.bindDesired plan (t, failed) port).1.NoLeak := by
  unfold Listeners.bindDesired
  split
  · exact h
  · next hfree =>
    split
    · exact h
    · cases plan.listenErr port with
      | some err => exact h
      | none =>
        intro listener hlt
        rcases Nat.lt_succ_iff_lt_or_eq.mp hlt with hold | rfl
        · refine (h listener hold).imp_right ?_
          rintro ⟨q, hq⟩
          have hne : q ≠ port := by
            rintro rfl
            rw [hq] at hfree
            exact hfree rfl
          exact ⟨q, (GoMap.get_insert_of_ne _ hne _).trans hq⟩
        · exact .inr ⟨port, GoMap.get_insert_self ..⟩

theorem get_closePort (t : Listeners) (port q : Nat) :
    (t.closePort q).active.get port = if port = q then none else t.active.get port := by
  unfold closePort
  rcases eq_or_ne port q with rfl | hne
  · cases hget : t.active.get port <;> simp [hget]
  · cases t.active.get q with
    | none => simp [hne]
    | some listener => simp [hne, GoMap.get_erase_of_ne]

end Listeners

namespace ListenerManager
variable {s t : ListenerManager} {i : Nat} {call : ManagerCall}

structure Quiet (s : ListenerManager) : Prop where
  done : s.done = true
  empty : ∀ port, s.listeners.active.get port = none
  calls : ∀ c ∈ s.calls, c.reconciling = false

def Stage (s : ListenerManager) : ManagerCall → Prop
  | .closing before desired plan todo => ∃ visited, plan.activeOrder = visited ++ todo ∧
      s.listeners = visited.foldl (Listeners.closeUndesired desired plan) before ∧
      before.active.Iteration plan.activeOrder ∧ desired.Iteration plan.desiredOrder
  | .binding before desired plan todo failed => ∃ visited, plan.desiredOrder = visited ++ todo ∧
      (s.listeners, failed) = visited.foldl (Listeners.bindDesired plan)
        (plan.activeOrder.foldl (Listeners.closeUndesired desired plan) before, []) ∧
      before.active.Iteration plan.activeOrder ∧ desired.Iteration plan.desiredOrder
  | .closeLock => s.done = true
  | .closeLoop _ todo _ => s.done = true ∧
      ∀ port, s.listeners.active.get port ≠ none → port ∈ todo
  | .closeWait _ | .closed => s.Quiet
  | .reconcile _ | .reconciled _ _ | .close | .cancel => True

structure Inv (s : ListenerManager) : Prop where
  noLeak : s.listeners.NoLeak
  lock : ∀ (i : Nat) c, s.calls[i]? = some c → c.holds = true → s.lock = some i
  stages : ∀ (i : Nat) c, s.calls[i]? = some c → s.Stage c
  once : s.onceDone = true → s.Quiet

theorem inv_init : ({} : ListenerManager).Inv where
  noLeak := by rintro listener ⟨⟩
  lock := by rintro i c ⟨⟩
  stages := by rintro i c ⟨⟩
  once := by rintro ⟨⟩

theorem CallStep.frame (h : s.CallStep i call t) :
    (∃ call', t.calls = s.calls.set i call') ∧ (s.done = true → t.done = true) ∧
      (call.holds = false → t.listeners = s.listeners) := by
  cases h with
  | cancels => exact ⟨⟨_, rfl⟩, fun _ => rfl, fun _ => rfl⟩
  | closed | bound | closedPort => exact ⟨⟨_, rfl⟩, id, by rintro ⟨⟩⟩
  | refused | locked | binds | returned | onceDone | once | lockedClose | unlocked | waited =>
    exact ⟨⟨_, rfl⟩, id, fun _ => rfl⟩

theorem Quiet.set (h : s.Quiet) {call' : ManagerCall} (hcall : call'.reconciling = false) :
    ∀ c ∈ s.calls.set i call', c.reconciling = false := by
  intro c hc
  rcases List.mem_or_eq_of_mem_set hc with hold | rfl
  · exact h.calls c hold
  · exact hcall

theorem Quiet.closePort (h : s.Quiet) (port : Nat) : s.listeners.closePort port = s.listeners := by
  rw [Listeners.closePort, h.empty port]

theorem Quiet.callStep (h : s.Quiet) (hcall : s.calls[i]? = some call) (hstep : s.CallStep i call t) :
    t.Quiet ∧ t.listeners = s.listeners := by
  have hnot := h.calls call (List.mem_of_getElem? hcall)
  cases hstep with
  | locked desired plan hlock hdone =>
    rw [h.done] at hdone
    cases hdone
  | closed | binds | bound | returned => cases hnot
  | closedPort plan port todo errs =>
    have hsame := h.closePort port
    exact ⟨⟨h.done, fun q => by rw [hsame]; exact h.empty q, h.set rfl⟩, hsame⟩
  | cancels => exact ⟨⟨rfl, h.empty, h.set rfl⟩, rfl⟩
  | refused | onceDone | once | lockedClose | unlocked | waited =>
    exact ⟨⟨h.done, h.empty, h.set rfl⟩, rfl⟩

theorem Stage.mono {c : ManagerCall} (h : s.Stage c)
    (hlisteners : c.holds = true → t.listeners = s.listeners)
    (hdone : s.done = true → t.done = true) (hquiet : s.Quiet → t.Quiet) : t.Stage c := by
  cases c with
  | closing before desired plan todo =>
    rw [Stage, hlisteners rfl]
    exact h
  | binding before desired plan todo failed =>
    rw [Stage, hlisteners rfl]
    exact h
  | closeLock => exact hdone h
  | closeLoop plan todo errs =>
    rw [Stage, hlisteners rfl]
    exact ⟨hdone h.1, h.2⟩
  | closeWait | closed => exact hquiet h
  | reconcile | reconciled | close | cancel => trivial

theorem Stage.other {c : ManagerCall} {j : Nat} (h : s.Stage c) (hs : s.Inv) (hj : s.calls[j]? = some c)
    (hne : j ≠ i) (hcall : s.calls[i]? = some call) (hstep : s.CallStep i call t) : t.Stage c := by
  obtain ⟨-, hdone, hsame⟩ := hstep.frame
  refine h.mono (fun hholds => hsame (Bool.not_eq_true _ ▸ fun hother => hne ?_)) hdone
    fun hquiet => (hquiet.callStep hcall hstep).1
  exact Option.some.inj ((hs.lock j c hj hholds).symm.trans (hs.lock i call hcall hother))

theorem CallStep.stage (hs : s.Inv) (hcall : s.calls[i]? = some call) (hstep : s.CallStep i call t)
    {c : ManagerCall} (hc : t.calls[i]? = some c) : t.Stage c := by
  have hstage := hs.stages i call hcall
  have hlt : i < s.calls.length := (List.getElem?_eq_some_iff.mp hcall).1
  have hself : ∀ c', (s.calls.set i c')[i]? = some c → c = c' := by
    intro c' hc'
    rw [List.getElem?_set_self hlt] at hc'
    exact (Option.some.inj hc').symm
  cases hstep with
  | refused => obtain rfl := hself _ hc; trivial
  | once => obtain rfl := hself _ hc; trivial
  | returned => obtain rfl := hself _ hc; trivial
  | cancels => obtain rfl := hself _ hc; rfl
  | locked desired plan hlock hdone hactive hdesired =>
    obtain rfl := hself _ hc
    exact ⟨[], rfl, rfl, hactive, hdesired⟩
  | closed before desired plan port todo =>
    obtain rfl := hself _ hc
    obtain ⟨visited, horder, hlisteners, hiter⟩ := hstage
    refine ⟨visited ++ [port], by rw [horder, List.append_assoc]; rfl, ?_, hiter⟩
    rw [List.foldl_concat, ← hlisteners]
  | binds before desired plan =>
    obtain rfl := hself _ hc
    obtain ⟨visited, horder, hlisteners, hiter⟩ := hstage
    rw [List.append_nil] at horder
    refine ⟨[], rfl, ?_, hiter⟩
    rw [horder, List.foldl_nil, ← hlisteners]
    rfl
  | bound before desired plan port todo failed =>
    obtain rfl := hself _ hc
    obtain ⟨visited, horder, hlisteners, hiter⟩ := hstage
    refine ⟨visited ++ [port], by rw [horder, List.append_assoc]; rfl, ?_, hiter⟩
    rw [List.foldl_concat, ← hlisteners]
  | onceDone honce =>
    obtain rfl := hself _ hc
    exact ((hs.once honce).callStep hcall (.onceDone honce)).1
  | lockedClose plan hlock hactive =>
    obtain rfl := hself _ hc
    exact ⟨hstage, fun port hport => (hactive.visits port).mpr hport⟩
  | closedPort plan port todo errs =>
    obtain rfl := hself _ hc
    refine ⟨hstage.1, fun q hq => ?_⟩
    dsimp only at hq
    rw [Listeners.get_closePort] at hq
    split at hq
    · exact absurd rfl hq
    · next hne => exact (List.mem_cons.mp (hstage.2 q hq)).resolve_left hne
  | unlocked plan errs =>
    obtain rfl := hself _ hc
    refine ⟨hstage.1, fun port => ?_, fun c' hc' => ?_⟩
    · by_contra hsome
      exact absurd (hstage.2 port hsome) List.not_mem_nil
    · -- a reconcile in a loop would have the mutex as well
      rcases List.mem_or_eq_of_mem_set hc' with hold | rfl
      · obtain ⟨j, hj⟩ := List.mem_iff_getElem?.mp hold
        rw [← Bool.not_eq_true]
        intro hloop
        have hlock := hs.lock j c' hj (ManagerCall.holds_of_reconciling hloop)
        rw [hs.lock i _ hcall rfl] at hlock
        rw [← Option.some.inj hlock, hcall] at hj
        obtain rfl := Option.some.inj hj
        cases hloop
      · rfl
  | waited errs =>
    obtain rfl := hself _ hc
    exact (Quiet.callStep hstage hcall (.waited errs)).1

theorem CallStep.noLeak (h : s.CallStep i call t) (hs : s.listeners.NoLeak) : t.listeners.NoLeak := by
  cases h with
  | closed => exact hs.closeUndesired _ _ _
  | bound => exact hs.bindDesired _ _
  | closedPort => exact hs.closePort _
  | refused | locked | binds | returned | onceDone | once | cancels | lockedClose | unlocked | waited =>
    exact hs

theorem CallStep.lock (hs : s.Inv) (hcall : s.calls[i]? = some call) (hstep : s.CallStep i call t)
    {j : Nat} {c : ManagerCall} (hc : t.calls[j]? = some c) (hholds : c.holds = true) :
    t.lock = some j := by
  have hother : ∀ c', (s.calls.set i c')[j]? = some c → c'.holds = false → s.lock = some j ∧ j ≠ i := by
    intro c' hc' hfree
    rcases List.getElem?_of_set hc' with ⟨hne, hold⟩ | ⟨-, rfl⟩
    · exact ⟨hs.lock j c hold hholds, hne⟩
    · rw [hholds] at hfree
      cases hfree
  have hown : call.holds = true → s.lock = some i := hs.lock i call hcall
  cases hstep with
  | locked desired plan hlock =>
    rcases List.getElem?_of_set hc with ⟨hne, hold⟩ | ⟨rfl, -⟩
    · rw [hs.lock j c hold hholds] at hlock
      cases hlock
    · rfl
  | lockedClose plan hlock =>
    rcases List.getElem?_of_set hc with ⟨hne, hold⟩ | ⟨rfl, -⟩
    · rw [hs.lock j c hold hholds] at hlock
      cases hlock
    · rfl
  | closed | binds | bound | closedPort =>
    rcases List.getElem?_of_set hc with ⟨hne, hold⟩ | ⟨rfl, -⟩
    · exact hs.lock j c hold hholds
    · exact hown rfl
  | returned | unlocked =>
    obtain ⟨hlock, hne⟩ := hother _ hc rfl
    exact absurd (Option.some.inj (hlock.symm.trans (hown rfl))) hne
  | refused | onceDone | once | cancels | waited => exact (hother _ hc rfl).1

theorem Inv.callStep (hs : s.Inv) (hcall : s.calls[i]? = some call) (hstep : s.CallStep i call t) :
    t.Inv where
  noLeak := hstep.noLeak hs.noLeak
  lock := fun _ _ hc hholds => hstep.lock hs hcall hc hholds
  stages := by
    intro j c hc
    rcases eq_or_ne j i with rfl | hne
    · exact hstep.stage hs hcall hc
    · obtain ⟨⟨call', hcalls⟩, -, -⟩ := hstep.frame
      rw [hcalls, List.getElem?_set_ne hne.symm] at hc
      exact (hs.stages j c hc).other hs hc hne hcall hstep
  once := by
    intro honce
    have hquiet : s.onceDone = true ∨ ∃ errs, call = .closeWait errs := by
      cases hstep with
      | waited errs => exact .inr ⟨errs, rfl⟩
      | refused | locked | closed | binds | bound | returned | onceDone | once | cancels | lockedClose
      | closedPort | unlocked => exact .inl honce
    rcases hquiet with hdone | ⟨errs, rfl⟩
    · exact ((hs.once hdone).callStep hcall hstep).1
    · exact (Quiet.callStep (hs.stages i _ hcall) hcall hstep).1

theorem Quiet.concat (h : s.Quiet) (hnew : call.new = true) :
    Quiet { s with calls := s.calls ++ [call] } := by
  refine ⟨h.done, h.empty, List.forall_mem_append.mpr ⟨h.calls, List.forall_mem_singleton.mpr ?_⟩⟩
  cases call <;> first | rfl | cases hnew

theorem Quiet.contextDone (h : s.Quiet) : Quiet { s with done := true } := ⟨rfl, h.empty, h.calls⟩

theorem Inv.step {l : ManagerLabel} (hs : s.Inv) (h : s.step l = some t) : t.Inv := by
  obtain ⟨call, hnew, rfl⟩ | rfl | ⟨i, call, hcall, hstep⟩ := step_cases h
  · refine ⟨hs.noLeak, fun j c hc hholds => ?_, fun j c hc => ?_, fun honce => (hs.once honce).concat hnew⟩
    · rcases List.getElem?_of_concat hc with hold | ⟨-, rfl⟩
      · exact hs.lock j c hold hholds
      · rw [ManagerCall.holds_of_new hnew] at hholds
        cases hholds
    · rcases List.getElem?_of_concat hc with hold | ⟨-, rfl⟩
      · exact (hs.stages j c hold).mono (fun _ => rfl) id fun hquiet => hquiet.concat hnew
      · cases c <;> trivial
  · exact ⟨hs.noLeak, hs.lock, fun j c hc => (hs.stages j c hc).mono (fun _ => rfl)
      (fun _ => rfl) Quiet.contextDone, fun honce => (hs.once honce).contextDone⟩
  · exact hs.callStep hcall hstep

theorem inv_of_run {ls : List ManagerLabel} (h : Lts.AnyRun ListenerManager.step {} ls s) : s.Inv :=
  h.invariant (fun _ _ _ hs _ hstep => hs.step hstep) inv_init

/-- A reconcile that returns has done what the function does, from the listeners that it found when it
took the mutex, whatever the other calls did meanwhile. -/
theorem reconcile_of_run {ls : List ManagerLabel} {before : Listeners} {desired : GoMap Nat Unit}
    {plan : ReconcilePlan} {failed : List Nat} (h : Lts.AnyRun ListenerManager.step {} ls s)
    (hcall : s.calls[i]? = some (.binding before desired plan [] failed)) :
    Listeners.reconcile desired plan before false =
        (s.listeners, s.listeners.boundPorts, sortedPorts failed) ∧
      Reconciled desired plan before s.listeners s.listeners.boundPorts (sortedPorts failed) := by
  obtain ⟨visited, horder, hlisteners, hactive, hdesired⟩ := (inv_of_run h).stages i _ hcall
  rw [List.append_nil] at horder
  rw [← horder] at hlisteners
  have hreconcile : Listeners.reconcile desired plan before false =
      (s.listeners, s.listeners.boundPorts, sortedPorts failed) := by
    simp only [Listeners.reconcile, ← hlisteners]
    rfl
  have hspec := Listeners.reconcile_spec desired plan before hactive hdesired
  rw [hreconcile] at hspec
  exact ⟨hreconcile, hspec⟩

structure After (s t : ListenerManager) : Prop where
  quiet : t.Quiet
  listeners : t.listeners = s.listeners
  returned : ∀ (i : Nat) bound failed, t.calls[i]? = some (.reconciled bound failed) →
    s.calls[i]? = some (.reconciled bound failed) ∨ bound = [] ∧ failed = []

theorem After.callStep {u : ListenerManager} (h : s.After t) (hcall : t.calls[i]? = some call)
    (hstep : t.CallStep i call u) : s.After u := by
  obtain ⟨hquiet, hsame⟩ := h.quiet.callStep hcall hstep
  refine ⟨hquiet, hsame.trans h.listeners, fun j bound failed hj => ?_⟩
  have hset : ∀ call', u.calls = t.calls.set i call' →
      (∀ b f, call' = .reconciled b f → b = [] ∧ f = []) →
      s.calls[j]? = some (.reconciled bound failed) ∨ bound = [] ∧ failed = [] := by
    intro call' hcalls hempty
    rw [hcalls] at hj
    rcases List.getElem?_of_set hj with ⟨-, hold⟩ | ⟨-, heq⟩
    · exact h.returned j bound failed hold
    · exact .inr (hempty bound failed heq.symm)
  have hnot := h.quiet.calls call (List.mem_of_getElem? hcall)
  cases hstep with
  | refused => exact hset _ rfl (by rintro b f ⟨⟩; exact ⟨rfl, rfl⟩)
  | closed | binds | bound | returned => cases hnot
  | locked | onceDone | once | cancels | lockedClose | closedPort | unlocked | waited =>
    exact hset _ rfl (by rintro b f ⟨⟩)

theorem After.step {u : ListenerManager} {l : ManagerLabel} (h : s.After t) (hstep : t.step l = some u) :
    s.After u := by
  obtain ⟨call, hnew, rfl⟩ | rfl | ⟨i, call, hcall, hcallStep⟩ := step_cases hstep
  · refine ⟨h.quiet.concat hnew, h.listeners, fun i bound failed hi => ?_⟩
    rcases List.getElem?_of_concat hi with hold | ⟨-, rfl⟩
    · exact h.returned i bound failed hold
    · cases hnew
  · exact ⟨h.quiet.contextDone, h.listeners, h.returned⟩
  · exact h.callStep hcall hcallStep

theorem Quiet.after {ls : List ManagerLabel} (hs : s.Quiet) (h : Lts.AnyRun ListenerManager.step s ls t) :
    s.After t :=
  h.invariant (fun _ _ _ hu _ hstep => hu.step hstep) ⟨hs, rfl, fun _ _ _ => .inl⟩

end ListenerManager

/-- A reconcile converges in every order and with every outcome; and once `close` has returned, in
whatever way its steps met those of other calls, no listener is left and none comes back. -/
theorem listeners_converge :
    (∀ (desired : GoMap Nat Unit) (plan : ReconcilePlan) (before : Listeners),
      before.active.Iteration plan.activeOrder → desired.Iteration plan.desiredOrder →
      let r := Listeners.reconcile desired plan before false
      Reconciled desired plan before r.1 r.2.1 r.2.2) ∧
    ∀ ls s, Lts.AnyRun ListenerManager.step {} ls s → (∃ i : Nat, s.calls[i]? = some .closed) →
      (∀ port, s.listeners.active.get port = none) ∧
      (∀ listener < s.listeners.bound, listener ∈ s.listeners.closed) ∧
      ∀ ls' t, Lts.AnyRun ListenerManager.step s ls' t → t.listeners = s.listeners ∧
        ∀ (i : Nat) bound failed, t.calls[i]? = some (.reconciled bound failed) →
          s.calls[i]? = some (.reconciled bound failed) ∨ bound = [] ∧ failed = [] := by
  refine ⟨Listeners.reconcile_spec, ?_⟩
  rintro ls s hrun ⟨i, hclosed⟩
  have hs := ListenerManager.inv_of_run hrun
  have hquiet : s.Quiet := hs.stages i _ hclosed
  refine ⟨hquiet.empty, fun listener hlt => ?_, fun ls' t hrun' => ?_⟩
  · rcases hs.noLeak listener hlt with hlisted | ⟨port, hport⟩
    · exact hlisted
    · rw [hquiet.empty port] at hport
      cases hport
  · have hafter := hquiet.after hrun'
    exact ⟨hafter.listeners, hafter.returned⟩

def closeDuringReconcile : List ManagerLabel :=
  let plan : ReconcilePlan := ⟨fun _ => none, fun _ => none, [], [8000, 8001]⟩
  [.reconcile (portSet [8001, 8000]), .close, .lockReconcile 0 plan, .next 0, .visit 0, .next 1, .next 1,
    .visit 0, .next 0, .lockClose 1 ⟨fun _ => none, [8001, 8000]⟩, .visit 1, .visit 1, .next 1, .next 1,
    .reconcile (portSet [8002]), .lockReconcile 2 plan]

theorem listeners_converge_close : ∃ s, Lts.AnyRun ListenerManager.step {} closeDuringReconcile s ∧
    s.listeners.bound = 2 ∧ (∀ port, s.listeners.active.get port = none) ∧
    ∀ listener < s.listeners.bound, listener ∈ s.listeners.closed := by
  let s := (Lts.exec ListenerManager.step {} closeDuringReconcile).get (by decide +kernel)
  have hrun := Lts.anyRun_of_exec (t := s) (Option.some_get _).symm
  have hclosed : ∃ i : Nat, s.calls[i]? = some .closed := ⟨1, by rfl⟩
  have hconverge := listeners_converge.2 _ s hrun hclosed
  exact ⟨s, hrun, by decide +kernel, hconverge.1, hconverge.2.1⟩

theorem reconcile_of_run_close : ∃ s before desired plan,
    Lts.AnyRun ListenerManager.step {} (closeDuringReconcile.take 8) s ∧ s.done = true ∧
    Listeners.reconcile desired plan before false = (s.listeners, s.listeners.boundPorts, []) := by
  let s := (Lts.exec ListenerManager.step {} (closeDuringReconcile.take 8)).get (by decide +kernel)
  have hrun := Lts.anyRun_of_exec (t := s) (Option.some_get _).symm
  have hcall : s.calls[0]? = some (.binding {} (portSet [8001, 8000])
      ⟨fun _ => none, fun _ => none, [], [8000, 8001]⟩ [] []) := by rfl
  exact ⟨s, _, _, _, hrun, rfl, (ListenerManager.reconcile_of_run hrun hcall).1⟩

end Hostlink.Controller
