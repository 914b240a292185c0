import Hostlink.Controller.ListenerShutdown
import Hostlink.Lib.Backoff

/-! The accept loops of a `listenerManager`, one goroutine for each listener it bound, beside the calls of
`reconcile` and `close`. `Close` of a listener makes its `Accept` return `net.ErrClosed`, whatever it
returned itself; until then `Accept` may return a connection or fail at any moment. -/

namespace Hostlink.Controller

/-- A `time.Duration` counts nanoseconds. -/
def millisecond : Nat := 1000000

def initialAcceptBackoff : Nat := 100 * millisecond

def maximumAcceptBackoff : Nat := 1000 * millisecond

def nextAcceptBackoff (backoff : Nat) : Nat :=
  if maximumAcceptBackoff / 2 ≤ backoff then maximumAcceptBackoff else backoff * 2

inductive AcceptResult where
  | conn (tcp : Bool)
  | failed
  | closed

inductive AcceptPc where
  | accept
  | accepted (conn : Nat)
  | retry
  | returned
  deriving DecidableEq

/-- The loop of one listener. `failures` counts the calls of `Accept` that failed since the last one that
did not. -/
structure AcceptLoop where
  pc : AcceptPc := .accept
  backoff : Nat := initialAcceptBackoff
  failures : Nat := 0

/-- A connection that `Accept` returned, with the handlers started for it and the calls of its `Close` by
the loop. -/
structure AcceptedConn where
  listener : Nat
  tcp : Bool
  handlers : Nat := 0
  closes : Nat := 0

/-- A manager with its loops, by the numbers of their listeners. -/
structure AcceptLoops where
  manager : ListenerManager := {}
  wg : Nat := 0
  loops : List AcceptLoop := []
  conns : List AcceptedConn := []

inductive AcceptLabel where
  | manager (l : ManagerLabel)
  | accept (i : Nat) (result : AcceptResult)
  | goOn (i : Nat)
  | timer (i : Nat)
  | cancelled (i : Nat)

def ListenerManager.waits (m : ListenerManager) : ManagerLabel → Bool
  | .next i => match m.calls[i]? with
    | some (.closeWait _) => true
    | _ => false
  | _ => false

/-- What the loop does with the connection: a handler of its own, or `rejectNonTCPConnection`. -/
def AcceptedConn.handOver (conn : AcceptedConn) : AcceptedConn :=
  if conn.tcp then { conn with handlers := conn.handlers + 1 } else { conn with closes := conn.closes + 1 }

namespace AcceptLoops

def setLoop (s : AcceptLoops) (i : Nat) (loop : AcceptLoop) : AcceptLoops :=
  { s with loops := s.loops.set i loop }

def leave (s : AcceptLoops) (i : Nat) (loop : AcceptLoop) : AcceptLoops :=
  { s.setLoop i { loop with pc := .returned } with wg := s.wg - 1 }

/-- `wg.Add(1)` and `go m.accept` for every listener that a step of the manager bound. -/
def started (s : AcceptLoops) (m : ListenerManager) : AcceptLoops :=
  let new := m.listeners.bound - s.manager.listeners.bound
  { s with manager := m, wg := s.wg + new, loops := s.loops ++ List.replicate new {} }

def stepLoop (s : AcceptLoops) (i : Nat) (loop : AcceptLoop) : AcceptLabel → Option AcceptLoops
  | .accept _ (.conn tcp) =>
    if loop.pc = .accept ∧ i ∉ s.manager.listeners.closed then
      some { s.setLoop i { pc := .accepted s.conns.length } with
        conns := s.conns ++ [{ listener := i, tcp := tcp }] }
    else none
  | .accept _ .failed =>
    if loop.pc = .accept ∧ i ∉ s.manager.listeners.closed then
      some (s.setLoop i { loop with pc := .retry, failures := loop.failures + 1 })
    else none
  | .accept _ .closed =>
    if loop.pc = .accept ∧ i ∈ s.manager.listeners.closed then some (s.leave i loop) else none
  | .goOn _ => match loop.pc with
    | .accepted c => (s.conns[c]?).map fun conn =>
        { s.setLoop i { loop with pc := .accept } with conns := s.conns.set c conn.handOver }
    | _ => none
  | .timer _ =>
    if loop.pc = .retry then
      some (s.setLoop i { loop with pc := .accept, backoff := nextAcceptBackoff loop.backoff })
    else none
  | .cancelled _ => if loop.pc = .retry ∧ s.manager.done = true then some (s.leave i loop) else none
  | .manager _ => none

def loopOf : AcceptLabel → Option Nat
  | .manager _ => none
  | .accept i _ | .goOn i | .timer i | .cancelled i => some i

def step (s : AcceptLoops) (l : AcceptLabel) : Option AcceptLoops :=
  match l with
  | .manager l => if s.manager.waits l ∧ s.wg ≠ 0 then none else (s.manager.step l).map s.started
  | l => (loopOf l).bind fun i => (s.loops[i]?).bind fun loop => s.stepLoop i loop l

end AcceptLoops

/-! ### What a step can do -/

namespace AcceptLoops
variable {s t : AcceptLoops} {i : Nat} {loop : AcceptLoop}

inductive LoopStep (s : AcceptLoops) (i : Nat) (loop : AcceptLoop) : AcceptLoops → Prop
  | conn (tcp : Bool) (hpc : loop.pc = .accept) (hopen : i ∉ s.manager.listeners.closed) :
      LoopStep s i loop { s.setLoop i { pc := .accepted s.conns.length } with
        conns := s.conns ++ [{ listener := i, tcp := tcp }] }
  | failed (hpc : loop.pc = .accept) (hopen : i ∉ s.manager.listeners.closed) :
      LoopStep s i loop (s.setLoop i { loop with pc := .retry, failures := loop.failures + 1 })
  | handOver (c : Nat) (conn : AcceptedConn) (hpc : loop.pc = .accepted c) (hc : s.conns[c]? = some conn) :
      LoopStep s i loop
        { s.setLoop i { loop with pc := .accept } with conns := s.conns.set c conn.handOver }
  | timer (hpc : loop.pc = .retry) : LoopStep s i loop
      (s.setLoop i { loop with pc := .accept, backoff := nextAcceptBackoff loop.backoff })
  | leave (hpc : loop.pc = .accept ∧ i ∈ s.manager.listeners.closed ∨ loop.pc = .retry ∧ s.manager.done = true) :
      LoopStep s i loop (s.leave i loop)

theorem stepLoop_cases {l : AcceptLabel} (h : s.stepLoop i loop l = some t) : s.LoopStep i loop t := by
  cases l with
  | manager => cases h
  | accept j result =>
    cases result with
    | conn tcp =>
      obtain ⟨hif, ⟨⟩⟩ := Option.ite_none_right_eq_some.mp h
      exact .conn tcp hif.1 hif.2
    | failed =>
      obtain ⟨hif, ⟨⟩⟩ := Option.ite_none_right_eq_some.mp h
      exact .failed hif.1 hif.2
    | closed =>
      obtain ⟨hif, ⟨⟩⟩ := Option.ite_none_right_eq_some.mp h
      exact .leave (.inl hif)
  | goOn j =>
    cases hpc : loop.pc with
    | accepted c =>
      rw [stepLoop, hpc] at h
      obtain ⟨conn, hc, rfl⟩ := Option.map_eq_some_iff.mp h
      exact .handOver c conn hpc hc
    | accept | retry | returned => simp [stepLoop, hpc] at h
  | timer j =>
    obtain ⟨hpc, ⟨⟩⟩ := Option.ite_none_right_eq_some.mp h
    exact .timer hpc
  | cancelled j =>
    obtain ⟨hif, ⟨⟩⟩ := Option.ite_none_right_eq_some.mp h
    exact .leave (.inr hif)

theorem step_cases {l : AcceptLabel} (h : s.step l = some t) :
    (∃ k m, l = .manager k ∧ s.manager.step k = some m ∧ (s.manager.waits k = true → s.wg = 0) ∧
      t = s.started m) ∨
    ∃ i loop, loopOf l = some i ∧ s.loops[i]? = some loop ∧ s.LoopStep i loop t := by
  have hloop : ((loopOf l).bind fun i => (s.loops[i]?).bind fun loop => s.stepLoop i loop l) = some t →
      ∃ i loop, loopOf l = some i ∧ s.loops[i]? = some loop ∧ s.LoopStep i loop t := by
    intro h
    obtain ⟨i, hi, h⟩ := Option.bind_eq_some_iff.mp h
    obtain ⟨loop, hget, h⟩ := Option.bind_eq_some_iff.mp h
    exact ⟨i, loop, hi, hget, stepLoop_cases h⟩
  cases l with
  | manager k =>
    obtain ⟨hwait, h⟩ := Option.ite_none_left_eq_some.mp h
    obtain ⟨m, hm, rfl⟩ := Option.map_eq_some_iff.mp h
    refine .inl ⟨k, m, rfl, hm, fun hwaits => ?_, rfl⟩
    by_contra hne
    exact hwait ⟨hwaits, hne⟩
  | accept | goOn | timer | cancelled => exact .inr (hloop h)

end AcceptLoops

/-! ### Steps of the manager -/

namespace Listeners
variable {t : Listeners}

structure Grows (t u : Listeners) : Prop where
  bound : t.bound ≤ u.bound
  closed : ∀ listener ∈ t.closed, listener ∈ u.closed

theorem Grows.refl (t : Listeners) : t.Grows t := ⟨Nat.le_refl _, fun _ => id⟩

theorem closePort_grows (t : Listeners) (port : Nat) : t.Grows (t.closePort port) := by
  unfold closePort
  split
  · exact .refl t
  · exact ⟨Nat.le_refl _, fun _ => List.mem_append_left _⟩

theorem closeUndesired_grows (t : Listeners) (desired : GoMap Nat Unit) (plan : ReconcilePlan) (port : Nat) :
    t.Grows (t.closeUndesired desired plan port) := by
  unfold closeUndesired
  split
  · exact .refl t
  · cases t.active.get port with
    | none => exact .refl t
    | some listener =>
      dsimp only
      split <;> exact ⟨Nat.le_refl _, fun _ => List.mem_append_left _⟩

theorem bindDesired_grows (t : Listeners) (plan : ReconcilePlan) (failed : List Nat) (port : Nat) :
    t.Grows (bindDesired plan (t, failed) port).1 := by
  unfold bindDesired
  split
  · exact .refl t
  · split
    · exact .refl t
    · cases plan.listenErr port with
      | some err => exact .refl t
      | none => exact ⟨Nat.le_succ _, fun _ => id⟩

end Listeners

namespace ListenerManager
variable {m m' : ListenerManager} {l : ManagerLabel}

theorem grows_of_step (h : m.step l = some m') :
    m.listeners.Grows m'.listeners ∧ (m.done = true → m'.done = true) := by
  obtain ⟨call, -, rfl⟩ | rfl | ⟨i, call, -, hstep⟩ := step_cases h
  · exact ⟨.refl _, id⟩
  · exact ⟨.refl _, fun _ => rfl⟩
  · refine ⟨?_, hstep.frame.2.1⟩
    cases hstep with
    | closed => exact Listeners.closeUndesired_grows ..
    | bound => exact Listeners.bindDesired_grows ..
    | closedPort => exact Listeners.closePort_grows ..
    | refused | locked | binds | returned | onceDone | once | cancels | lockedClose | unlocked | waited =>
      exact .refl _

theorem onceDone_of_step (h : m.step l = some m') (hwaits : m.waits l = false) :
    m'.onceDone = m.onceDone := by
  cases l with
  | reconcile | close | contextDone =>
    obtain rfl := Option.some.inj h
    rfl
  | lockReconcile | lockClose | visit | next =>
    grind [step, lockReconcile, lockClose, visit, next, waits, setCall]

theorem returned_of_step (h : m.step l = some m') (hm : .closed ∈ m.calls → m.onceDone = true)
    (hclosed : .closed ∈ m'.calls) : m'.onceDone = true := by
  obtain ⟨call, hnew, rfl⟩ | rfl | ⟨i, call, -, hstep⟩ := step_cases h
  · rcases List.mem_append.mp hclosed with hold | hcall
    · exact hm hold
    · obtain rfl := List.mem_singleton.mp hcall
      cases hnew
  · exact hm hclosed
  · cases hstep with
    | onceDone honce => exact honce
    | waited => rfl
    | refused | locked | closed | binds | bound | returned | once | cancels | lockedClose | closedPort
    | unlocked =>
      rcases List.mem_or_eq_of_mem_set hclosed with hold | hcall
      · exact hm hold
      · cases hcall

theorem Inv.quiet_of_waits (hm : m.Inv) (hwaits : m.waits l = true) : m.Quiet := by
  cases l with
  | next i =>
    rw [waits] at hwaits
    split at hwaits
    · next hcall => exact hm.stages i _ hcall
    · cases hwaits
  | reconcile | close | contextDone | lockReconcile | lockClose | visit => cases hwaits

theorem Quiet.step (hm : m.Quiet) (h : m.step l = some m') : m'.Quiet ∧ m'.listeners = m.listeners := by
  have hafter := hm.after (.snoc .nil trivial h)
  exact ⟨hafter.quiet, hafter.listeners⟩

theorem Quiet.mem_closed (hm : m.Quiet) (hi : m.Inv) {listener : Nat} (hlt : listener < m.listeners.bound) :
    listener ∈ m.listeners.closed := by
  rcases hi.noLeak listener hlt with hclosed | ⟨port, hport⟩
  · exact hclosed
  · rw [hm.empty port] at hport
    cases hport

end ListenerManager

/-! ### The invariant -/

namespace AcceptLoop

def running (loop : AcceptLoop) : Bool :=
  match loop.pc with
  | .accept | .accepted _ | .retry => true
  | .returned => false

def left (loop : AcceptLoop) : Nat :=
  match loop.pc with
  | .accepted _ | .retry => 2
  | .accept => 1
  | .returned => 0

theorem left_le (loop : AcceptLoop) : loop.left ≤ 2 := by
  rw [left]
  split <;> decide

def Paced (loop : AcceptLoop) : Prop :=
  match loop.pc with
  | .accept | .accepted _ =>
    loop.backoff = Backoff.delay maximumAcceptBackoff initialAcceptBackoff loop.failures
  | .retry => ∃ n, loop.failures = n + 1 ∧
    loop.backoff = Backoff.delay maximumAcceptBackoff initialAcceptBackoff n
  | .returned => True

theorem initialAcceptBackoff_eq :
    initialAcceptBackoff = Backoff.delay maximumAcceptBackoff initialAcceptBackoff 0 :=
  (Backoff.delay_zero (by decide)).symm

theorem nextAcceptBackoff_eq (backoff : Nat) :
    nextAcceptBackoff backoff = Backoff.next maximumAcceptBackoff backoff :=
  (Backoff.next_eq_ite (by decide) backoff).symm

end AcceptLoop

namespace AcceptedConn

def Fresh (conn : AcceptedConn) : Prop := conn.handlers = 0 ∧ conn.closes = 0

def HandedOver (conn : AcceptedConn) : Prop :=
  conn.handlers = (if conn.tcp then 1 else 0) ∧ conn.closes = if conn.tcp then 0 else 1

@[simp] theorem listener_handOver (conn : AcceptedConn) : conn.handOver.listener = conn.listener := by
  unfold handOver
  split
  · rfl
  · rfl

theorem Fresh.handOver {conn : AcceptedConn} (h : conn.Fresh) : conn.handOver.HandedOver := by
  obtain ⟨hhandlers, hcloses⟩ := h
  cases htcp : conn.tcp <;> simp [AcceptedConn.handOver, HandedOver, htcp, hhandlers, hcloses]

end AcceptedConn

namespace AcceptLoops
variable {s t : AcceptLoops} {i : Nat} {loop : AcceptLoop}

structure Owned (loops : List AcceptLoop) (conns : List AcceptedConn) : Prop where
  held : ∀ (i : Nat) loop c, loops[i]? = some loop → loop.pc = .accepted c →
    ∃ conn, conns[c]? = some conn ∧ conn.listener = i
  owner : ∀ (c : Nat) conn, conns[c]? = some conn → ∃ loop, loops[conn.listener]? = some loop ∧
    if loop.pc = .accepted c then conn.Fresh else conn.HandedOver

structure Inv (s : AcceptLoops) : Prop where
  manager : s.manager.Inv
  returned : .closed ∈ s.manager.calls → s.manager.onceDone = true
  waited : s.manager.onceDone = true → s.wg = 0
  length : s.loops.length = s.manager.listeners.bound
  wg : s.wg = s.loops.countP AcceptLoop.running
  left : ∀ (i : Nat) loop, s.loops[i]? = some loop → loop.pc = .returned →
    s.manager.done = true ∨ i ∈ s.manager.listeners.closed
  paced : ∀ loop ∈ s.loops, loop.Paced
  owned : Owned s.loops s.conns

theorem inv_init : ({} : AcceptLoops).Inv where
  manager := ListenerManager.inv_init
  returned := by rintro ⟨⟩
  waited := by rintro ⟨⟩
  length := rfl
  wg := rfl
  left := by rintro i loop ⟨⟩
  paced := by rintro loop ⟨⟩
  owned := ⟨by rintro i loop c ⟨⟩, by rintro c conn ⟨⟩⟩

theorem getElem?_started {m : ListenerManager} {n : Nat} (h : (s.started m).loops[n]? = some loop) :
    s.loops[n]? = some loop ∨ loop = {} := by
  rw [started, List.getElem?_append] at h
  split at h
  · exact .inl h
  · exact .inr (List.eq_of_mem_replicate (List.mem_of_getElem? h))

theorem Inv.listeners_of_onceDone (hs : s.Inv) {l : ManagerLabel} {m : ListenerManager}
    (h : s.manager.step l = some m) (hwait : s.manager.waits l = true → s.wg = 0)
    (honce : m.onceDone = true) : s.wg = 0 ∧ m.listeners = s.manager.listeners := by
  cases hwaits : s.manager.waits l with
  | true =>
    exact ⟨hwait hwaits, ((hs.manager.quiet_of_waits hwaits).step h).2⟩
  | false =>
    have hbefore := (ListenerManager.onceDone_of_step h hwaits).symm.trans honce
    exact ⟨hs.waited hbefore, ((hs.manager.once hbefore).step h).2⟩

theorem Inv.started (hs : s.Inv) {l : ManagerLabel} {m : ListenerManager} (h : s.manager.step l = some m)
    (hwait : s.manager.waits l = true → s.wg = 0) : (s.started m).Inv where
  manager := hs.manager.step h
  returned := ListenerManager.returned_of_step h hs.returned
  waited := by
    intro honce
    obtain ⟨hzero, hsame⟩ := hs.listeners_of_onceDone h hwait honce
    show s.wg + (m.listeners.bound - s.manager.listeners.bound) = 0
    rw [hsame, hzero, Nat.sub_self]
  length := by
    have hgrows := (ListenerManager.grows_of_step h).1.bound
    show (s.loops ++ List.replicate _ _).length = _
    rw [List.length_append, List.length_replicate, hs.length]
    exact Nat.add_sub_of_le hgrows
  wg := by
    show s.wg + _ = (s.loops ++ List.replicate _ _).countP _
    rw [List.countP_append, List.countP_replicate, hs.wg]
    rfl
  left := by
    intro n loop hn hpc
    obtain ⟨hgrows, hdone⟩ := ListenerManager.grows_of_step h
    rcases getElem?_started hn with hold | rfl
    · exact (hs.left n loop hold hpc).imp hdone (hgrows.closed n)
    · cases hpc
  paced := by
    intro loop hloop
    rcases List.mem_append.mp hloop with hold | hnew
    · exact hs.paced loop hold
    · obtain rfl := List.eq_of_mem_replicate hnew
      exact AcceptLoop.initialAcceptBackoff_eq
  owned := by
    constructor
    · intro n loop c hn hpc
      rcases getElem?_started hn with hold | rfl
      · exact hs.owned.held n loop c hold hpc
      · cases hpc
    · intro c conn hc
      obtain ⟨loop, hloop, hconn⟩ := hs.owned.owner c conn hc
      exact ⟨loop, List.getElem?_append_of hloop _, hconn⟩

theorem Inv.owned_setLoop (hs : s.Inv) (hi : s.loops[i]? = some loop)
    (hpc : ∀ c, loop.pc ≠ .accepted c) {loop' : AcceptLoop} (hpc' : ∀ c, loop'.pc ≠ .accepted c) :
    Owned (s.loops.set i loop') s.conns := by
  constructor
  · intro n other c hn hother
    rcases List.getElem?_of_set hn with ⟨-, hold⟩ | ⟨-, rfl⟩
    · exact hs.owned.held n other c hold hother
    · exact absurd hother (hpc' c)
  · intro c conn hc
    obtain ⟨other, hother, hconn⟩ := hs.owned.owner c conn hc
    rcases List.getElem?_set_of (a := loop') hi hother with hsame | ⟨hset, rfl⟩
    · exact ⟨other, hsame, hconn⟩
    · rw [if_neg (hpc c)] at hconn
      exact ⟨loop', hset, by rwa [if_neg (hpc' c)]⟩

theorem Inv.paced_setLoop (hs : s.Inv) {loop' : AcceptLoop} (h : loop'.Paced) :
    ∀ loop ∈ s.loops.set i loop', loop.Paced := by
  intro loop hloop
  rcases List.mem_or_eq_of_mem_set hloop with hold | rfl
  · exact hs.paced loop hold
  · exact h

theorem Inv.left_setLoop (hs : s.Inv) {loop' : AcceptLoop}
    (h : loop'.pc = .returned → s.manager.done = true ∨ i ∈ s.manager.listeners.closed) :
    ∀ (n : Nat) loop, (s.loops.set i loop')[n]? = some loop → loop.pc = .returned →
      s.manager.done = true ∨ n ∈ s.manager.listeners.closed := by
  intro n loop hn hpc
  rcases List.getElem?_of_set hn with ⟨-, hold⟩ | ⟨rfl, rfl⟩
  · exact hs.left n loop hold hpc
  · exact h hpc

theorem Inv.goesOn (hs : s.Inv) (hi : s.loops[i]? = some loop) (hrunning : loop.running = true)
    {loop' : AcceptLoop} (hrunning' : loop'.running = true) (hpaced : loop'.Paced)
    {conns : List AcceptedConn} (howned : Owned (s.loops.set i loop') conns) :
    Inv { s.setLoop i loop' with conns := conns } where
  manager := hs.manager
  returned := hs.returned
  waited := hs.waited
  length := List.length_set.trans hs.length
  wg := by
    have hcount := List.countP_set_of AcceptLoop.running hi loop'
    rw [hrunning, hrunning'] at hcount
    exact hs.wg.trans (Nat.add_right_cancel hcount).symm
  left := by
    refine hs.left_setLoop fun hreturned => ?_
    simp [AcceptLoop.running, hreturned] at hrunning'
  paced := hs.paced_setLoop hpaced
  owned := howned

theorem Inv.setLoop (hs : s.Inv) (hi : s.loops[i]? = some loop)
    (hpc : loop.pc = .accept ∨ loop.pc = .retry) {loop' : AcceptLoop}
    (hpc' : loop'.pc = .accept ∨ loop'.pc = .retry) (hpaced : loop'.Paced) :
    (s.setLoop i loop').Inv := by
  have hfree : ∀ {loop : AcceptLoop}, loop.pc = .accept ∨ loop.pc = .retry →
      (∀ c, loop.pc ≠ .accepted c) ∧ loop.running = true := by
    rintro loop (hloop | hloop) <;> simp [AcceptLoop.running, hloop]
  exact hs.goesOn hi (hfree hpc).2 (hfree hpc').2 hpaced
    (hs.owned_setLoop hi (hfree hpc).1 (hfree hpc').1)

theorem Inv.leave (hs : s.Inv) (hi : s.loops[i]? = some loop)
    (hpc : loop.pc = .accept ∧ i ∈ s.manager.listeners.closed ∨ loop.pc = .retry ∧ s.manager.done = true) :
    (s.leave i loop).Inv := by
  have hheld : ∀ c, loop.pc ≠ .accepted c := by
    rcases hpc with ⟨h, -⟩ | ⟨h, -⟩ <;> simp [h]
  have hrunning : loop.running = true := by
    rcases hpc with ⟨h, -⟩ | ⟨h, -⟩ <;> simp [AcceptLoop.running, h]
  have hcount := List.countP_set_of AcceptLoop.running hi { loop with pc := .returned }
  rw [hrunning, ← hs.wg] at hcount
  have hreturned : ∀ c, ({ loop with pc := .returned } : AcceptLoop).pc ≠ .accepted c := by simp
  exact { manager := hs.manager, returned := hs.returned
          waited := fun honce => by
            show s.wg - 1 = 0
            rw [hs.waited honce]
          length := List.length_set.trans hs.length
          wg := (Nat.eq_sub_of_add_eq hcount).symm
          left := hs.left_setLoop fun _ => hpc.elim (fun h => .inr h.2) fun h => .inl h.2
          paced := hs.paced_setLoop trivial
          owned := hs.owned_setLoop hi hheld hreturned }

theorem Inv.accepted (hs : s.Inv) (hi : s.loops[i]? = some loop) (hpc : loop.pc = .accept)
    (tcp : Bool) :
    Inv { s.setLoop i { pc := .accepted s.conns.length } with
      conns := s.conns ++ [{ listener := i, tcp := tcp }] } := by
  have hrunning : loop.running = true := by simp [AcceptLoop.running, hpc]
  have hpaced : AcceptLoop.Paced { pc := .accepted s.conns.length } :=
    AcceptLoop.initialAcceptBackoff_eq
  refine hs.goesOn hi hrunning rfl hpaced ⟨?_, ?_⟩
  · intro n other c hn hother
    rcases List.getElem?_of_set hn with ⟨-, hold⟩ | ⟨rfl, rfl⟩
    · obtain ⟨conn, hc, hlistener⟩ := hs.owned.held n other c hold hother
      exact ⟨conn, List.getElem?_append_of hc _, hlistener⟩
    · obtain rfl := AcceptPc.accepted.inj hother
      exact ⟨_, List.getElem?_concat_length, rfl⟩
  · intro c conn hc
    rcases List.getElem?_of_concat hc with hold | ⟨rfl, rfl⟩
    · obtain ⟨other, hother, hconn⟩ := hs.owned.owner c conn hold
      have hne : AcceptPc.accepted s.conns.length ≠ .accepted c := by
        have hlt := (List.getElem?_eq_some_iff.mp hold).1
        simp only [ne_eq, AcceptPc.accepted.injEq]
        omega
      rcases List.getElem?_set_of (a := { pc := .accepted s.conns.length }) hi hother with
        hsame | ⟨hset, rfl⟩
      · exact ⟨other, hsame, hconn⟩
      · -- the loop has another connection now, and had none before
        rw [hpc, if_neg AcceptPc.noConfusion] at hconn
        exact ⟨_, hset, by rwa [if_neg hne]⟩
    · have hlt := (List.getElem?_eq_some_iff.mp hi).1
      exact ⟨_, List.getElem?_set_self hlt, by rw [if_pos rfl]; exact ⟨rfl, rfl⟩⟩

theorem Inv.handOver (hs : s.Inv) (hi : s.loops[i]? = some loop) {c : Nat} {conn : AcceptedConn}
    (hpc : loop.pc = .accepted c) (hc : s.conns[c]? = some conn) :
    Inv { s.setLoop i { loop with pc := .accept } with conns := s.conns.set c conn.handOver } := by
  have hrunning : loop.running = true := by simp [AcceptLoop.running, hpc]
  have hpaced : AcceptLoop.Paced { loop with pc := .accept } := by
    have hbefore := hs.paced loop (List.mem_of_getElem? hi)
    rwa [AcceptLoop.Paced, hpc] at hbefore
  refine hs.goesOn hi hrunning rfl hpaced ⟨?_, ?_⟩
  · intro n other k hn hother
    rcases List.getElem?_of_set hn with ⟨-, hold⟩ | ⟨-, rfl⟩
    · obtain ⟨conn', hk, hlistener⟩ := hs.owned.held n other k hold hother
      rcases List.getElem?_set_of (a := conn.handOver) hc hk with hsame | ⟨hset, rfl⟩
      · exact ⟨conn', hsame, hlistener⟩
      · exact ⟨_, hset, (AcceptedConn.listener_handOver _).trans hlistener⟩
    · cases hother
  · intro k conn' hk
    obtain ⟨conn'', hc', hlistener⟩ := hs.owned.held i loop c hi hpc
    obtain rfl := Option.some.inj (hc.symm.trans hc')
    have hlt := (List.getElem?_eq_some_iff.mp hi).1
    rcases List.getElem?_of_set hk with ⟨hne, hold⟩ | ⟨rfl, rfl⟩
    · obtain ⟨other, hother, hconn⟩ := hs.owned.owner k conn' hold
      rcases List.getElem?_set_of (a := { loop with pc := .accept }) hi hother with hsame | ⟨hset, rfl⟩
      · exact ⟨other, hsame, hconn⟩
      · rw [hpc, if_neg fun heq => hne (AcceptPc.accepted.inj heq).symm] at hconn
        exact ⟨_, hset, by rwa [if_neg AcceptPc.noConfusion]⟩
    · obtain ⟨other, hother, hconn⟩ := hs.owned.owner k conn hc
      rw [hlistener, hi] at hother
      obtain rfl := Option.some.inj hother
      rw [if_pos hpc] at hconn
      rw [AcceptedConn.listener_handOver, hlistener]
      exact ⟨_, List.getElem?_set_self hlt, by rw [if_neg AcceptPc.noConfusion]; exact hconn.handOver⟩

theorem Inv.loopStep (hs : s.Inv) (hi : s.loops[i]? = some loop) (h : s.LoopStep i loop t) : t.Inv := by
  have hpaced := hs.paced loop (List.mem_of_getElem? hi)
  cases h with
  | conn tcp hpc _ => exact hs.accepted hi hpc tcp
  | failed hpc _ =>
    rw [AcceptLoop.Paced, hpc] at hpaced
    exact hs.setLoop hi (.inl hpc) (.inr rfl) ⟨_, rfl, hpaced⟩
  | handOver c conn hpc hc => exact hs.handOver hi hpc hc
  | timer hpc =>
    rw [AcceptLoop.Paced, hpc] at hpaced
    obtain ⟨n, hfailures, hbackoff⟩ := hpaced
    refine hs.setLoop hi (.inr hpc) (.inl rfl) ?_
    show nextAcceptBackoff loop.backoff = Backoff.delay _ _ loop.failures
    rw [AcceptLoop.nextAcceptBackoff_eq, hbackoff, hfailures, Backoff.next_delay]
  | leave hpc => exact hs.leave hi hpc

theorem Inv.step {l : AcceptLabel} (hs : s.Inv) (h : s.step l = some t) : t.Inv := by
  obtain ⟨k, m, -, hm, hwait, rfl⟩ | ⟨i, loop, -, hi, hloop⟩ := step_cases h
  · exact hs.started hm hwait
  · exact hs.loopStep hi hloop

theorem inv_of_run {ls : List AcceptLabel} (h : Lts.AnyRun AcceptLoops.step {} ls s) : s.Inv :=
  h.invariant (fun _ _ _ hs _ hstep => hs.step hstep) inv_init

/-- For every interleaving of the loops with `reconcile` and `close`: there is one loop for each listener,
a loop returns only when its listener was closed or the manager's context is done, it waits `100ms · 2ⁿ`
but at most a second after its failure number `n` in a row, and a connection that it accepted is with it,
or has its one handler, or was closed once because no handler takes it. -/
theorem accepted_once_of_run {ls : List AcceptLabel} (h : Lts.AnyRun AcceptLoops.step {} ls s) :
    s.loops.length = s.manager.listeners.bound ∧
    (∀ (i : Nat) loop, s.loops[i]? = some loop →
      (loop.pc = .returned → s.manager.done = true ∨ i ∈ s.manager.listeners.closed) ∧
      (loop.pc = .retry → 0 < loop.failures ∧ loop.backoff =
        min maximumAcceptBackoff (initialAcceptBackoff <<< (loop.failures - 1)))) ∧
    ∀ (c : Nat) conn, s.conns[c]? = some conn → ∃ loop, s.loops[conn.listener]? = some loop ∧
      if loop.pc = .accepted c then conn.Fresh else conn.HandedOver := by
  have hs := inv_of_run h
  refine ⟨hs.length, fun i loop hi => ⟨hs.left i loop hi, fun hpc => ?_⟩, hs.owned.owner⟩
  have hpaced := hs.paced loop (List.mem_of_getElem? hi)
  rw [AcceptLoop.Paced, hpc] at hpaced
  obtain ⟨n, hfailures, hbackoff⟩ := hpaced
  rw [hbackoff, hfailures]
  exact ⟨Nat.succ_pos n, rfl⟩

def onePort : List AcceptLabel :=
  [.manager (.reconcile (portSet [8000])),
    .manager (.lockReconcile 0 ⟨fun _ => none, fun _ => none, [], [8000]⟩), .manager (.next 0),
    .manager (.visit 0), .manager (.next 0)]

def acceptFailures : List AcceptLabel :=
  onePort ++ [.accept 0 (.conn false), .goOn 0, .accept 0 .failed, .timer 0, .accept 0 .failed]

theorem accepted_once_failures : ∃ s loop conn, Lts.AnyRun AcceptLoops.step {} acceptFailures s ∧
    s.loops[0]? = some loop ∧ loop.failures = 2 ∧ loop.backoff = 200 * millisecond ∧
    s.conns[0]? = some conn ∧ conn.handlers = 0 ∧ conn.closes = 1 := by
  let s := (Lts.exec AcceptLoops.step {} acceptFailures).get (by decide +kernel)
  have hrun := Lts.anyRun_of_exec (t := s) (Option.some_get _).symm
  obtain ⟨-, hloops, hconns⟩ := accepted_once_of_run hrun
  have hloop : s.loops[0]? = some ⟨.retry, 200 * millisecond, 2⟩ := by rfl
  have hconn : s.conns[0]? = some ⟨0, false, 0, 1⟩ := by rfl
  obtain ⟨other, hother, hhanded⟩ := hconns 0 _ hconn
  obtain rfl := Option.some.inj (hloop.symm.trans hother)
  rw [if_neg AcceptPc.noConfusion] at hhanded
  exact ⟨s, _, _, hrun, hloop, rfl, ((hloops 0 _ hloop).2 rfl).2, hconn, hhanded.1, hhanded.2⟩

/-! ### `close` and the loops -/

theorem Inv.returned_of_wg (hs : s.Inv) (hwg : s.wg = 0) : ∀ loop ∈ s.loops, loop.pc = .returned := by
  intro loop hloop
  have hnot := List.countP_eq_zero.mp (hs.wg.symm.trans hwg) loop hloop
  cases hpc : loop.pc with
  | returned => rfl
  | accept | accepted | retry => simp [AcceptLoop.running, hpc] at hnot

theorem LoopStep.running (h : s.LoopStep i loop t) : loop.pc ≠ .returned := by
  cases h with
  | conn _ hpc _ | failed hpc _ | handOver _ _ hpc _ | timer hpc => simp [hpc]
  | leave hpc => rcases hpc with ⟨hpc, -⟩ | ⟨hpc, -⟩ <;> simp [hpc]

theorem started_of_quiet {l : ManagerLabel} {m : ListenerManager} (hquiet : s.manager.Quiet)
    (h : s.manager.step l = some m) : s.started m = { s with manager := m } := by
  have hsame := (hquiet.step h).2
  simp only [started, hsame, Nat.sub_self, List.replicate_zero, List.append_nil, Nat.add_zero]

/-- When a call of `close` has returned, every loop has, and every accepted connection was handed over; and
so it stays, whatever is called later. -/
theorem close_waits_for_loops {ls : List AcceptLabel} (h : Lts.AnyRun AcceptLoops.step {} ls s)
    (hclosed : .closed ∈ s.manager.calls) :
    (∀ loop ∈ s.loops, loop.pc = .returned) ∧ (∀ conn ∈ s.conns, conn.HandedOver) ∧
      ∀ ms t, Lts.AnyRun AcceptLoops.step s ms t → t.loops = s.loops ∧ t.conns = s.conns := by
  have hs := inv_of_run h
  have honce := hs.returned hclosed
  have hreturned := hs.returned_of_wg (hs.waited honce)
  refine ⟨hreturned, fun conn hconn => ?_, fun ms t hrun => ?_⟩
  · obtain ⟨c, hc⟩ := List.getElem?_of_mem hconn
    obtain ⟨loop, hloop, hhanded⟩ := hs.owned.owner c conn hc
    have hpc := hreturned loop (List.mem_of_getElem? hloop)
    rwa [hpc, if_neg AcceptPc.noConfusion] at hhanded
  · have hkeeps : t.manager.Quiet ∧ t.loops = s.loops ∧ t.conns = s.conns := by
      refine hrun.invariant (I := fun u => u.manager.Quiet ∧ u.loops = s.loops ∧ u.conns = s.conns)
        ?_ ⟨hs.manager.once honce, rfl, rfl⟩
      rintro u l v ⟨hquiet, hloops, hconns⟩ - hstep
      obtain ⟨k, m, -, hm, -, rfl⟩ | ⟨i, loop, -, hi, hloop⟩ := step_cases hstep
      · rw [started_of_quiet hquiet hm]
        exact ⟨(hquiet.step hm).1, hloops, hconns⟩
      · rw [hloops] at hi
        exact absurd (hreturned loop (List.mem_of_getElem? hi)) hloop.running
    exact hkeeps.2

def acceptBeforeWait : List AcceptLabel :=
  onePort ++ [.manager .close, .manager (.next 1), .manager (.next 1),
    .manager (.lockClose 1 ⟨fun _ => none, [8000]⟩), .accept 0 (.conn true), .manager (.visit 1),
    .manager (.next 1)]

def acceptThenClosed : List AcceptLabel :=
  acceptBeforeWait ++ [.goOn 0, .accept 0 .closed, .manager (.next 1)]

theorem close_waits_for_accepted : ∃ s conn, Lts.AnyRun AcceptLoops.step {} acceptThenClosed s ∧
    .closed ∈ s.manager.calls ∧ s.conns[0]? = some conn ∧ conn.handlers = 1 := by
  let s := (Lts.exec AcceptLoops.step {} acceptThenClosed).get (by decide +kernel)
  have hrun := Lts.anyRun_of_exec (t := s) (Option.some_get _).symm
  have hclosed : s.manager.calls[1]? = some .closed := by rfl
  have hmem := List.mem_of_getElem? hclosed
  have hconn : s.conns[0]? = some ⟨0, true, 1, 0⟩ := by rfl
  have hhanded := (close_waits_for_loops hrun hmem).2.1 _ (List.mem_of_getElem? hconn)
  exact ⟨s, _, hrun, hmem, hconn, hhanded.1⟩

def loopSteps (l : AcceptLabel) : Bool := (loopOf l).isSome

/-- The steps of a loop that do not wait for a peer, a timer or another goroutine. -/
def ownStep : AcceptLabel → Bool
  | .accept _ .closed | .goOn _ | .cancelled _ => true
  | _ => false

theorem LoopStep.weight (h : s.LoopStep i loop t) (hi : s.loops[i]? = some loop)
    (hclosed : i ∈ s.manager.listeners.closed) :
    t.loops.weight AcceptLoop.left + 1 ≤ s.loops.weight AcceptLoop.left := by
  have hset : ∀ loop' : AcceptLoop, loop'.left + 1 ≤ loop.left →
      (s.loops.set i loop').weight AcceptLoop.left + 1 ≤ s.loops.weight AcceptLoop.left := by
    intro loop' hless
    have hweight := List.weight_set_of AcceptLoop.left hi loop'
    omega
  cases h with
  | conn _ _ hopen | failed _ hopen => exact absurd hclosed hopen
  | handOver c conn hpc _ => exact hset _ (by simp [AcceptLoop.left, hpc])
  | timer hpc => exact hset _ (by simp [AcceptLoop.left, hpc])
  | leave hpc =>
    apply hset
    rcases hpc with ⟨hpc, -⟩ | ⟨hpc, -⟩ <;> simp [AcceptLoop.left, hpc]

theorem Inv.mem_closed (hs : s.Inv) (hquiet : s.manager.Quiet) (hi : s.loops[i]? = some loop) :
    i ∈ s.manager.listeners.closed := by
  have hlt := (List.getElem?_eq_some_iff.mp hi).1
  rw [hs.length] at hlt
  exact hquiet.mem_closed hs.manager hlt

theorem Inv.exists_ownStep (hs : s.Inv) (hquiet : s.manager.Quiet) (hi : s.loops[i]? = some loop)
    (hrunning : loop.pc ≠ .returned) :
    ∃ l, ownStep l = true ∧ loopOf l = some i ∧ (s.step l).isSome = true := by
  have hclosed := hs.mem_closed hquiet hi
  cases hpc : loop.pc with
  | accept => exact ⟨.accept i .closed, rfl, rfl, by simp [AcceptLoops.step, loopOf, hi, stepLoop, hpc, hclosed]⟩
  | accepted c =>
    obtain ⟨conn, hc, -⟩ := hs.owned.held i loop c hi hpc
    exact ⟨.goOn i, rfl, rfl, by simp [AcceptLoops.step, loopOf, hi, stepLoop, hpc, hc]⟩
  | retry => exact ⟨.cancelled i, rfl, rfl, by simp [AcceptLoops.step, loopOf, hi, stepLoop, hpc, hquiet.done]⟩
  | returned => exact absurd hpc hrunning

/-- `wg.Wait` in `close` returns: from the moment at which `close` waits, a loop that has not returned can
take a step that needs nothing from a peer, and the loops take at most two steps each. -/
theorem close_wait_returns_of_run {ls : List AcceptLabel} (h : Lts.AnyRun AcceptLoops.step {} ls s)
    {errs : List (Option GoError)} (hwait : .closeWait errs ∈ s.manager.calls) :
    ∀ ms t, Lts.AnyRun AcceptLoops.step s ms t →
      ms.countP loopSteps ≤ 2 * s.loops.length ∧
      ∀ (i : Nat) loop, t.loops[i]? = some loop → loop.pc ≠ .returned →
        ∃ l, ownStep l = true ∧ loopOf l = some i ∧ (t.step l).isSome = true := by
  intro ms t hrun
  have hs := inv_of_run h
  obtain ⟨j, hj⟩ := List.getElem?_of_mem hwait
  have hquiet : s.manager.Quiet := hs.manager.stages j _ hj
  have hkept : ∀ u l v, u.Inv ∧ u.manager.Quiet → True → AcceptLoops.step u l = some v →
      v.Inv ∧ v.manager.Quiet := by
    rintro u l v ⟨hu, hq⟩ - hstep
    refine ⟨hu.step hstep, ?_⟩
    obtain ⟨k, m, -, hm, -, rfl⟩ | ⟨i, loop, -, hi, hloop⟩ := step_cases hstep
    · exact (hq.step hm).1
    · cases hloop with
      | conn | failed | handOver | timer | leave => exact hq
  have hcount := hrun.countP_le (I := fun u => u.Inv ∧ u.manager.Quiet) (μ := fun u => u.loops.weight AcceptLoop.left)
    (p := loopSteps) hkept (fun u l v hu _ hstep => ?_) ⟨hs, hquiet⟩
  · obtain ⟨ht, htquiet⟩ := hrun.invariant hkept ⟨hs, hquiet⟩
    have hle := List.weight_le AcceptLoop.left_le s.loops
    exact ⟨by omega, fun i loop hi hpc => ht.exists_ownStep htquiet hi hpc⟩
  · obtain ⟨k, m, rfl, hm, -, rfl⟩ | ⟨i, loop, hl, hi, hloop⟩ := step_cases hstep
    · rw [started_of_quiet hu.2 hm]
      exact Nat.le_refl _
    · simp only [loopSteps, hl, Option.isSome_some, if_true]
      exact hloop.weight hi (hu.1.mem_closed hu.2 hi)

theorem close_wait_returns_accepted : ∃ s loop, Lts.AnyRun AcceptLoops.step {} acceptBeforeWait s ∧
    s.loops[0]? = some loop ∧ loop.pc = .accepted 0 ∧
    (∃ l, ownStep l = true ∧ loopOf l = some 0 ∧ (s.step l).isSome = true) ∧
    ∀ ms t, Lts.AnyRun AcceptLoops.step s ms t → ms.countP loopSteps ≤ 2 := by
  let s := (Lts.exec AcceptLoops.step {} acceptBeforeWait).get (by decide +kernel)
  have hrun := Lts.anyRun_of_exec (t := s) (Option.some_get _).symm
  have hwait : s.manager.calls[1]? = some (.closeWait [none]) := by rfl
  have hreturns := close_wait_returns_of_run hrun (List.mem_of_getElem? hwait)
  have hloop : s.loops[0]? = some { pc := .accepted 0 } := by rfl
  have hstep := (hreturns [] s .nil).2 0 _ hloop AcceptPc.noConfusion
  exact ⟨s, _, hrun, hloop, rfl, hstep, fun ms t hlater => (hreturns ms t hlater).1⟩

end AcceptLoops

end Hostlink.Controller
