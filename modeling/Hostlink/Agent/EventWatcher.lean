import Hostlink.Lib.Backoff
import Hostlink.Lib.Run
import Hostlink.Lib.Slots

/-! `Start` of an agent with the Control sessions it runs one after the other and, in each, the
goroutine of `watchDockerEvents`. A session that ends cancels its context and does not wait for that
goroutine, and `send` writes to the stream that is installed when it is called. -/

namespace Hostlink.Agent

def second : Nat := 1000000000

def reconnectBaseDelay : Nat := second
def reconnectMaxDelay : Nat := 30 * second

/-- `backoff.next`: the new `cur`. -/
def nextReconnect (cur : Nat) : Nat :=
  if cur < reconnectBaseDelay then reconnectBaseDelay
  else if reconnectMaxDelay < cur * 2 then reconnectMaxDelay else cur * 2

structure DockerEventRetrySettings where
  base : Nat
  max : Nat
  healthyAfter : Nat

def dockerEventRetry : DockerEventRetrySettings :=
  { base := second, max := 30 * second, healthyAfter := 60 * second }

structure DockerMessage where
  action : String
  actorId : String
  deriving DecidableEq, Repr

/-- The goroutine: at the head of `runDockerEventsLoop`, before `src.Events`, in the `select` of
`consumeDockerEvents`, in `send`, in `waitDockerEventRetry`, returned. -/
inductive WatcherPc where
  | head
  | subscribe
  | consume (receivedMessage : Bool)
  | send (message : DockerMessage)
  | wait
  | returned
  deriving DecidableEq, Repr

/-- `retries` counts the waits since the last subscription that was healthy, `received` has the
messages taken from Docker, `sent` the calls of `send` with the number of the stream each wrote to. -/
structure EventWatcher where
  pc : WatcherPc := .head
  delay : Nat := dockerEventRetry.base
  retries : Nat := 0
  received : List DockerMessage := []
  sent : List (Nat × DockerMessage) := []
  deriving DecidableEq, Repr

/-- `ended elapsed` is the end of a subscription, by a closed channel or an error, that began
`elapsed` before. -/
inductive WatcherLabel where
  | check
  | events
  | done
  | message (message : DockerMessage)
  | send
  | ended (elapsed : Nat)
  | timer
  deriving DecidableEq, Repr

def EventWatcher.step (w : EventWatcher) (done : Bool) (stream : Nat) :
    WatcherLabel → Option EventWatcher
  | .check => match w.pc with
    | .head => some { w with pc := if done then .returned else .subscribe }
    | _ => none
  | .events => match w.pc with
    | .subscribe => some { w with pc := .consume false }
    | _ => none
  | .done => match w.pc with
    | .consume _ | .wait => if done then some { w with pc := .returned } else none
    | _ => none
  | .message m => match w.pc with
    | .consume _ => some { w with
        pc := if m.actorId = "" then .consume true else .send m
        received := w.received ++ [m] }
    | _ => none
  -- an error of `send` is only logged
  | .send => match w.pc with
    | .send m => some { w with pc := .consume true, sent := w.sent ++ [(stream, m)] }
    | _ => none
  | .ended elapsed => match w.pc with
    | .consume receivedMessage =>
      if receivedMessage || dockerEventRetry.healthyAfter ≤ elapsed then
        some { w with pc := .wait, delay := dockerEventRetry.base, retries := 0 }
      else some { w with pc := .wait }
    | _ => none
  | .timer => match w.pc with
    | .wait => some { w with
        pc := .head
        delay := if w.delay < dockerEventRetry.max then
            if dockerEventRetry.max < w.delay * 2 then dockerEventRetry.max else w.delay * 2
          else w.delay
        retries := w.retries + 1 }
    | _ => none

/-- A Control session; its number is that of its stream. `watcher` is there from the `Hello` on. -/
structure ControlSession where
  cancelled : Bool := false
  watcher : Option EventWatcher := none
  deriving DecidableEq, Repr

/-- `Start`: in `client.Control`, before the `Hello` of session `k`, in the main loop of session `k`,
behind `runSession`, in the wait, returned. -/
inductive StartPc where
  | control
  | hello (k : Nat)
  | running (k : Nat)
  | ended (connected : Bool)
  | wait (delay : Nat)
  | returned
  deriving DecidableEq, Repr

def StartPc.session : StartPc → Option Nat
  | .hello k | .running k => some k
  | .control | .ended _ | .wait _ | .returned => none

/-- `done` is the context of `Start`, `cur` the field of its `backoff`, `stream` the agent's field
and `docker` whether the agent has a client. `waits` counts the waits since the last session that
connected. -/
structure Supervisor where
  docker : Bool := true
  done : Bool := false
  pc : StartPc := .control
  cur : Nat := 0
  waits : Nat := 0
  stream : Nat := 0
  sessions : List ControlSession := []

inductive SupervisorLabel where
  | cancel
  | control (ok : Bool)
  | hello (ok : Bool)
  | heartbeat (ok : Bool)
  | recvErr
  | sessionDone
  | next (jitter : Nat)
  | timer
  | ctxDone
  | watcher (k : Nat) (l : WatcherLabel)
  deriving DecidableEq, Repr

def WatcherPc.pending : WatcherPc → List DockerMessage
  | .send m => [m]
  | .head | .subscribe | .consume _ | .wait | .returned => []

structure EventWatcher.Ok (w : EventWatcher) (k n : Nat) : Prop where
  delay : w.delay = Backoff.delay dockerEventRetry.max dockerEventRetry.base w.retries
  sent : w.received.filter (·.actorId ≠ "") = w.sent.map Prod.snd ++ w.pc.pending
  streams : ∀ x ∈ w.sent, k ≤ x.1 ∧ x.1 < n

namespace EventWatcher
variable {w w' : EventWatcher} {k n : Nat}

theorem Ok.mono (hw : w.Ok k n) {n' : Nat} (h : n ≤ n') : w.Ok k n' :=
  { hw with streams := fun x hx => ⟨(hw.streams x hx).1, (hw.streams x hx).2.trans_le h⟩ }

theorem Ok.move (hw : w.Ok k n) {pc : WatcherPc} (h : pc.pending = w.pc.pending) :
    Ok { w with pc := pc } k n :=
  { hw with sent := by rw [hw.sent, ← h] }

theorem delay_base : dockerEventRetry.base =
    Backoff.delay dockerEventRetry.max dockerEventRetry.base 0 :=
  (Backoff.delay_zero (by decide)).symm

theorem ok_new {pc : WatcherPc} (h : pc.pending = []) : Ok { pc := pc } k n where
  delay := delay_base
  sent := h.symm
  streams := by simp

theorem nextDelay_eq (delay : Nat) (h : delay ≤ dockerEventRetry.max) :
    (if delay < dockerEventRetry.max then
        if dockerEventRetry.max < delay * 2 then dockerEventRetry.max else delay * 2
      else delay) = Backoff.next dockerEventRetry.max delay := by
  rw [Backoff.next]
  split_ifs <;> omega

theorem Ok.step (hw : w.Ok k n) {done : Bool} {stream : Nat} (hstream : k ≤ stream ∧ stream < n)
    {l : WatcherLabel} (h : w.step done stream l = some w') : w'.Ok k n := by
  cases l <;> cases hpc : w.pc <;>
    simp only [EventWatcher.step, hpc, reduceCtorEq, Option.some.injEq, Option.ite_none_right_eq_some] at h
  case check.head =>
    subst h
    exact hw.move (by rw [hpc]; split <;> rfl)
  case events.subscribe =>
    subst h
    exact hw.move (by rw [hpc]; rfl)
  case done.consume | done.wait =>
    obtain ⟨-, rfl⟩ := h
    exact hw.move (by rw [hpc]; rfl)
  case message.consume m received =>
    subst h
    refine { hw with sent := ?_ }
    have hsent := hw.sent
    rw [hpc, WatcherPc.pending, List.append_nil] at hsent
    rw [List.filter_append, hsent]
    by_cases hid : m.actorId = "" <;> simp [hid, WatcherPc.pending]
  case send.send m =>
    subst h
    refine { hw with sent := ?_, streams := ?_ }
    · rw [hw.sent, hpc, List.map_append]
      simp [WatcherPc.pending]
    · rw [List.forall_mem_append]
      exact ⟨hw.streams, by simpa using hstream⟩
  case ended.consume =>
    split at h
    all_goals obtain rfl := Option.some.inj h
    · have hmove : Ok { w with pc := .wait } k n := hw.move (by rw [hpc]; rfl)
      exact { hmove with delay := delay_base }
    · exact hw.move (by rw [hpc]; rfl)
  case timer.wait =>
    subst h
    have hmove : Ok { w with pc := .head } k n := hw.move (by rw [hpc]; rfl)
    refine { hmove with delay := ?_ }
    have hle : w.delay ≤ dockerEventRetry.max := hw.delay.trans_le (Nat.min_le_left ..)
    rw [nextDelay_eq w.delay hle, hw.delay]
    exact Backoff.next_delay w.retries

end EventWatcher
namespace Supervisor
variable {s t : Supervisor} {k : Nat} {session : ControlSession} {w : EventWatcher}

def endSession (s : Supervisor) (k : Nat) (connected : Bool) : Option Supervisor :=
  (s.sessions[k]?).map fun session =>
    { s with
      pc := .ended connected
      sessions := s.sessions.set k { session with cancelled := true } }

/-- `backoff.reset` after a session that connected, and `backoff.next`, where `rand.Int63n` gives
`jitter`. -/
def backOff (s : Supervisor) (connected : Bool) (jitter : Nat) : Option Supervisor :=
  let cur := nextReconnect (if connected then 0 else s.cur)
  if jitter < cur / 5 + 1 then
    some { s with
      pc := .wait (cur - jitter), cur := cur, waits := (if connected then 0 else s.waits) + 1 }
  else none

def contextDone (s : Supervisor) (session : ControlSession) : Bool := s.done || session.cancelled

def stepWatcher (s : Supervisor) (k : Nat) (l : WatcherLabel) : Option Supervisor :=
  (s.sessions[k]?).bind fun session => session.watcher.bind fun w =>
    (w.step (s.contextDone session) s.stream l).map fun w' =>
      { s with sessions := s.sessions.set k { session with watcher := some w' } }

/-- `client.Control` and `setStream`. -/
def openSession (s : Supervisor) : Supervisor :=
  { s with
    pc := .hello s.sessions.length
    stream := s.sessions.length
    sessions := s.sessions ++ [{}] }

/-- The `Hello` was sent: `watchDockerEvents` starts, and returns at once without a client. -/
def sentHello (s : Supervisor) (k : Nat) : Option Supervisor :=
  (s.sessions[k]?).map fun session =>
    { s with
      pc := .running k
      sessions := s.sessions.set k { session with
        watcher := some { pc := if s.docker then .head else .returned } } }

def step (s : Supervisor) : SupervisorLabel → Option Supervisor
  | .cancel => some { s with done := true }
  | .control ok => match s.pc with
    | .control => some (if ok then s.openSession else { s with pc := .ended false })
    | _ => none
  | .hello ok => match s.pc with
    | .hello k => if ok then s.sentHello k else s.endSession k false
    | _ => none
  | .heartbeat ok => match s.pc with
    | .running k => if ok then some s else s.endSession k true
    | _ => none
  | .recvErr => match s.pc with
    | .running k => s.endSession k true
    | _ => none
  | .sessionDone => match s.pc with
    | .running k => if s.done then s.endSession k true else none
    | _ => none
  | .next jitter => match s.pc with
    | .ended connected =>
      if s.done then some { s with pc := .returned } else s.backOff connected jitter
    | _ => none
  | .timer => match s.pc with
    | .wait _ => some { s with pc := .control }
    | _ => none
  | .ctxDone => match s.pc with
    | .wait _ => if s.done then some { s with pc := .returned } else none
    | _ => none
  | .watcher k l => s.stepWatcher k l

def reconnectCur : Nat → Nat
  | 0 => 0
  | n + 1 => Backoff.delay reconnectMaxDelay reconnectBaseDelay n

theorem nextReconnect_reconnectCur (n : Nat) : nextReconnect (reconnectCur n) = reconnectCur (n + 1) := by
  have hbase : reconnectBaseDelay ≤ reconnectMaxDelay := by decide
  cases n with
  | zero => exact (Backoff.delay_zero hbase).symm
  | succ n =>
    have hle : reconnectBaseDelay ≤ reconnectCur (n + 1) :=
      Nat.le_min.mpr ⟨hbase, Nat.le_shiftLeft ..⟩
    rw [nextReconnect, if_neg (Nat.not_lt.mpr hle), reconnectCur, reconnectCur,
      ← Backoff.next_delay, Backoff.next]
    split_ifs <;> omega

structure Inv (s : Supervisor) : Prop where
  installed : s.sessions ≠ [] → s.stream + 1 = s.sessions.length
  live : ∀ (k : Nat) session, s.sessions[k]? = some session → session.cancelled = false →
    s.pc.session = some k
  newest : ∀ k, s.pc.session = some k → k + 1 = s.sessions.length
  watchers : ∀ (k : Nat) session w, s.sessions[k]? = some session → session.watcher = some w →
    w.Ok k s.sessions.length

theorem Inv.setSession (hs : s.Inv) (hk : s.sessions[k]? = some session) {pc : StartPc}
    {session' : ControlSession}
    (hpc : session'.cancelled = session.cancelled ∧ pc.session = s.pc.session ∨
      session'.cancelled = true ∧ s.pc.session = some k ∧ pc.session = none)
    (hw : ∀ w, session'.watcher = some w → w.Ok k s.sessions.length) :
    Inv { s with pc := pc, sessions := s.sessions.set k session' } where
  installed := by
    intro hne
    rw [List.length_set]
    exact hs.installed (by simpa using hne)
  live := by
    intro n other hn hlive
    rcases List.getElem?_of_set hn with ⟨hne, hold⟩ | ⟨rfl, rfl⟩
    · have hlast := hs.live n other hold hlive
      rcases hpc with ⟨-, hpc⟩ | ⟨-, hk, -⟩
      · exact hpc.trans hlast
      · exact absurd (Option.some.inj (hlast.symm.trans hk)) hne
    · rcases hpc with ⟨hcancelled, hpc⟩ | ⟨hcancelled, -⟩
      · exact hpc.trans (hs.live n session hk (hcancelled.symm.trans hlive))
      · exact absurd (hcancelled.symm.trans hlive) Bool.true_eq_false_eq_False
  newest := by
    intro n hn
    rw [List.length_set]
    rcases hpc with ⟨-, hpc⟩ | ⟨-, -, hpc⟩
    · exact hs.newest n (hpc.symm.trans hn)
    · cases hpc.symm.trans hn
  watchers := by
    intro n other w hn hother
    rw [List.length_set]
    rcases List.getElem?_of_set hn with ⟨-, hold⟩ | ⟨rfl, rfl⟩
    · exact hs.watchers n other w hold hother
    · exact hw w hother

theorem Inv.move (hs : s.Inv) (hpc : s.pc.session = none) {pc : StartPc} (hpc' : pc.session = none)
    (cur waits : Nat) : Inv { s with pc := pc, cur := cur, waits := waits } where
  installed := hs.installed
  live := by
    intro k session hk hlive
    exact hpc'.trans (hpc.symm.trans (hs.live k session hk hlive))
  newest := by
    intro k hk
    cases hpc'.symm.trans hk
  watchers := hs.watchers

theorem Inv.openSession (hs : s.Inv) (hpc : s.pc.session = none) : s.openSession.Inv := by
  have hlength : s.openSession.sessions.length = s.sessions.length + 1 := List.length_append
  refine ⟨fun _ => hlength.symm, ?_, ?_, ?_⟩
  · intro k session hk hlive
    rcases List.getElem?_of_concat hk with hold | ⟨rfl, rfl⟩
    · cases hpc.symm.trans (hs.live k session hold hlive)
    · rfl
  · intro k hk
    obtain rfl := Option.some.inj hk
    exact hlength.symm
  · intro k session w hk hw
    rcases List.getElem?_of_concat hk with hold | ⟨rfl, rfl⟩
    · exact (hs.watchers k session w hold hw).mono (hlength ▸ Nat.le_succ _)
    · cases hw

theorem Inv.sentHello (hs : s.Inv) (hpc : s.pc.session = some k) (h : s.sentHello k = some t) :
    t.Inv := by
  obtain ⟨session, hk, rfl⟩ := Option.map_eq_some_iff.mp h
  refine hs.setSession hk (.inl ⟨rfl, hpc.symm⟩) fun w hw => ?_
  obtain rfl := Option.some.inj hw
  apply EventWatcher.ok_new
  split <;> rfl

theorem Inv.endSession (hs : s.Inv) (hpc : s.pc.session = some k) {connected : Bool}
    (h : s.endSession k connected = some t) : t.Inv := by
  obtain ⟨session, hk, rfl⟩ := Option.map_eq_some_iff.mp h
  exact hs.setSession hk (.inr ⟨rfl, hpc, rfl⟩) fun w hw => hs.watchers k session w hk hw

theorem stepWatcher_cases {l : WatcherLabel} (h : s.stepWatcher k l = some t) :
    ∃ session w w', s.sessions[k]? = some session ∧ session.watcher = some w ∧
      w.step (s.contextDone session) s.stream l = some w' ∧
      t = { s with sessions := s.sessions.set k { session with watcher := some w' } } := by
  obtain ⟨session, hk, hsession⟩ := Option.bind_eq_some_iff.mp h
  obtain ⟨w, hw, hmap⟩ := Option.bind_eq_some_iff.mp hsession
  obtain ⟨w', hstep, rfl⟩ := Option.map_eq_some_iff.mp hmap
  exact ⟨session, w, w', hk, hw, hstep, rfl⟩

theorem Inv.stepWatcher (hs : s.Inv) {l : WatcherLabel} (h : s.stepWatcher k l = some t) :
    t.Inv := by
  obtain ⟨session, w, w', hk, hw, hstep, rfl⟩ := stepWatcher_cases h
  have hlt : k < s.sessions.length := (List.getElem?_eq_some_iff.mp hk).1
  have hlast := hs.installed (List.ne_nil_of_length_pos (Nat.zero_lt_of_lt hlt))
  have hok := (hs.watchers k session w hk hw).step (by omega) hstep
  refine hs.setSession hk (.inl ⟨rfl, rfl⟩) fun x hx => ?_
  obtain rfl := Option.some.inj hx
  exact hok

structure Paced (s : Supervisor) : Prop where
  returned : s.pc = .returned → s.done = true
  cur : s.cur = reconnectCur s.waits
  wait : ∀ delay, s.pc = .wait delay → s.waits ≠ 0 ∧ s.cur - s.cur / 5 ≤ delay ∧ delay ≤ s.cur

theorem Paced.backOff (hs : s.Paced) {connected : Bool} {jitter : Nat}
    (h : s.backOff connected jitter = some t) : t.Paced := by
  obtain ⟨hjitter, hu⟩ := Option.ite_none_right_eq_some.mp h
  obtain rfl := Option.some.inj hu
  refine ⟨by simp, ?_, fun delay hdelay => ?_⟩
  · rw [← nextReconnect_reconnectCur]
    cases connected with
    | true => rfl
    | false => exact congrArg nextReconnect hs.cur
  · obtain rfl := StartPc.wait.inj hdelay
    exact ⟨Nat.succ_ne_zero _, by dsimp only; omega, Nat.sub_le ..⟩

theorem inv_step (hs : s.Inv ∧ s.Paced) {l : SupervisorLabel} (h : s.step l = some t) :
    t.Inv ∧ t.Paced := by
  obtain ⟨hs, hp⟩ := hs
  have hended : ∀ {k connected}, s.pc.session = some k → s.endSession k connected = some t →
      t.Inv ∧ t.Paced := by
    intro k connected hpc h
    refine ⟨hs.endSession hpc h, ?_⟩
    obtain ⟨session, -, rfl⟩ := Option.map_eq_some_iff.mp h
    exact ⟨by simp, hp.cur, by simp⟩
  have hreturned : s.pc.session = none → s.done = true → some { s with pc := .returned } = some t →
      t.Inv ∧ t.Paced := by
    rintro hpc hdone ⟨⟩
    exact ⟨hs.move hpc rfl _ _, fun _ => hdone, hp.cur, by simp⟩
  cases l with
  | cancel =>
    obtain rfl := Option.some.inj h
    exact ⟨{ hs with }, { hp with returned := fun _ => rfl }⟩
  | control ok =>
    cases hpc : s.pc <;> simp only [step, hpc, reduceCtorEq, Option.some.injEq] at h
    have hsession := congrArg StartPc.session hpc
    cases ok with
    | true =>
      subst h
      exact ⟨hs.openSession hsession, by simp [openSession], hp.cur, by simp [openSession]⟩
    | false =>
      subst h
      exact ⟨hs.move hsession rfl _ _, by simp, hp.cur, by simp⟩
  | hello ok =>
    cases hpc : s.pc <;> simp only [step, hpc, reduceCtorEq] at h
    have hsession := congrArg StartPc.session hpc
    cases ok with
    | true =>
      refine ⟨hs.sentHello hsession h, ?_⟩
      obtain ⟨session, -, rfl⟩ := Option.map_eq_some_iff.mp h
      exact ⟨by simp, hp.cur, by simp⟩
    | false => exact hended hsession h
  | heartbeat ok =>
    cases hpc : s.pc <;> simp only [step, hpc, reduceCtorEq] at h
    cases ok with
    | true =>
      obtain rfl := Option.some.inj h
      exact ⟨hs, hp⟩
    | false => exact hended (congrArg StartPc.session hpc) h
  | recvErr =>
    cases hpc : s.pc <;> simp only [step, hpc, reduceCtorEq] at h
    exact hended (congrArg StartPc.session hpc) h
  | sessionDone =>
    cases hpc : s.pc <;> simp only [step, hpc, reduceCtorEq, Option.ite_none_right_eq_some] at h
    exact hended (congrArg StartPc.session hpc) h.2
  | next jitter =>
    cases hpc : s.pc <;> simp only [step, hpc, reduceCtorEq] at h
    have hsession := congrArg StartPc.session hpc
    by_cases hdone : s.done = true
    · exact hreturned hsession hdone ((if_pos hdone).symm.trans h)
    · rw [if_neg hdone] at h
      refine ⟨?_, hp.backOff h⟩
      obtain ⟨-, hu⟩ := Option.ite_none_right_eq_some.mp h
      obtain rfl := Option.some.inj hu
      exact hs.move hsession rfl _ _
  | timer =>
    cases hpc : s.pc <;> simp only [step, hpc, reduceCtorEq, Option.some.injEq] at h
    subst h
    exact ⟨hs.move (congrArg StartPc.session hpc) rfl _ _, by simp, hp.cur, by simp⟩
  | ctxDone =>
    cases hpc : s.pc <;> simp only [step, hpc, reduceCtorEq, Option.ite_none_right_eq_some] at h
    exact hreturned (congrArg StartPc.session hpc) h.1 h.2
  | watcher k l =>
    refine ⟨hs.stepWatcher h, ?_⟩
    obtain ⟨session, w, w', -, -, -, rfl⟩ := stepWatcher_cases h
    exact { hp with }

theorem inv_of_run {docker : Bool} {ls : List SupervisorLabel}
    (h : Lts.AnyRun step { docker := docker } ls s) : s.Inv ∧ s.Paced :=
  h.invariant (I := fun u => u.Inv ∧ u.Paced) (fun _ _ _ hu _ hstep => inv_step hu hstep)
    ⟨⟨by simp, by simp, by simp [StartPc.session], by simp⟩, ⟨by simp, rfl, by simp⟩⟩

/-- For every run of `Start` with its sessions and their watchers: the one session that is not over is
the newest, and its stream is installed; `Start` returns only when its context is done, and its wait
number `n` since the last session that connected takes between four fifths of `min(30s, 2ⁿ⁻¹s)` and
all of it. -/
theorem one_session_of_run {docker : Bool} {ls : List SupervisorLabel}
    (h : Lts.AnyRun step { docker := docker } ls s) :
    (∀ (k : Nat) session, s.sessions[k]? = some session → session.cancelled = false →
      s.pc.session = some k ∧ k + 1 = s.sessions.length ∧ s.stream = k) ∧
    (s.pc = .returned → s.done = true) ∧
    ∀ delay, s.pc = .wait delay → ∃ n, s.waits = n + 1 ∧
      let cur := Backoff.delay reconnectMaxDelay reconnectBaseDelay n
      cur - cur / 5 ≤ delay ∧ delay ≤ cur := by
  obtain ⟨hs, hpaced⟩ := inv_of_run h
  refine ⟨fun k session hk hlive => ?_, hpaced.returned, fun delay hdelay => ?_⟩
  · have hpc := hs.live k session hk hlive
    have hlast := hs.newest k hpc
    have hstream := hs.installed (List.ne_nil_of_length_pos (by omega))
    exact ⟨hpc, hlast, by omega⟩
  · obtain ⟨hne, hbounds⟩ := hpaced.wait delay hdelay
    obtain ⟨n, hn⟩ := Nat.exists_eq_succ_of_ne_zero hne
    rw [hpaced.cur, hn] at hbounds
    exact ⟨n, hn, hbounds⟩

def reconnects : List SupervisorLabel :=
  [.control false, .next 0, .timer, .control true, .hello true, .recvErr, .next 5, .timer, .control true]

/-- The second session is open; the wait before it is the first since the first session connected. -/
theorem one_session_of_reconnects : ∃ s t session delay,
    Lts.AnyRun step { docker := true } reconnects s ∧ s.sessions.length = 2 ∧
    s.sessions[1]? = some session ∧ session.cancelled = false ∧ s.pc.session = some 1 ∧ s.stream = 1 ∧
    Lts.AnyRun step { docker := true } (reconnects.take 7) t ∧ t.pc = .wait delay ∧
    800000000 ≤ delay ∧ delay ≤ second := by
  let s := (Lts.exec step { docker := true } reconnects).get (by decide +kernel)
  let t := (Lts.exec step { docker := true } (reconnects.take 7)).get (by decide +kernel)
  have hrun := Lts.anyRun_of_exec (t := s) (Option.some_get _).symm
  have hrun' := Lts.anyRun_of_exec (t := t) (Option.some_get _).symm
  let session := (s.sessions[1]?).get (by decide +kernel)
  have hsession : s.sessions[1]? = some session := (Option.some_get _).symm
  have hlive : session.cancelled = false := by rfl
  have hwait : t.pc = .wait 999999995 := by rfl
  obtain ⟨hpc, -, hstream⟩ := (one_session_of_run hrun).1 1 session hsession hlive
  obtain ⟨n, hn, hbounds⟩ := (one_session_of_run hrun').2.2 _ hwait
  obtain rfl : 0 = n := Nat.succ.inj hn
  exact ⟨s, t, session, _, hrun, by rfl, hsession, hlive, hpc, hstream, hrun', hwait, hbounds⟩

/-- For every run: the messages of a watcher that name a container are handed to `send` once each
and in order, on streams that are not older than its session, and on the one of its session as long
as that is not over; and before retry number `n` in a row the watcher waits `min(30s, 2ⁿs)`. -/
theorem events_in_order_of_run {docker : Bool} {ls : List SupervisorLabel}
    (h : Lts.AnyRun step { docker := docker } ls s) (hk : s.sessions[k]? = some session)
    (hw : session.watcher = some w) :
    w.received.filter (·.actorId ≠ "") = w.sent.map Prod.snd ++ w.pc.pending ∧
    (∀ x ∈ w.sent, k ≤ x.1 ∧ x.1 < s.sessions.length) ∧
    (session.cancelled = false → ∀ x ∈ w.sent, x.1 = k) ∧
    w.delay = Backoff.delay dockerEventRetry.max dockerEventRetry.base w.retries := by
  have hs := (inv_of_run h).1
  have hok := hs.watchers k session w hk hw
  refine ⟨hok.sent, hok.streams, fun hlive x hx => ?_, hok.delay⟩
  have hlast := hs.newest k (hs.live k session hk hlive)
  have hstream := hok.streams x hx
  omega

def eventAcrossSessions : List SupervisorLabel :=
  [.control true, .hello true, .watcher 0 .check, .watcher 0 .events, .watcher 0 (.message ⟨"die", ""⟩),
    .watcher 0 (.message ⟨"die", "c1"⟩), .recvErr, .next 0, .timer, .control true, .watcher 0 .send]

theorem events_in_order_across_sessions : ∃ s session w,
    Lts.AnyRun step { docker := true } eventAcrossSessions s ∧ s.sessions[0]? = some session ∧
    session.watcher = some w ∧ w.sent = [(1, ⟨"die", "c1"⟩)] ∧
    w.received.filter (·.actorId ≠ "") = w.sent.map Prod.snd := by
  let s := (Lts.exec step { docker := true } eventAcrossSessions).get (by decide +kernel)
  have hrun := Lts.anyRun_of_exec (t := s) (Option.some_get _).symm
  let w : EventWatcher :=
    { pc := .consume true, received := [⟨"die", ""⟩, ⟨"die", "c1"⟩], sent := [(1, ⟨"die", "c1"⟩)] }
  have hsession : s.sessions[0]? = some ⟨true, some w⟩ := by rfl
  have hsent := (events_in_order_of_run hrun hsession rfl).1
  exact ⟨s, _, w, hrun, hsession, rfl, rfl, hsent.trans (List.append_nil _)⟩

end Supervisor

end Hostlink.Agent
