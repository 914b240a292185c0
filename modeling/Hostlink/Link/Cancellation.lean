import Hostlink.Lib.Run
import Hostlink.Link.CommandSteps

/-! A `request.cancel` and the handler it is meant for. `cancels` is shared by all sessions while ids
start anew with each, and a handler takes its id out of the table whenever it finishes: the table
finds the running handlers as long as no two of them bear one id. -/

namespace Hostlink
namespace CommandAgent
open Function (update)

variable {s t : CommandAgent} {l : CommandLabel} {n : Nat} {x y : AgentTask}

def contextDone (s : CommandAgent) (n : Nat) : Bool :=
  (s.tasks[n]?).any fun x => x.cancelled || (s.sessions[x.ctx]?).any (·.ended)

def runningId (s : CommandAgent) (n : Nat) : Option String :=
  (s.tasks[n]?).bind fun x => if x.running then some x.requestId else none

/-- No task runs under the id that the request of stream `k` opens, and none of another stream
under the id that it cancels. -/
def unambiguous (s : CommandAgent) (k : Nat) (req : AgentRequest) : Bool :=
  s.tasks.all fun x => !x.running ||
    if req.isCancel then req.target ≠ some x.requestId || x.stream = k
    else !req.isCancellable || x.requestId ≠ req.requestId

def requestInHand (s : CommandAgent) (i : Nat) : Option (Nat × AgentRequest) :=
  (s.sessions[i]?).bind fun session =>
    match session.loop with
    | .handle k (.request req) => some (k, req)
    | _ => none

def distinctIds (s : CommandAgent) : CommandLabel → Bool
  | .handle i => (s.requestInHand i).all fun x => s.unambiguous x.1 x.2
  | _ => true

/-! ### The table of the running handlers -/

theorem running_of_runningId {id : String} (h : s.runningId n = some id) :
    ∃ x, s.tasks[n]? = some x ∧ x.running = true ∧ x.requestId = id := by
  obtain ⟨x, hx, h⟩ := Option.bind_eq_some_iff.mp h
  split at h
  · next hrun => exact ⟨x, hx, hrun, Option.some.inj h⟩
  · cases h

theorem runningId_eq (hx : s.tasks[n]? = some x) :
    s.runningId n = if x.running then some x.requestId else none := by
  rw [runningId, hx, Option.bind_some]

theorem runningId_set (hx : s.tasks[n]? = some x) (h : t.tasks = s.tasks.set n y) :
    t.runningId = update s.runningId n (if y.running then some y.requestId else none) := by
  have hlt : n < s.tasks.length := (List.getElem?_eq_some_iff.mp hx).1
  show (fun m => t.tasks[m]?.bind _) = _
  rw [h]
  exact List.bind_getElem?_set _ hlt

theorem runningId_set_of_eq (hx : s.tasks[n]? = some x) (h : t.tasks = s.tasks.set n y)
    (hrun : y.running = x.running) (hid : y.requestId = x.requestId) :
    t.runningId = s.runningId := by
  rw [runningId_set hx h, hrun, hid, ← runningId_eq hx, Function.update_eq_self]

theorem runningId_cancelTask (s : CommandAgent) (n : Nat) :
    (s.cancelTask n).runningId = s.runningId := by
  unfold cancelTask
  split
  · next x hx => exact runningId_set_of_eq hx rfl rfl rfl
  · rfl

theorem runningId_concat (h : t.tasks = s.tasks ++ [x]) :
    t.runningId = update s.runningId s.tasks.length (if x.running then some x.requestId else none) := by
  show (fun m => t.tasks[m]?.bind _) = _
  rw [h]
  exact List.bind_getElem?_concat _

theorem runningId_length (s : CommandAgent) : s.runningId s.tasks.length = none := by
  rw [runningId, List.getElem?_eq_none (Nat.le_refl _), Option.bind_none]

theorem running_of_kind (h : x.kind ≠ .cancellable) : x.running = false := by
  rw [AgentTask.running, decide_eq_false h, Bool.false_and]

/-! ### One step -/

def Found (s : CommandAgent) : Prop := s.cancels.Indexes s.runningId

theorem Found.of_eq (h : s.Found) (hcancels : t.cancels = s.cancels)
    (hrunning : t.runningId = s.runningId) : t.Found := by
  rw [Found, hcancels, hrunning]
  exact h

theorem Found.startCancellable (h : s.Found) (i k : Nat) {req : AgentRequest}
    (hnew : ∀ n, s.runningId n ≠ some req.requestId) : (s.startCancellable i k req).Found := by
  have htasks : (s.startCancellable i k req).tasks = s.tasks ++
      [{ ctx := i, stream := k, requestId := req.requestId, kind := .cancellable }] := rfl
  have hrunning : (s.startCancellable i k req).runningId =
      update s.runningId s.tasks.length (some req.requestId) := runningId_concat htasks
  rw [Found, hrunning]
  exact GoMap.Indexes.insert h hnew s.runningId_length

/-- The key that a finished handler takes out of the table is its own only because nobody else runs
under it. -/
theorem Found.finish (h : s.Found) (hx : s.tasks[n]? = some x) (hrun : x.finished = false) :
    (s.finish n x).Found := by
  obtain ⟨cancelled, htasks⟩ := s.finish_tasks n x
  have hoff : AgentTask.running { x with finished := true, cancelled := cancelled } = false :=
    Bool.and_false _
  have hrunning : (s.finish n x).runningId = update s.runningId n none := by
    rw [runningId_set hx htasks, hoff, if_neg Bool.false_ne_true]
  rw [Found, hrunning, finish_cancels]
  by_cases hkind : x.kind = .cancellable
  · have hid : s.runningId n = some x.requestId := by
      rw [runningId_eq hx, AgentTask.running, hkind, hrun]
      rfl
    rw [if_pos hkind]
    exact GoMap.Indexes.erase h hid
  · have hid : s.runningId n = none := by
      rw [runningId_eq hx, running_of_kind hkind, if_neg Bool.false_ne_true]
    rw [if_neg hkind, ← hid, Function.update_eq_self]
    exact h

theorem Found.handleCommand (h : s.Found) (i k : Nat) (cmd : AgentCommand)
    (hok : ∀ req, cmd = .request req → s.unambiguous k req = true) :
    (s.handleCommand i k cmd).1.Found := by
  rcases s.handleCommand_cases i k cmd with
    hsame | ⟨req, n, -, -, -, hcancel⟩ | ⟨req, rfl, hcancel, hrun, hstart⟩ |
    ⟨x, hkind, -, -, htasks, hcancels⟩
  · rw [hsame]
    exact h
  · rw [hcancel]
    refine h.of_eq ?_ (s.runningId_cancelTask n)
    unfold cancelTask
    split <;> rfl
  · rw [hstart]
    refine h.startCancellable i k fun n hn => ?_
    obtain ⟨x, hx, hxrun, hid⟩ := running_of_runningId hn
    have hall := List.all_eq_true.mp (hok req rfl) x (List.mem_of_getElem? hx)
    simp [hxrun, hcancel, hrun, hid] at hall
  · refine h.of_eq hcancels ?_
    rw [runningId_concat htasks, running_of_kind hkind, if_neg Bool.false_ne_true,
      ← s.runningId_length, Function.update_eq_self]

theorem Found.step (h : s.Found) (hok : s.distinctIds l = true) (hstep : s.step l = some t) :
    t.Found := by
  cases step_cases hstep with
  | control | hello | endSession | heartbeat | stop | push | broken | loopHead | loopRecv | loopReturn
  | routeDrop => exact h
  | handle i k session cmd hi hloop =>
    refine Found.of_eq (h.handleCommand i k cmd fun req hreq => ?_) rfl rfl
    subst hreq
    have hhand : s.requestInHand i = some (k, req) := by
      simp only [requestInHand, hi, Option.bind_some, hloop]
    rw [distinctIds, hhand] at hok
    exact hok
  | routePut i n session chunk x hi hloop hx => exact h.of_eq rfl (runningId_set_of_eq hx rfl rfl rfl)
  | take n x ch hx => exact h.of_eq rfl (runningId_set_of_eq hx rfl rfl rfl)
  | finish n x hx hrun => exact h.finish hx hrun

theorem found_of_run {ls : List CommandLabel}
    (h : Lts.Run step (fun s l => s.distinctIds l = true) init ls s) : s.Found := by
  refine h.invariant (fun _ _ _ hf hok hs => hf.step hok hs) ?_
  intro id n
  exact iff_of_false (by rintro ⟨⟩) (by rintro ⟨⟩)

/-! ### A cancel -/

theorem contextDone_cancelTask_self (hx : s.tasks[n]? = some x) :
    (s.cancelTask n).contextDone n = true := by
  have hlt : n < s.tasks.length := (List.getElem?_eq_some_iff.mp hx).1
  rw [contextDone, cancelTask, hx]
  show ((s.tasks.set n { x with cancelled := true })[n]?).any _ = true
  rw [List.getElem?_set_self hlt, Option.any_some, Bool.true_or]

theorem contextDone_cancelTask_of_ne {m : Nat} (h : m ≠ n) :
    (s.cancelTask n).contextDone m = s.contextDone m := by
  unfold cancelTask
  split
  · show ((s.tasks.set n _)[m]?).any _ = _
    rw [List.getElem?_set_ne (Ne.symm h)]
    rfl
  · rfl

theorem contextDone_setLoop {i : Nat} {session : CommandSession} {loop : CommandLoopPc}
    {handled : List HandledCommand} (hi : s.sessions[i]? = some session) (m : Nat) :
    contextDone { s.setSession i { session with loop := loop } with handled := handled } m =
      s.contextDone m := by
  have hsession : ∀ j : Nat, ((s.sessions.set i { session with loop := loop })[j]?).any CommandSession.ended =
      (s.sessions[j]?).any CommandSession.ended := by
    intro j
    by_cases hj : j = i
    · subst hj
      rw [List.getElem?_set_self (List.getElem?_eq_some_iff.mp hi).1, hi]
      rfl
    · rw [List.getElem?_set_ne (Ne.symm hj)]
  show (s.tasks[m]?).any (fun x => x.cancelled ||
    ((s.sessions.set i { session with loop := loop })[x.ctx]?).any CommandSession.ended) = _
  simp only [hsession]
  rfl

theorem contextDone_handle_cancel {i k m : Nat} {req : AgentRequest}
    (hhand : s.requestInHand i = some (k, req)) (hcancel : req.isCancel = true)
    (hstep : s.step (.handle i) = some t) :
    t.contextDone m = (s.cancelInflight req).contextDone m := by
  cases step_cases hstep with
  | endSession l k' session pc hk hl hnext => cases hl
  | handle i k' session cmd hi hloop =>
    simp only [requestInHand, hi, Option.bind_some, hloop] at hhand
    split at hhand
    · next hcmd =>
      cases hcmd
      cases hhand
      have hrun : s.handleCommand i k (.request req) = (s.cancelInflight req, .head) := by
        rw [handleCommand, startRequest, if_pos hcancel]
      rw [hrun]
      refine contextDone_setLoop ?_ m
      rw [← hi, ← (s.handleCommand_frame i k (.request req)).1, hrun]
    · cases hhand

theorem cancelInflight_eq {req : AgentRequest} (h : s.Found) (hx : s.tasks[n]? = some x)
    (hrun : x.running = true) (htarget : req.target = some x.requestId) :
    s.cancelInflight req = s.cancelTask n := by
  have hid : s.runningId n = some x.requestId := by rw [runningId_eq hx, if_pos hrun]
  have hget : req.target.bind s.cancels.get = some n := by
    rw [htarget]
    exact (h _ _).mpr hid
  rw [cancelInflight, hget]

theorem stream_of_cancel {k m : Nat} {req : AgentRequest} (h : s.Found) (hcancel : req.isCancel = true)
    (hok : s.unambiguous k req = true) (hm : req.target.bind s.cancels.get = some m) :
    ∃ y, s.tasks[m]? = some y ∧ y.running = true ∧ y.stream = k ∧ req.target = some y.requestId := by
  obtain ⟨id, htarget, hget⟩ := Option.bind_eq_some_iff.mp hm
  obtain ⟨y, hy, hrun, rfl⟩ := running_of_runningId ((h id m).mp hget)
  have hall := List.all_eq_true.mp hok y (List.mem_of_getElem? hy)
  refine ⟨y, hy, hrun, ?_, htarget⟩
  simpa [hrun, hcancel, htarget] using hall

/-- A cancel that stream `k` carries ends the context of the request that was opened on `k` under
its id and still runs, and of no other request. -/
theorem cancel_reaches_request {ls : List CommandLabel} {i k : Nat} {req : AgentRequest}
    (hrun : Lts.Run step (fun s l => s.distinctIds l = true) init ls s)
    (hhand : s.requestInHand i = some (k, req)) (hcancel : req.isCancel = true)
    (hok : s.distinctIds (.handle i) = true) (hstep : s.step (.handle i) = some t) :
    (∀ n x, s.tasks[n]? = some x → x.running = true → x.stream = k →
        req.target = some x.requestId → t.contextDone n = true) ∧
      ∀ n x, s.tasks[n]? = some x →
        ¬(x.running = true ∧ x.stream = k ∧ req.target = some x.requestId) →
        t.contextDone n = s.contextDone n := by
  have hfound : s.Found := found_of_run hrun
  have hclear : s.unambiguous k req = true := by
    rw [distinctIds, hhand] at hok
    exact hok
  constructor
  · intro n x hx hxrun _ htarget
    rw [contextDone_handle_cancel hhand hcancel hstep, cancelInflight_eq hfound hx hxrun htarget]
    exact contextDone_cancelTask_self hx
  · intro n x hx hother
    rw [contextDone_handle_cancel hhand hcancel hstep]
    cases hm : req.target.bind s.cancels.get with
    | none => rw [cancelInflight, hm]
    | some m =>
      obtain ⟨y, hy, hyrun, hstream, htarget⟩ := stream_of_cancel hfound hcancel hclear hm
      rw [cancelInflight, hm]
      refine contextDone_cancelTask_of_ne ?_
      rintro rfl
      obtain rfl := Option.some.inj (hx.symm.trans hy)
      exact hother ⟨hyrun, hstream, htarget⟩

def openLogs (k : Nat) : List CommandLabel :=
  [.control, .hello true, .push k (.request ⟨"1", "containers.logs", none⟩), .loopHead k, .loopRecv k,
    .handle k]

def sendCancel (k : Nat) : List CommandLabel :=
  [.push k (.request ⟨"2", "request.cancel", some "1"⟩), .loopHead k, .loopRecv k]

def settledLogs : List CommandLabel :=
  openLogs 0 ++ [.heartbeat false, .finish 0, .loopHead 0, .loopReturn 0] ++ openLogs 1 ++ sendCancel 1

theorem cancel_reaches_request_settled : ∃ s t,
    Lts.Run step (fun s l => s.distinctIds l = true) init settledLogs s ∧
      s.step (.handle 1) = some t ∧ s.contextDone 1 = false ∧ t.contextDone 1 = true := by
  let s := (Lts.execOk step (fun s l => s.distinctIds l = true) init settledLogs).get
    (by decide +kernel)
  have hrun := Lts.run_of_execOk (t := s) (Option.some_get _).symm
  let t := (s.step (.handle 1)).get (by decide +kernel)
  have hstep : s.step (.handle 1) = some t := (Option.some_get _).symm
  have hhand : s.requestInHand 1 = some (1, ⟨"2", "request.cancel", some "1"⟩) := by decide +kernel
  have htask : s.tasks[1]? = some ⟨1, 1, "1", .cancellable, false, [], false⟩ := by decide +kernel
  have hreach := cancel_reaches_request hrun hhand (by decide) (by decide +kernel) hstep
  exact ⟨s, t, hrun, hstep, by decide +kernel, hreach.1 1 _ htask (by decide) rfl rfl⟩

def lingeringLogs : List CommandLabel :=
  openLogs 0 ++ [.heartbeat false, .loopHead 0, .loopReturn 0] ++ openLogs 1 ++ [.finish 0] ++
    sendCancel 1

/-- It then takes the id of the second session's request out of the table: the cancel finds nothing
and the followed logs go on. -/
theorem cancel_misses_request : ∃ s t,
    Lts.AnyRun step init lingeringLogs s ∧
      s.requestInHand 1 = some (1, ⟨"2", "request.cancel", some "1"⟩) ∧
      s.tasks[1]? = some ⟨1, 1, "1", .cancellable, false, [], false⟩ ∧
      s.step (.handle 1) = some t ∧ t.contextDone 1 = false := by
  let s := (Lts.exec step init lingeringLogs).get (by decide +kernel)
  have hrun := Lts.anyRun_of_exec (t := s) (Option.some_get _).symm
  let t := (s.step (.handle 1)).get (by decide +kernel)
  have hstep : s.step (.handle 1) = some t := (Option.some_get _).symm
  exact ⟨s, t, hrun, by decide +kernel, by decide +kernel, hstep, by decide +kernel⟩

end CommandAgent
end Hostlink
