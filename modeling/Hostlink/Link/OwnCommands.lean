import Hostlink.Lib.Run
import Hostlink.Link.CommandSteps

/-! The commands of a stream and the loop that handles them. `runSession` does not wait for its
receive loop, and the loop reads `a.stream` anew before each `Recv`: a loop that is still busy when
the next stream is installed goes on with the commands of that stream, under its own context. -/

namespace Hostlink

def CommandLoopPc.idle : CommandLoopPc → Bool
  | .off | .returned => true
  | _ => false

def CommandLoopPc.stream? : CommandLoopPc → Option Nat
  | .recv k | .handle k _ => some k
  | _ => none

def CommandLoopPc.inHand : CommandLoopPc → List AgentCommand
  | .handle _ cmd => [cmd]
  | _ => []

namespace CommandAgent
variable {s t : CommandAgent} {l : CommandLabel} {i k : Nat}

def commandsOf (s : CommandAgent) (k : Nat) : List AgentCommand :=
  (s.handled.filter fun e => e.stream = k).map HandledCommand.cmd

/-- A stream is installed only when the loops of the earlier sessions have returned. -/
def awaitsLoops (s : CommandAgent) : CommandLabel → Bool
  | .control => s.sessions.all fun session => session.loop.idle
  | _ => true

/-! ### The invariant -/

structure Own (n i : Nat) (done : List AgentCommand) (session : CommandSession) : Prop where
  newest : session.loop.idle = false → i + 1 = n
  stream : ∀ k, session.loop.stream? = some k → k = i
  order : done ++ session.loop.inHand = session.down.received

structure InSession (s : CommandAgent) : Prop where
  installed : ∀ k, s.stream = some k → k + 1 = s.sessions.length
  opening : ∀ k session, s.pc = .hello k → s.sessions[k]? = some session →
    session.loop = .off ∧ k + 1 = s.sessions.length
  own : ∀ i session, s.sessions[i]? = some session →
    Own s.sessions.length i (s.commandsOf i) session
  handled : ∀ e ∈ s.handled, e.loop = e.stream ∧ e.stream < s.sessions.length
  tasks : ∀ x ∈ s.tasks, x.ctx = x.stream

theorem commandsOf_length (hi : s.InSession) : s.commandsOf s.sessions.length = [] := by
  have hnone : s.handled.filter (fun e => e.stream = s.sessions.length) = [] := by
    refine List.filter_eq_nil_iff.mpr fun e he => ?_
    have hlt := (hi.handled e he).2
    simp only [decide_eq_true_eq]
    omega
  rw [commandsOf, hnone, List.map_nil]

/-! ### One step -/

theorem InSession.of_tasks (hi : s.InSession) (hsessions : t.sessions = s.sessions)
    (hstream : t.stream = s.stream) (hpc : t.pc = s.pc) (hhandled : t.handled = s.handled)
    (htasks : ∀ x ∈ t.tasks, x.ctx = x.stream) : t.InSession := by
  have hcommands : t.commandsOf = s.commandsOf := by
    funext j
    rw [commandsOf, hhandled, commandsOf]
  constructor
  · rw [hstream, hsessions]
    exact hi.installed
  · rw [hpc, hsessions]
    exact hi.opening
  · rw [hsessions, hcommands]
    exact hi.own
  · rw [hhandled, hsessions]
    exact hi.handled
  · exact htasks

theorem InSession.set {session : CommandSession} {new : CommandSession} (hi : s.InSession)
    (hk : s.sessions[i]? = some session) (hsessions : t.sessions = s.sessions.set i new)
    (hstream : t.stream = s.stream) (hhandled : t.handled = s.handled)
    (htasks : ∀ x ∈ t.tasks, x.ctx = x.stream)
    (hopening : ∀ k, t.pc = .hello k → s.pc = .hello k ∧ (k = i → new.loop = session.loop))
    (hnew : Own s.sessions.length i (s.commandsOf i) new) : t.InSession := by
  have hlength : t.sessions.length = s.sessions.length := by rw [hsessions, List.length_set]
  have hcommands : ∀ j, t.commandsOf j = s.commandsOf j := fun j => by
    rw [commandsOf, hhandled, commandsOf]
  constructor
  · intro k h
    rw [hlength]
    exact hi.installed k (hstream ▸ h)
  · intro k other hpc hother
    obtain ⟨hpc', hloop⟩ := hopening k hpc
    rw [hsessions] at hother
    rw [hlength]
    rcases List.getElem?_of_set hother with ⟨-, hold⟩ | ⟨hki, rfl⟩
    · exact hi.opening k other hpc' hold
    · subst hki
      rw [hloop rfl]
      exact hi.opening k session hpc' hk
  · intro j other hother
    rw [hsessions] at hother
    rw [hlength, hcommands]
    rcases List.getElem?_of_set hother with ⟨-, hold⟩ | ⟨rfl, rfl⟩
    · exact hi.own j other hold
    · exact hnew
  · intro e he
    rw [hlength]
    exact hi.handled e (hhandled ▸ he)
  · exact htasks

theorem InSession.setLoop {session new : CommandSession} (hi : s.InSession)
    (hk : s.sessions[i]? = some session) (hactive : session.loop ≠ .off)
    (hsessions : t.sessions = s.sessions.set i new) (hstream : t.stream = s.stream)
    (hhandled : t.handled = s.handled) (htasks : ∀ x ∈ t.tasks, x.ctx = x.stream)
    (hpc : t.pc = s.pc) (hnew : Own s.sessions.length i (s.commandsOf i) new) : t.InSession := by
  refine hi.set hk hsessions hstream hhandled htasks (fun k hk' => ?_) hnew
  rw [hpc] at hk'
  refine ⟨hk', ?_⟩
  rintro rfl
  exact absurd (hi.opening k session hk' hk).1 hactive

theorem InSession.control (hi : s.InSession)
    (hidle : s.sessions.all (fun session => session.loop.idle) = true)
    (hsessions : t.sessions = s.sessions ++ [({} : CommandSession)]) (hstream : t.stream = some s.sessions.length)
    (hpc : t.pc = .hello s.sessions.length) (hhandled : t.handled = s.handled)
    (htasks : t.tasks = s.tasks) : t.InSession := by
  have hlength : t.sessions.length = s.sessions.length + 1 := by
    rw [hsessions, List.length_append, List.length_singleton]
  have hcommands : ∀ j, t.commandsOf j = s.commandsOf j := fun j => by
    rw [commandsOf, hhandled, commandsOf]
  constructor
  · intro k h
    obtain rfl := Option.some.inj (hstream.symm.trans h)
    exact hlength.symm
  · intro k session h hk
    obtain rfl := SupervisorPc.hello.inj (hpc.symm.trans h)
    rw [hsessions, List.getElem?_concat_length] at hk
    obtain rfl := Option.some.inj hk
    exact ⟨rfl, hlength.symm⟩
  · intro j session hj
    rw [hsessions] at hj
    rw [hcommands]
    rcases List.getElem?_of_concat hj with hold | ⟨rfl, rfl⟩
    · -- an earlier loop is past its last read of `a.stream`
      have hown := hi.own j session hold
      have hloop : session.loop.idle = true :=
        List.all_eq_true.mp hidle session (List.mem_of_getElem? hold)
      exact ⟨fun h => (by rw [hloop] at h; cases h), hown.stream, hown.order⟩
    · refine ⟨fun h => (by cases h), fun k h => (by cases h), ?_⟩
      rw [commandsOf_length hi]
      rfl
  · intro e he
    have hold := hi.handled e (hhandled ▸ he)
    exact ⟨hold.1, by omega⟩
  · rw [htasks]
    exact hi.tasks

theorem tasks_set {n : Nat} {x y : AgentTask} (h : ∀ x ∈ s.tasks, x.ctx = x.stream)
    (hx : s.tasks[n]? = some x) (hctx : y.ctx = x.ctx) (hstream : y.stream = x.stream) :
    ∀ z ∈ s.tasks.set n y, z.ctx = z.stream := by
  intro z hz
  rcases List.mem_or_eq_of_mem_set hz with hold | rfl
  · exact h z hold
  · rw [hctx, hstream]
    exact h x (List.mem_of_getElem? hx)

theorem handleCommand_tasks (h : ∀ x ∈ s.tasks, x.ctx = x.stream) (i : Nat) (cmd : AgentCommand) :
    ∀ x ∈ (s.handleCommand i i cmd).1.tasks, x.ctx = x.stream := by
  rcases s.handleCommand_cases i i cmd with
    hsame | ⟨req, n, -, -, -, hcancel⟩ | ⟨req, -, -, -, hstart⟩ | ⟨x, -, hctx, hstream, htasks, -⟩
  · rw [hsame]
    exact h
  · rw [hcancel]
    unfold cancelTask
    split
    · next x hx => exact tasks_set h hx rfl rfl
    · exact h
  · rw [hstart]
    exact List.forall_mem_append.mpr ⟨h, List.forall_mem_singleton.mpr rfl⟩
  · rw [htasks]
    refine List.forall_mem_append.mpr ⟨h, List.forall_mem_singleton.mpr ?_⟩
    rw [hctx, hstream]

theorem handleCommand_loop (s : CommandAgent) (i k : Nat) (cmd : AgentCommand) :
    (s.handleCommand i k cmd).2.stream? = none ∧ (s.handleCommand i k cmd).2.inHand = [] := by
  cases cmd with
  | openForward | request | other => exact ⟨rfl, rfl⟩
  | chunk requestId chunk =>
    simp only [handleCommand]
    split <;> exact ⟨rfl, rfl⟩

theorem InSession.handle {session : CommandSession} {cmd : AgentCommand} (hi : s.InSession)
    (hk : s.sessions[i]? = some session) (hloop : session.loop = .handle k cmd) :
    InSession { (s.handleCommand i k cmd).1.setSession i
        { session with loop := (s.handleCommand i k cmd).2 } with
      handled := s.handled ++ [⟨i, k, cmd⟩] } := by
  have hown := hi.own i session hk
  obtain rfl : k = i := hown.stream k (by rw [hloop]; rfl)
  obtain ⟨hsessions, hstream, hpc⟩ := s.handleCommand_frame k k cmd
  obtain ⟨hrecv, hhand⟩ := s.handleCommand_loop k k cmd
  have hlt : k < s.sessions.length := (List.getElem?_eq_some_iff.mp hk).1
  have hnewest : k + 1 = s.sessions.length := hown.newest (by rw [hloop]; rfl)
  have hcommands : ∀ j, commandsOf { (s.handleCommand k k cmd).1.setSession k
        { session with loop := (s.handleCommand k k cmd).2 } with
      handled := s.handled ++ [⟨k, k, cmd⟩] } j =
        s.commandsOf j ++ if k = j then [cmd] else [] := by
    intro j
    simp only [commandsOf, List.filter_append, List.map_append, List.filter_singleton]
    by_cases hj : k = j
    · simp [hj]
    · simp [hj]
  constructor
  · intro j h
    show j + 1 = ((s.handleCommand k k cmd).1.sessions.set k _).length
    rw [hsessions, List.length_set]
    exact hi.installed j (hstream ▸ h)
  · intro j other h hother
    have hj : s.pc = .hello j := hpc ▸ h
    have hother' : ((s.handleCommand k k cmd).1.sessions.set k _)[j]? = some other := hother
    show _ ∧ j + 1 = ((s.handleCommand k k cmd).1.sessions.set k _).length
    rw [hsessions] at hother' ⊢
    rw [List.length_set]
    rcases List.getElem?_of_set hother' with ⟨-, hold⟩ | ⟨rfl, -⟩
    · exact hi.opening j other hj hold
    · have hoff := (hi.opening j session hj hk).1
      rw [hloop] at hoff
      cases hoff
  · intro j other hother
    have hother' : ((s.handleCommand k k cmd).1.sessions.set k _)[j]? = some other := hother
    show Own ((s.handleCommand k k cmd).1.sessions.set k _).length _ _ _
    rw [hsessions] at hother' ⊢
    rw [List.length_set, hcommands]
    rcases List.getElem?_of_set hother' with ⟨hne, hold⟩ | ⟨rfl, rfl⟩
    · rw [if_neg (Ne.symm hne), List.append_nil]
      exact hi.own j other hold
    · refine ⟨fun _ => hnewest, fun n hn => (by rw [hrecv] at hn; cases hn), ?_⟩
      have horder := hown.order
      rw [hloop] at horder
      rw [if_pos rfl, hhand, List.append_nil]
      exact horder
  · intro e he
    show _ ∧ e.stream < ((s.handleCommand k k cmd).1.sessions.set k _).length
    rw [hsessions, List.length_set]
    rcases List.mem_append.mp he with hold | hnew
    · exact hi.handled e hold
    · obtain rfl := List.mem_singleton.mp hnew
      exact ⟨rfl, hlt⟩
  · exact handleCommand_tasks hi.tasks k cmd

theorem InSession.step (hi : s.InSession) (hok : s.awaitsLoops l = true)
    (hstep : s.step l = some t) : t.InSession := by
  cases step_cases hstep with
  | control hpc => exact hi.control hok rfl rfl rfl rfl rfl
  | hello k session hpc hk =>
    obtain ⟨hoff, hnewest⟩ := hi.opening k session hpc hk
    have horder := (hi.own k session hk).order
    rw [hoff] at horder
    exact hi.set hk rfl rfl rfl hi.tasks (fun j hj => by cases hj)
      ⟨fun _ => hnewest, fun j hj => (by cases hj), horder⟩
  | endSession l k session pc hk hl hnext =>
    have hown := hi.own k session hk
    refine hi.set hk rfl rfl rfl hi.tasks (fun j hj => ?_) ⟨hown.newest, hown.stream, hown.order⟩
    rcases hnext with rfl | rfl <;> cases hj
  | heartbeat => exact hi
  | stop => exact ⟨hi.installed, fun k session h => (by cases h), hi.own, hi.handled, hi.tasks⟩
  | push k cmd session hk =>
    have hown := hi.own k session hk
    refine hi.set hk rfl rfl rfl hi.tasks (fun j hj => ⟨hj, fun _ => rfl⟩) ⟨hown.newest, hown.stream, ?_⟩
    rw [Fifo.received_push]
    exact hown.order
  | broken k session hk =>
    have hown := hi.own k session hk
    exact hi.set hk rfl rfl rfl hi.tasks (fun j hj => ⟨hj, fun _ => rfl⟩)
      ⟨hown.newest, hown.stream, hown.order⟩
  | loopHead i k session hk hloop hstream =>
    have hown := hi.own i session hk
    have hnewest : i + 1 = s.sessions.length := hown.newest (by rw [hloop]; rfl)
    have hinstalled := hi.installed k hstream
    have horder := hown.order
    rw [hloop] at horder
    refine hi.setLoop hk (by rw [hloop]; rintro ⟨⟩) rfl rfl rfl hi.tasks rfl
      ⟨fun _ => hnewest, fun j hj => ?_, horder⟩
    obtain rfl : k = j := Option.some.inj hj
    omega
  | loopRecv i k session source own cmd down hk hloop hsource hpop hown' =>
    have hown := hi.own i session hk
    obtain rfl : k = i := hown.stream k (by rw [hloop]; rfl)
    obtain rfl : session = source := Option.some.inj (hk.symm.trans hsource)
    have hlt : k < s.sessions.length := (List.getElem?_eq_some_iff.mp hk).1
    rw [setSession, List.getElem?_set_self hlt] at hown'
    obtain rfl := Option.some.inj hown'
    have horder := hown.order
    rw [hloop] at horder
    refine hi.setLoop hk (by rw [hloop]; rintro ⟨⟩) (List.set_set ..) rfl rfl hi.tasks rfl
      ⟨fun _ => hown.newest (by rw [hloop]; rfl), fun j hj => (Option.some.inj hj).symm, ?_⟩
    rw [Fifo.received_pop? hpop, ← horder]
    exact congrArg (· ++ [cmd]) (List.append_nil _).symm
  | loopReturn i k session hk hloop =>
    have horder := (hi.own i session hk).order
    rw [hloop] at horder
    exact hi.setLoop hk (by rw [hloop]; rintro ⟨⟩) rfl rfl rfl hi.tasks rfl
      ⟨fun h => (by cases h), fun j hj => (by cases hj), horder⟩
  | handle i k session cmd hk hloop => exact hi.handle hk hloop
  | routePut i n session chunk x hk hloop hx =>
    have hown := hi.own i session hk
    have horder := hown.order
    rw [hloop] at horder
    exact hi.setLoop hk (by rw [hloop]; rintro ⟨⟩) rfl rfl rfl (tasks_set hi.tasks hx rfl rfl) rfl
      ⟨fun _ => hown.newest (by rw [hloop]; rfl), fun j hj => (by cases hj), horder⟩
  | routeDrop i n session chunk hk hloop =>
    have hown := hi.own i session hk
    have horder := hown.order
    rw [hloop] at horder
    exact hi.setLoop hk (by rw [hloop]; rintro ⟨⟩) rfl rfl rfl hi.tasks rfl
      ⟨fun _ => hown.newest (by rw [hloop]; rfl), fun j hj => (by cases hj), horder⟩
  | take n x ch hx => exact hi.of_tasks rfl rfl rfl rfl (tasks_set hi.tasks hx rfl rfl)
  | finish n x hx hrun =>
    obtain ⟨cancelled, htasks⟩ := s.finish_tasks n x
    obtain ⟨hsessions, hstream, hpc, hhandled⟩ := s.finish_frame n x
    refine hi.of_tasks hsessions hstream hpc hhandled ?_
    rw [htasks]
    exact tasks_set hi.tasks hx rfl rfl

theorem inSession_of_run {ls : List CommandLabel}
    (h : Lts.Run step (fun s l => s.awaitsLoops l = true) init ls s) : s.InSession := by
  refine h.invariant (fun _ _ _ hi hok hs => hi.step hok hs) ?_
  exact ⟨fun k h => (by cases h), fun k _ h => (by cases h), fun i _ h => (by cases h),
    fun e h => (by cases h), fun x h => (by cases h)⟩

/-- The commands of a stream are received by the loop of its own session, in the order of the
stream, and what they start runs under that session's context. -/
theorem commands_stay_in_session {ls : List CommandLabel}
    (hrun : Lts.Run step (fun s l => s.awaitsLoops l = true) init ls s) :
    (∀ e ∈ s.handled, e.loop = e.stream) ∧
      (∀ (i : Nat) session k, s.sessions[i]? = some session → session.loop.stream? = some k → k = i) ∧
      (∀ (k : Nat) session, s.sessions[k]? = some session →
        s.commandsOf k ++ session.loop.inHand = session.down.received) ∧
      ∀ x ∈ s.tasks, x.ctx = x.stream := by
  have hi : s.InSession := inSession_of_run hrun
  refine ⟨fun e he => (hi.handled e he).1, ?_, fun k session hk => (hi.own k session hk).order,
    hi.tasks⟩
  intro i session k hk hstream
  exact (hi.own i session hk).stream k hstream

def serveCommand (i : Nat) : List CommandLabel := [.loopHead i, .loopRecv i, .handle i]

def listImages : AgentCommand := .request ⟨"1", "images.list", none⟩

def twoSessions : List CommandLabel :=
  [.control, .hello true, .push 0 listImages] ++ serveCommand 0 ++
    [.loopHead 0, .loopReturn 0, .sessionEnd, .control, .hello true, .push 1 listImages] ++
    serveCommand 1

theorem commands_stay_in_session_reconnected : ∃ s,
    Lts.Run step (fun s l => s.awaitsLoops l = true) init twoSessions s ∧
      s.commandsOf 1 = [listImages] ∧ ∀ e ∈ s.handled, e.loop = e.stream := by
  let s := (Lts.execOk step (fun s l => s.awaitsLoops l = true) init twoSessions).get
    (by decide +kernel)
  have hrun := Lts.run_of_execOk (t := s) (Option.some_get _).symm
  exact ⟨s, hrun, by decide +kernel, (commands_stay_in_session hrun).1⟩

def bodyChunk : AgentCommand := .chunk "1" ⟨[0], false⟩

def fullUpload : List CommandLabel :=
  [.control, .hello true, .push 0 (.request ⟨"1", "fs.write", none⟩)] ++ serveCommand 0 ++
    (List.replicate 8 (.push 0 bodyChunk :: serveCommand 0 ++ [.routePut 0])).flatten ++
    (.push 0 bodyChunk :: serveCommand 0)

/-- The loop of the first session is waiting for the upload when the second session begins, and
goes on when the upload's handler notices that its session is over. -/
def lateLoop : List CommandLabel :=
  fullUpload ++ [.heartbeat false, .control, .hello true, .push 1 listImages, .finish 0,
    .routeDrop 0] ++ serveCommand 0

/-- It then takes the first command of the second session's stream and runs it under the context
of the first, which is over. -/
theorem command_leaves_session : ∃ s,
    Lts.AnyRun step init lateLoop s ∧ ⟨0, 1, listImages⟩ ∈ s.handled ∧
      (s.sessions[0]?).map (·.ended) = some true ∧ (s.sessions[1]?).map (·.loop) = some .head ∧
      s.tasks[1]? = some ⟨0, 1, "1", .single, false, [], false⟩ := by
  let s := (Lts.exec step init lateLoop).get (by decide +kernel)
  have hrun := Lts.anyRun_of_exec (t := s) (Option.some_get _).symm
  exact ⟨s, hrun, by decide +kernel, by decide +kernel, by decide +kernel, by decide +kernel⟩

end CommandAgent
end Hostlink
