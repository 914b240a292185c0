import Hostlink.Link.CommandLoops

/-! What one step of the agent's receive loops can do, said once. -/

namespace Hostlink
open Agent (UploadChunk)

def CommandLabel.ends : CommandLabel → Bool
  | .hello _ | .heartbeat _ | .sessionEnd | .stop => true
  | _ => false

namespace CommandAgent

inductive Step (s : CommandAgent) : CommandLabel → CommandAgent → Prop
  | control (hpc : s.pc = .between) : Step s .control { s with
      pc := .hello s.sessions.length
      stream := some s.sessions.length
      sessions := s.sessions ++ [{}] }
  | hello (k : Nat) (session : CommandSession) (hpc : s.pc = .hello k)
      (hk : s.sessions[k]? = some session) : Step s (.hello true)
        { s.setSession k { session with loop := .head } with pc := .running k }
  | endSession (l : CommandLabel) (k : Nat) (session : CommandSession) (pc : SupervisorPc)
      (hk : s.sessions[k]? = some session) (hl : l.ends = true)
      (hnext : pc = .between ∨ pc = .stopped) :
      Step s l { s.setSession k { session with ended := true } with pc := pc }
  | heartbeat : Step s (.heartbeat true) s
  | stop : Step s .stop { s with pc := .stopped }
  | push (k : Nat) (cmd : AgentCommand) (session : CommandSession)
      (hk : s.sessions[k]? = some session) :
      Step s (.push k cmd) (s.setSession k { session with down := session.down.push cmd })
  | broken (k : Nat) (session : CommandSession) (hk : s.sessions[k]? = some session) :
      Step s (.broken k) (s.setSession k { session with down := session.down.fail })
  | loopHead (i k : Nat) (session : CommandSession) (hi : s.sessions[i]? = some session)
      (hloop : session.loop = .head) (hstream : s.stream = some k) :
      Step s (.loopHead i) (s.setSession i { session with loop := .recv k })
  | loopRecv (i k : Nat) (session source own : CommandSession) (cmd : AgentCommand)
      (down : Fifo AgentCommand) (hi : s.sessions[i]? = some session)
      (hloop : session.loop = .recv k) (hk : s.sessions[k]? = some source)
      (hpop : source.down.pop? = some (cmd, down))
      (hown : (s.setSession k { source with down := down }).sessions[i]? = some own) :
      Step s (.loopRecv i) ((s.setSession k { source with down := down }).setSession i
        { own with loop := .handle k cmd })
  | loopReturn (i k : Nat) (session : CommandSession) (hi : s.sessions[i]? = some session)
      (hloop : session.loop = .recv k) :
      Step s (.loopReturn i) (s.setSession i { session with loop := .returned })
  | handle (i k : Nat) (session : CommandSession) (cmd : AgentCommand)
      (hi : s.sessions[i]? = some session) (hloop : session.loop = .handle k cmd) :
      Step s (.handle i) { (s.handleCommand i k cmd).1.setSession i
          { session with loop := (s.handleCommand i k cmd).2 } with
        handled := s.handled ++ [⟨i, k, cmd⟩] }
  | routePut (i h : Nat) (session : CommandSession) (chunk : UploadChunk) (x : AgentTask)
      (hi : s.sessions[i]? = some session) (hloop : session.loop = .route h chunk)
      (hx : s.tasks[h]? = some x) : Step s (.routePut i)
        ((s.setTask h { x with ch := x.ch ++ [chunk] }).setSession i { session with loop := .head })
  | routeDrop (i h : Nat) (session : CommandSession) (chunk : UploadChunk)
      (hi : s.sessions[i]? = some session) (hloop : session.loop = .route h chunk) :
      Step s (.routeDrop i) (s.setSession i { session with loop := .head })
  | take (h : Nat) (x : AgentTask) (ch : List UploadChunk) (hx : s.tasks[h]? = some x) :
      Step s (.take h) (s.setTask h { x with ch := ch })
  | finish (h : Nat) (x : AgentTask) (hx : s.tasks[h]? = some x) (hrun : x.finished = false) :
      Step s (.finish h) (s.finish h x)

variable {s t : CommandAgent} {l : CommandLabel}

theorem endSession_cases {k : Nat} {pc : SupervisorPc} (h : s.endSession k pc = some t)
    (hl : l.ends = true) (hnext : pc = .between ∨ pc = .stopped) : Step s l t := by
  obtain ⟨session, hk, rfl⟩ := Option.map_eq_some_iff.mp h
  exact .endSession l k session pc hk hl hnext

theorem stepSupervisor_cases (h : s.stepSupervisor l = some t) : Step s l t := by
  cases l with
  | control =>
    simp only [stepSupervisor] at h
    split at h
    · next hpc =>
      obtain rfl := Option.some.inj h
      exact .control hpc
    · cases h
  | hello ok =>
    simp only [stepSupervisor] at h
    split at h
    · next k hpc =>
      split at h
      · next hok =>
        obtain ⟨session, hk, rfl⟩ := Option.map_eq_some_iff.mp h
        rw [hok]
        exact .hello k session hpc hk
      · exact endSession_cases h rfl (.inl rfl)
    · cases h
  | heartbeat ok =>
    simp only [stepSupervisor] at h
    split at h
    · split at h
      · next hok =>
        obtain rfl := Option.some.inj h
        rw [hok]
        exact .heartbeat
      · exact endSession_cases h rfl (.inl rfl)
    · cases h
  | sessionEnd =>
    simp only [stepSupervisor] at h
    split at h
    · obtain ⟨session, -, h⟩ := Option.bind_eq_some_iff.mp h
      split at h
      · exact endSession_cases h rfl (.inl rfl)
      · cases h
    · cases h
  | stop =>
    simp only [stepSupervisor] at h
    split at h
    · obtain rfl := Option.some.inj h
      exact .stop
    · exact endSession_cases h rfl (.inr rfl)
    · cases h
  | push | broken | loopHead | loopRecv | loopReturn | handle | routePut | routeDrop | take
  | finish => cases h

theorem loopRecv_cases {i : Nat} {session : CommandSession} (hi : s.sessions[i]? = some session)
    (h : s.stepLoop i session (.loopRecv i) = some t) : Step s (.loopRecv i) t := by
  simp only [stepLoop] at h
  split at h
  · next k hloop =>
    obtain ⟨source, hk, h⟩ := Option.bind_eq_some_iff.mp h
    obtain ⟨⟨cmd, down⟩, hpop, h⟩ := Option.bind_eq_some_iff.mp h
    obtain ⟨own, hown, rfl⟩ := Option.map_eq_some_iff.mp h
    exact .loopRecv i k session source own cmd down hi hloop hk hpop hown
  · cases h

theorem route_cases {i : Nat} {session : CommandSession} (hi : s.sessions[i]? = some session)
    (hl : l = .routePut i ∨ l = .routeDrop i) (h : s.stepLoop i session l = some t) :
    Step s l t := by
  rcases hl with rfl | rfl
  · simp only [stepLoop] at h
    split at h
    · next n chunk hloop =>
      obtain ⟨x, hx, h⟩ := Option.bind_eq_some_iff.mp h
      split at h
      · obtain rfl := Option.some.inj h
        exact .routePut i n session chunk x hi hloop hx
      · cases h
    · cases h
  · simp only [stepLoop] at h
    split at h
    · next n chunk hloop =>
      obtain ⟨x, -, h⟩ := Option.bind_eq_some_iff.mp h
      split at h
      · obtain rfl := Option.some.inj h
        exact .routeDrop i n session chunk hi hloop
      · cases h
    · cases h

theorem stepTask_cases {n : Nat} {x : AgentTask} (hx : s.tasks[n]? = some x)
    (hl : l = .take n ∨ l = .finish n) (h : s.stepTask n x l = some t) : Step s l t := by
  rcases hl with rfl | rfl
  · simp only [stepTask] at h
    split at h
    · next ch _ =>
      split at h
      · cases h
      · obtain rfl := Option.some.inj h
        exact .take n x ch hx
    · cases h
  · simp only [stepTask] at h
    split at h
    · cases h
    · next hrun =>
      obtain rfl := Option.some.inj h
      exact .finish n x hx (eq_false_of_ne_true hrun)

theorem step_cases (h : s.step l = some t) : Step s l t := by
  cases l with
  | control | hello | heartbeat | sessionEnd | stop => exact stepSupervisor_cases h
  | push k cmd =>
    obtain ⟨session, hk, rfl⟩ := Option.map_eq_some_iff.mp h
    exact .push k cmd session hk
  | broken k =>
    obtain ⟨session, hk, rfl⟩ := Option.map_eq_some_iff.mp h
    exact .broken k session hk
  | loopHead i =>
    obtain ⟨session, hi, h⟩ := Option.bind_eq_some_iff.mp h
    simp only [stepLoop] at h
    split at h
    · next k hloop hstream =>
      obtain rfl := Option.some.inj h
      exact .loopHead i k session hi hloop hstream
    · cases h
  | loopRecv i =>
    obtain ⟨session, hi, h⟩ := Option.bind_eq_some_iff.mp h
    exact loopRecv_cases hi h
  | loopReturn i =>
    obtain ⟨session, hi, h⟩ := Option.bind_eq_some_iff.mp h
    simp only [stepLoop] at h
    split at h
    · next k hloop =>
      obtain rfl := Option.some.inj h
      exact .loopReturn i k session hi hloop
    · cases h
  | handle i =>
    obtain ⟨session, hi, h⟩ := Option.bind_eq_some_iff.mp h
    simp only [stepLoop] at h
    split at h
    · next k cmd hloop =>
      obtain rfl := Option.some.inj h
      exact .handle i k session cmd hi hloop
    · cases h
  | routePut i =>
    obtain ⟨session, hi, h⟩ := Option.bind_eq_some_iff.mp h
    exact route_cases hi (.inl rfl) h
  | routeDrop i =>
    obtain ⟨session, hi, h⟩ := Option.bind_eq_some_iff.mp h
    exact route_cases hi (.inr rfl) h
  | take n =>
    obtain ⟨x, hx, h⟩ := Option.bind_eq_some_iff.mp h
    exact stepTask_cases hx (.inl rfl) h
  | finish n =>
    obtain ⟨x, hx, h⟩ := Option.bind_eq_some_iff.mp h
    exact stepTask_cases hx (.inr rfl) h

theorem finish_tasks (s : CommandAgent) (n : Nat) (x : AgentTask) : ∃ cancelled,
    (s.finish n x).tasks = s.tasks.set n { x with finished := true, cancelled := cancelled } := by
  unfold finish
  split
  · exact ⟨true, rfl⟩
  · exact ⟨x.cancelled, rfl⟩
  · exact ⟨x.cancelled, rfl⟩
  · exact ⟨x.cancelled, rfl⟩

theorem finish_cancels (s : CommandAgent) (n : Nat) (x : AgentTask) :
    (s.finish n x).cancels =
      if x.kind = .cancellable then s.cancels.erase x.requestId else s.cancels := by
  unfold finish
  split
  · next hkind => rw [if_pos hkind]
  · next hkind => exact (if_neg (by rw [hkind]; rintro ⟨⟩)).symm
  · next hkind => exact (if_neg (by rw [hkind]; rintro ⟨⟩)).symm
  · next hkind => exact (if_neg (by rw [hkind]; rintro ⟨⟩)).symm

theorem finish_frame (s : CommandAgent) (n : Nat) (x : AgentTask) :
    (s.finish n x).sessions = s.sessions ∧ (s.finish n x).stream = s.stream ∧
      (s.finish n x).pc = s.pc ∧ (s.finish n x).handled = s.handled := by
  unfold finish
  split <;> exact ⟨rfl, rfl, rfl, rfl⟩

theorem handleCommand_frame (s : CommandAgent) (i k : Nat) (cmd : AgentCommand) :
    (s.handleCommand i k cmd).1.sessions = s.sessions ∧
      (s.handleCommand i k cmd).1.stream = s.stream ∧ (s.handleCommand i k cmd).1.pc = s.pc := by
  have hcancel : ∀ req, (s.cancelInflight req).sessions = s.sessions ∧
      (s.cancelInflight req).stream = s.stream ∧ (s.cancelInflight req).pc = s.pc := by
    intro req
    unfold cancelInflight cancelTask
    split
    · split <;> exact ⟨rfl, rfl, rfl⟩
    · exact ⟨rfl, rfl, rfl⟩
  cases cmd with
  | openForward sessionId target =>
    simp only [handleCommand, handleOpenForward]
    split <;> exact ⟨rfl, rfl, rfl⟩
  | request req =>
    simp only [handleCommand, startRequest]
    split_ifs
    · exact hcancel req
    all_goals exact ⟨rfl, rfl, rfl⟩
  | chunk requestId chunk =>
    simp only [handleCommand]
    split <;> exact ⟨rfl, rfl, rfl⟩
  | other => exact ⟨rfl, rfl, rfl⟩

theorem handleCommand_cases (s : CommandAgent) (i k : Nat) (cmd : AgentCommand) :
    (s.handleCommand i k cmd).1 = s ∨
      (∃ req h, cmd = .request req ∧ req.isCancel = true ∧ req.target.bind s.cancels.get = some h ∧
        (s.handleCommand i k cmd).1 = s.cancelTask h) ∨
      (∃ req, cmd = .request req ∧ req.isCancel = false ∧ req.isCancellable = true ∧
        (s.handleCommand i k cmd).1 = s.startCancellable i k req) ∨
      ∃ x : AgentTask, x.kind ≠ .cancellable ∧ x.ctx = i ∧ x.stream = k ∧
        (s.handleCommand i k cmd).1.tasks = s.tasks ++ [x] ∧
        (s.handleCommand i k cmd).1.cancels = s.cancels := by
  cases cmd with
  | openForward sessionId target =>
    simp only [handleCommand, handleOpenForward]
    split
    · exact .inl rfl
    · exact .inr (.inr (.inr ⟨_, by rintro ⟨⟩, rfl, rfl, rfl, rfl⟩))
  | request req =>
    simp only [handleCommand, startRequest]
    split_ifs with hcancel hrun
    · cases htarget : req.target.bind s.cancels.get with
      | none =>
        rw [cancelInflight, htarget]
        exact .inl rfl
      | some h =>
        rw [cancelInflight, htarget]
        exact .inr (.inl ⟨req, h, rfl, hcancel, htarget, rfl⟩)
    · exact .inr (.inr (.inl ⟨req, rfl, eq_false_of_ne_true hcancel, hrun, rfl⟩))
    · exact .inr (.inr (.inr ⟨_, by rintro ⟨⟩, rfl, rfl, rfl, rfl⟩))
    · exact .inr (.inr (.inr ⟨_, by rintro ⟨⟩, rfl, rfl, rfl, rfl⟩))
  | chunk requestId chunk =>
    simp only [handleCommand]
    split <;> exact .inl rfl
  | other => exact .inl rfl

end CommandAgent
end Hostlink
