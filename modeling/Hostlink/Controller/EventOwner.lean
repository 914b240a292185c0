import Hostlink.Controller.ContainerEvents

/-! Whose mappings a container event writes to. A task writes back what it read, so it keeps the
owner of a port only as long as the port is not handed to somebody else in between. -/

namespace Hostlink.Controller

namespace EventTask

def entry (t : EventTask) (port : Nat) : Option PortMapping :=
  match t.pc with
  | .reading snapshot _ => (t.affected snapshot).get port
  | .inspecting mappings => mappings.get port
  | .writing todo => todo.get port
  | .done => none

theorem get_affected {t : EventTask} {snapshot : Ports} {port : Nat} {m : PortMapping} :
    (t.affected snapshot).get port = some m ↔ snapshot.get port = some m ∧ m.owner = t.owner := by
  simp only [affected, GoMap.get_filterMap, Option.bind_eq_some_iff, Option.ite_none_right_eq_some,
    Option.some.injEq, PortMapping.owner, owner, Prod.mk.injEq]
  constructor
  · rintro ⟨m', h, ho, rfl⟩
    exact ⟨h, ho⟩
  · rintro ⟨h, ho⟩
    exact ⟨m, h, ho, rfl⟩

theorem get_readBatch (ports : Ports) (port : Nat) (batch : List Nat) : ∀ snapshot : Ports,
    (ports.readBatch snapshot batch).get port =
      if port ∈ batch then (ports.get port).or (snapshot.get port) else snapshot.get port := by
  induction batch with
  | nil => exact fun _ => rfl
  | cons q batch ih =>
    intro snapshot
    rw [Ports.readBatch, List.foldl_cons]
    refine (ih _).trans ?_
    by_cases hq : port = q
    · subst hq
      cases hp : ports.get port with
      | none => simp
      | some m => simp
    · cases hp : ports.get q with
      | none => simp [hq]
      | some m => simp [hq, GoMap.get_insert_of_ne]

theorem entry_writes {t : EventTask} {todo : Ports} (h : t.pc = writes todo) (port : Nat) :
    t.entry port = todo.get port := by
  by_cases he : todo.isEmpty = true
  · have hpc : t.pc = .done := by rw [h, writes, if_pos he]
    rw [entry, hpc]
    exact (todo.isEmpty_iff.mp he port).symm
  · have hpc : t.pc = .writing todo := by rw [h, writes, if_neg he]
    rw [entry, hpc]

theorem resume_owner {networks : Networks} {m m' : PortMapping} (h : m.resume networks = some m') :
    m'.owner = m.owner := by
  unfold PortMapping.resume at h
  split at h
  · cases h
  · cases h
    rfl

theorem entry_afterRead {t : EventTask} {mappings : Ports} {port : Nat} {m : PortMapping}
    (h : ({ t with pc := t.afterRead mappings } : EventTask).entry port = some m) :
    ∃ m₀, mappings.get port = some m₀ ∧ m.owner = m₀.owner := by
  unfold afterRead at h
  split at h
  · cases h
  · split at h
    · rw [entry_writes rfl, GoMap.get_filterMap, Option.bind_eq_some_iff] at h
      obtain ⟨m₀, hm, hs⟩ := h
      exact ⟨m₀, hm, by rw [← Option.some.inj hs]; rfl⟩
    · rw [entry_writes rfl, GoMap.get_filterMap, Option.bind_eq_some_iff] at h
      obtain ⟨m₀, hm, hs⟩ := h
      exact ⟨m₀, hm, by rw [← Option.some.inj hs]; rfl⟩
    · exact ⟨m, h, rfl⟩
    · cases h

theorem entry_afterInspect {t : EventTask} {mappings : Ports} {reply : InspectReply} {port : Nat}
    {m : PortMapping}
    (h : ({ t with pc := afterInspect mappings reply } : EventTask).entry port = some m) :
    ∃ m₀, mappings.get port = some m₀ ∧ m.owner = m₀.owner := by
  unfold afterInspect at h
  split at h
  · cases h
  · rw [entry_writes rfl, GoMap.get_filterMap, Option.bind_eq_some_iff] at h
    obtain ⟨m₀, hm, hs⟩ := h
    exact ⟨m₀, hm, resume_owner hs⟩

theorem step_entry {ports : Ports} {t : EventTask} {l : TaskLabel} {r : Ports × EventTask}
    (h : t.step ports l = some r) : r.2.owner = t.owner ∧ ∀ port m, r.2.entry port = some m →
      (∃ m₀, t.entry port = some m₀ ∧ m.owner = m₀.owner) ∨
        (ports.get port = some m ∧ m.owner = t.owner) := by
  obtain ⟨batch, snapshot, seen, -, hpc, rfl⟩ | ⟨_, _, -, -, rfl⟩ | ⟨snapshot, _, -, hpc, rfl⟩ |
    ⟨reply, mappings, -, hpc, rfl⟩ | ⟨q, todo, _, -, hpc, -, rfl⟩ | ⟨q, todo, -, hpc, rfl⟩ :=
    step_cases h <;> refine ⟨rfl, fun port m hm => ?_⟩
  · obtain ⟨hget, ho⟩ := get_affected.mp hm
    rw [get_readBatch] at hget
    have hold : snapshot.get port = some m → ∃ m₀, t.entry port = some m₀ ∧ m.owner = m₀.owner :=
      fun hs => ⟨m, by rw [entry, hpc]; exact get_affected.mpr ⟨hs, ho⟩, rfl⟩
    split at hget
    · rcases Option.or_eq_some_iff.mp hget with hp | ⟨-, hs⟩
      · exact .inr ⟨hp, ho⟩
      · exact .inl (hold hs)
    · exact .inl (hold hget)
  · cases hm
  · obtain ⟨m₀, h₀, ho⟩ := entry_afterRead hm
    exact .inl ⟨m₀, by rw [entry, hpc]; exact h₀, ho⟩
  · obtain ⟨m₀, h₀, ho⟩ := entry_afterInspect hm
    exact .inl ⟨m₀, by rw [entry, hpc]; exact h₀, ho⟩
  · rw [entry_writes rfl] at hm
    exact .inl ⟨m, by rw [entry, hpc]; exact GoMap.get_of_get_erase hm, rfl⟩
  · rw [entry_writes rfl] at hm
    exact .inl ⟨m, by rw [entry, hpc]; exact GoMap.get_of_get_erase hm, rfl⟩

theorem step_ports {ports : Ports} {t : EventTask} {l : TaskLabel} {r : Ports × EventTask}
    (h : t.step ports l = some r) : r.1 = ports ∨
      ∃ port m m₀, t.entry port = some m ∧ ports.get port = some m₀ ∧ r.1 = ports.insert port m := by
  obtain ⟨_, _, _, -, -, rfl⟩ | ⟨_, _, -, -, rfl⟩ | ⟨_, _, -, -, rfl⟩ | ⟨_, _, -, -, rfl⟩ |
    ⟨q, todo, m, -, hpc, hm, rfl⟩ | ⟨_, _, -, -, rfl⟩ := step_cases h
  · exact .inl rfl
  · exact .inl rfl
  · exact .inl rfl
  · exact .inl rfl
  · by_cases hs : (ports.get q).isSome
    · obtain ⟨m₀, h₀⟩ := Option.isSome_iff_exists.mp hs
      exact .inr ⟨q, m, m₀, by rw [entry, hpc]; exact hm, h₀, by simp [Ports.update, hs]⟩
    · exact .inl (by simp [Ports.update, hs])
  · exact .inl rfl

end EventTask

namespace Events

/-- A port goes to an owner only while no event of another owner that has read the port has its
write to it ahead. -/
def SameOwner (s : Events) : EventsLabel → Prop
  | .allocate port m => ∀ t ∈ s.tasks, (t.entry port).isSome → m.owner = t.owner
  | _ => True

instance (s : Events) (l : EventsLabel) : Decidable (SameOwner s l) :=
  match l with
  | .allocate port m => inferInstanceAs
      (Decidable (∀ t ∈ s.tasks, (t.entry port).isSome → m.owner = t.owner))
  | .event _ _ _ | .release _ | .task _ _ => inferInstanceAs (Decidable True)

def OwnInv (s : Events) : Prop :=
  ∀ t ∈ s.tasks, ∀ port m, t.entry port = some m →
    m.owner = t.owner ∧ ∀ m', s.ports.get port = some m' → m'.owner = t.owner

theorem ownInv_init (ports : Ports) : (init ports).OwnInv := by
  intro t ht
  simp [init] at ht

theorem ownInv_event {s : Events} (hi : s.OwnInv) (agentId containerId : String)
    (type : EventType) : (s.handleContainerEvent agentId containerId type).OwnInv := by
  rcases s.handleContainerEvent_cases agentId containerId type with h | ⟨-, h⟩
  · rwa [h]
  · rw [h]
    intro t ht port m hm
    rcases List.mem_append.mp ht with ht | ht
    · exact hi t ht port m hm
    · obtain rfl := List.mem_singleton.mp ht
      cases hm

theorem owner_step {s : Events} (hi : s.OwnInv) {i : Nat} {t : EventTask} {l : TaskLabel}
    {r : Ports × EventTask} (ht : s.tasks[i]? = some t) (h : t.step s.ports l = some r)
    (port : Nat) : (r.1.get port).map PortMapping.owner = (s.ports.get port).map PortMapping.owner := by
  obtain hp | ⟨q, m, m₀, hm, h₀, hp⟩ := EventTask.step_ports h
  · rw [hp]
  · rw [hp]
    by_cases hq : port = q
    · subst hq
      obtain ⟨hown, hstore⟩ := hi t (List.mem_of_getElem? ht) port m hm
      rw [GoMap.get_insert_self, h₀, Option.map_some, Option.map_some, hown, hstore m₀ h₀]
    · rw [GoMap.get_insert_of_ne _ hq]

theorem ownInv_task {s : Events} (hi : s.OwnInv) {i : Nat} {t : EventTask} {l : TaskLabel}
    {r : Ports × EventTask} (ht : s.tasks[i]? = some t) (h : t.step s.ports l = some r) :
    OwnInv ⟨r.1, s.tasks.set i r.2⟩ := by
  have hmem := List.mem_of_getElem? ht
  -- the store has the owners it had, so it is enough to look at it before the step
  have hstore : ∀ port o, (∀ m', s.ports.get port = some m' → m'.owner = o) →
      ∀ m', r.1.get port = some m' → m'.owner = o := by
    intro port o ho m' hm'
    have hown := owner_step hi ht h port
    rw [hm', Option.map_some, eq_comm, Option.map_eq_some_iff] at hown
    obtain ⟨m₀, h₀, heq⟩ := hown
    exact heq ▸ ho m₀ h₀
  intro t' ht' port m hm
  rcases List.mem_or_eq_of_mem_set ht' with hold | rfl
  · obtain ⟨hown, ho⟩ := hi t' hold port m hm
    exact ⟨hown, hstore port _ ho⟩
  · obtain ⟨howner, hentry⟩ := EventTask.step_entry h
    rw [howner]
    rcases hentry port m hm with ⟨m₀, h₀, heq⟩ | ⟨hget, heq⟩
    · obtain ⟨hown, ho⟩ := hi t hmem port m₀ h₀
      exact ⟨heq.trans hown, hstore port _ ho⟩
    · refine ⟨heq, hstore port _ fun m' hm' => ?_⟩
      rw [hget] at hm'
      exact Option.some.inj hm' ▸ heq

theorem ownInv_step {s u : Events} {l : EventsLabel} (hi : s.OwnInv) (hok : SameOwner s l)
    (h : s.step l = some u) : u.OwnInv := by
  obtain ⟨a, c, ty, rfl, rfl⟩ | ⟨q, m, rfl, -, rfl⟩ | ⟨q, rfl, rfl⟩ | ⟨i, tl, t, r, rfl, ht, hr, rfl⟩ :=
    step_cases h
  · exact ownInv_event hi a c ty
  · intro t ht port m' hm'
    obtain ⟨hown, hstore⟩ := hi t ht port m' hm'
    refine ⟨hown, fun m'' hm'' => ?_⟩
    rcases GoMap.get_of_get_insert hm'' with ⟨rfl, rfl⟩ | hold
    · exact hok t ht (by rw [hm']; rfl)
    · exact hstore m'' hold
  · intro t ht port m' hm'
    obtain ⟨hown, hstore⟩ := hi t ht port m' hm'
    exact ⟨hown, fun m'' hm'' => hstore m'' (GoMap.get_of_get_erase hm'')⟩
  · exact ownInv_task hi ht hr

/-- Container events never hand a port to another owner. -/
theorem owner_kept_of_run {ports : Ports} {ls : List EventsLabel} {s : Events}
    (h : Lts.Run step SameOwner (init ports) ls s) {i : Nat} {l : TaskLabel} {u : Events}
    (hs : s.step (.task i l) = some u) (port : Nat) :
    (u.ports.get port).map PortMapping.owner = (s.ports.get port).map PortMapping.owner := by
  have hi : s.OwnInv := h.invariant (fun _ _ _ hi hok hs => ownInv_step hi hok hs)
    (ownInv_init ports)
  -- the step is one of a task
  obtain ⟨_, _, _, hl, -⟩ | ⟨_, _, hl, -⟩ | ⟨_, hl, -⟩ | ⟨j, tl, t, r, -, ht, hr, rfl⟩ := step_cases hs
  · cases hl
  · cases hl
  · cases hl
  · exact owner_step hi ht hr port

def webPorts : Ports :=
  GoMap.empty.insert 8000 { agentId := "a", target := "10.0.0.2:80", containerId := "web" }

def dieRead : List EventsLabel :=
  [.event "a" "web" .die, .task 0 (.readBatch [8000]), .task 0 .readDone]

theorem owner_kept_of_run_exposed_again : ∃ s u,
    Lts.Run step SameOwner (init webPorts) (dieRead ++ [.release 8000,
      .allocate 8000 { agentId := "a", target := "10.0.0.2:81", containerId := "web" }]) s ∧
      s.step (.task 0 (.write 8000)) = some u ∧
      (u.ports.get 8000).map PortMapping.owner = (s.ports.get 8000).map PortMapping.owner := by
  let s := (Lts.execOk step SameOwner (init webPorts) (dieRead ++ [.release 8000,
    .allocate 8000 { agentId := "a", target := "10.0.0.2:81", containerId := "web" }])).get
    (by decide +kernel)
  let u := (s.step (.task 0 (.write 8000))).get (by decide +kernel)
  have hrun := Lts.run_of_execOk (t := s) (Option.some_get _).symm
  have hstep : s.step (.task 0 (.write 8000)) = some u := (Option.some_get _).symm
  exact ⟨s, u, hrun, hstep, owner_kept_of_run hrun hstep 8000⟩

/-- The port is released and goes to another agent before the event writes it: the event takes
the new exposure over. -/
theorem event_takes_reallocated_port : ∃ s u,
    Lts.AnyRun step (init webPorts) (dieRead ++ [.release 8000,
      .allocate 8000 { agentId := "b", target := "10.0.0.9:5432", containerId := "db" }]) s ∧
      s.step (.task 0 (.write 8000)) = some u ∧
      s.ports.get 8000 = some { agentId := "b", target := "10.0.0.9:5432", containerId := "db" } ∧
      u.ports.get 8000 = some
        { agentId := "a", target := "10.0.0.2:80", containerId := "web", suspended := true } := by
  let s := (Lts.exec step (init webPorts) (dieRead ++ [.release 8000,
    .allocate 8000 { agentId := "b", target := "10.0.0.9:5432", containerId := "db" }])).get
    (by decide +kernel)
  let u := (s.step (.task 0 (.write 8000))).get (by decide +kernel)
  exact ⟨s, u, Lts.anyRun_of_exec (Option.some_get _).symm, (Option.some_get _).symm,
    by decide +kernel, by decide +kernel⟩

end Events
end Hostlink.Controller
