import Hostlink.Controller.EventOwner

/-! What one container event does to the store when nothing else touches it meanwhile. -/

namespace Hostlink.Controller

def containerMappings (desired : Ports) (agentId containerId : String) : Ports :=
  desired.filterMap fun _ m => if m.agentId = agentId ∧ m.containerId = containerId then some m else none

def updateMappings (body : PortMapping → Option PortMapping) (mappings : Ports) (order : List Nat)
    (ports : Ports) : Ports :=
  order.foldl (fun ports port => match (mappings.get port).bind body with
    | some m => ports.update port m
    | none => ports) ports

/-- `processContainerEvent` with the store to itself; `order` is the iteration over the mappings of the
container. -/
def processContainerEvent (ports : Ports) (agentId containerId : String) (type : EventType)
    (reply : InspectReply) (order : List Nat) : Ports :=
  if containerId = "" then ports
  else
    let mappings := containerMappings ports agentId containerId
    if mappings.isEmpty then ports
    else match type with
      | .die | .stop => updateMappings (fun m => some m.suspend) mappings order ports
      | .start =>
        match reply.networks? with
        | none => ports
        | some networks => updateMappings (PortMapping.resume networks) mappings order ports
      | .other _ => ports

theorem get_containerMappings {desired : Ports} {agentId containerId : String} {port : Nat}
    {m : PortMapping} : (containerMappings desired agentId containerId).get port = some m ↔
      desired.get port = some m ∧ m.owner = (agentId, containerId) :=
  EventTask.get_affected (t := { agentId := agentId, containerId := containerId, type := .die })

theorem Ports.get_update (ports : Ports) (port q : Nat) (m : PortMapping) :
    (ports.update q m).get port =
      if port = q ∧ (ports.get q).isSome then some m else ports.get port := by
  unfold Ports.update
  rcases eq_or_ne port q with rfl | hne
  · by_cases hsome : (ports.get port).isSome
    · simp [hsome]
    · simp [hsome]
  · have hother : ¬ (port = q ∧ (ports.get q).isSome) := fun h => hne h.1
    rw [if_neg hother]
    split
    · exact GoMap.get_insert_of_ne _ hne _
    · rfl

theorem get_updateMappings {body : PortMapping → Option PortMapping} {mappings : Ports}
    (order : List Nat) (ports : Ports)
    (h : ∀ port m, mappings.get port = some m → (ports.get port).isSome) (port : Nat) :
    (updateMappings body mappings order ports).get port =
      if port ∈ order then ((mappings.get port).bind body).or (ports.get port) else ports.get port := by
  induction order generalizing ports with
  | nil => rfl
  | cons q order ih =>
    rw [updateMappings, List.foldl_cons]
    cases hbody : (mappings.get q).bind body with
    | none =>
      refine (ih ports h).trans ?_
      rcases eq_or_ne port q with rfl | hne
      · simp [hbody]
      · simp [hne]
    | some m =>
      obtain ⟨m', hm', -⟩ := Option.bind_eq_some_iff.mp hbody
      have hq := h q m' hm'
      have hkept : ∀ p m'', mappings.get p = some m'' → ((ports.update q m).get p).isSome := by
        intro p m'' hp
        rw [Ports.get_update]
        split
        · rfl
        · exact h p m'' hp
      refine (ih (ports.update q m) hkept).trans ?_
      rw [Ports.get_update]
      rcases eq_or_ne port q with rfl | hne
      · simp [hbody, hq]
      · simp [hne]

def eventEffect (agentId containerId : String) (type : EventType) (reply : InspectReply)
    (m : PortMapping) : PortMapping :=
  if containerId = "" ∨ m.owner ≠ (agentId, containerId) then m
  else match type with
    | .die | .stop => m.suspend
    | .start => ((reply.networks?).bind fun networks => m.resume networks).getD m
    | .other _ => m

section Alone
variable {ports : Ports} {agentId containerId : String} {order : List Nat}

theorem get_updateMappings_containerMappings (body : PortMapping → Option PortMapping)
    (horder : (containerMappings ports agentId containerId).Iteration order) (port : Nat) :
    (updateMappings body (containerMappings ports agentId containerId) order ports).get port =
      (ports.get port).map fun m =>
        if m.owner = (agentId, containerId) then (body m).getD m else m := by
  have hmapped : ∀ p m, (containerMappings ports agentId containerId).get p = some m →
      (ports.get p).isSome := by
    intro p m hm
    rw [(get_containerMappings.mp hm).1]
    rfl
  rw [get_updateMappings order ports hmapped]
  cases hm : ports.get port with
  | none =>
    have hnone : (containerMappings ports agentId containerId).get port = none := by
      rw [containerMappings, GoMap.get_filterMap, hm, Option.bind_none]
    rw [hnone, Option.bind_none, Option.none_or, ite_self]
    rfl
  | some m =>
    by_cases howner : m.owner = (agentId, containerId)
    · have hget := get_containerMappings.mpr ⟨hm, howner⟩
      rw [hget, if_pos (horder.mem_of_get hget), Option.bind_some, Option.map_some, if_pos howner]
      cases body m <;> rfl
    · have hnone : (containerMappings ports agentId containerId).get port = none := by
        by_contra hsome
        obtain ⟨m', hm'⟩ := Option.ne_none_iff_exists'.mp hsome
        obtain ⟨hget, howner'⟩ := get_containerMappings.mp hm'
        rw [hm] at hget
        exact howner (Option.some.inj hget ▸ howner')
      rw [hnone, Option.bind_none, Option.none_or, ite_self, Option.map_some, if_neg howner]

/-- The event acts on every mapping by itself, in whatever order the mappings are visited. -/
theorem get_processContainerEvent (type : EventType) (reply : InspectReply)
    (horder : (containerMappings ports agentId containerId).Iteration order) (port : Nat) :
    (processContainerEvent ports agentId containerId type reply order).get port =
      (ports.get port).map (eventEffect agentId containerId type reply) := by
  have hunchanged : (∀ m, ports.get port = some m → eventEffect agentId containerId type reply m = m) →
      ports.get port = (ports.get port).map (eventEffect agentId containerId type reply) := by
    intro h
    cases hm : ports.get port with
    | none => rfl
    | some m => rw [Option.map_some, h m hm]
  simp only [processContainerEvent]
  by_cases hid : containerId = ""
  · rw [if_pos hid]
    exact hunchanged fun m _ => if_pos (.inl hid)
  rw [if_neg hid]
  by_cases hempty : (containerMappings ports agentId containerId).isEmpty = true
  · rw [if_pos hempty]
    refine hunchanged fun m hm => if_pos (.inr fun howner => ?_)
    have hget := get_containerMappings.mpr ⟨hm, howner⟩
    rw [(GoMap.isEmpty_iff _).mp hempty port] at hget
    cases hget
  rw [if_neg hempty]
  have hupdate : ∀ body : PortMapping → Option PortMapping,
      (∀ m, m.owner = (agentId, containerId) →
        eventEffect agentId containerId type reply m = (body m).getD m) →
      (updateMappings body (containerMappings ports agentId containerId) order ports).get port =
        (ports.get port).map (eventEffect agentId containerId type reply) := by
    intro body hbody
    rw [get_updateMappings_containerMappings body horder]
    congr 1
    funext m
    by_cases howner : m.owner = (agentId, containerId)
    · rw [if_pos howner, hbody m howner]
    · rw [if_neg howner]
      exact (if_pos (.inr howner)).symm
  cases type with
  | die | stop => exact hupdate _ fun m howner => by simp [eventEffect, hid, howner]
  | start =>
    cases hreply : reply.networks? with
    | none => exact hunchanged fun m _ => by simp [eventEffect, hreply]
    | some networks => exact hupdate _ fun m howner => by simp [eventEffect, hid, howner, hreply]
  | other name => exact hunchanged fun m _ => by simp [eventEffect]

theorem eventEffect_owner (type : EventType) (reply : InspectReply) (m : PortMapping) :
    (eventEffect agentId containerId type reply m).owner = m.owner := by
  unfold eventEffect
  split
  · rfl
  · cases type with
    | die | stop | other => rfl
    | start =>
      cases hresume : (reply.networks?).bind fun networks => m.resume networks with
      | none => rfl
      | some m' =>
        obtain ⟨networks, -, hm'⟩ := Option.bind_eq_some_iff.mp hresume
        exact EventTask.resume_owner hm'

/-- What a container event does to the store: nothing to the ports and to the mappings of other
containers, and to those of the container what its type and the inspect reply say. -/
theorem event_effect (ports : Ports) (agentId containerId : String) (type : EventType)
    (reply : InspectReply) (order : List Nat)
    (horder : (containerMappings ports agentId containerId).Iteration order) :
    let after := processContainerEvent ports agentId containerId type reply order
    (∀ port, after.get port = none ↔ ports.get port = none) ∧
    (∀ port m, ports.get port = some m →
      (∃ m', after.get port = some m' ∧ m'.owner = m.owner) ∧
      (m.owner ≠ (agentId, containerId) → after.get port = some m) ∧
      (containerId ≠ "" → m.owner = (agentId, containerId) →
        (type = .die ∨ type = .stop → after.get port = some { m with suspended := true }) ∧
        (type = .start → ∀ code networks, reply = .result code (.ok networks) →
          200 ≤ code → code < 300 → ∀ host targetPort,
          GoNet.splitHostPort m.target = .ok (host, targetPort) →
          after.get port = some { m with
            suspended := false
            target := if pickNetworkIP networks host = "" then m.target
              else GoNet.joinHostPort (pickNetworkIP networks host) targetPort }))) ∧
    (type = .start ∧ ((∃ err, reply = .failed err) ∨
        (∃ code detail, reply = .result code detail ∧ (code < 200 ∨ 300 ≤ code)) ∨
        ∃ code err, reply = .result code (.error err)) ∨
      (∃ name, type = .other name) ∨ containerId = "" → after = ports) := by
  refine ⟨fun port => ?_, fun port m hm => ⟨?_, fun howner => ?_, fun hid howner => ⟨?_, ?_⟩⟩, ?_⟩
  · rw [get_processContainerEvent type reply horder, Option.map_eq_none_iff]
  · rw [get_processContainerEvent type reply horder, hm]
    exact ⟨_, rfl, eventEffect_owner type reply m⟩
  · rw [get_processContainerEvent type reply horder, hm, Option.map_some]
    exact congrArg some (if_pos (.inr howner))
  · rw [get_processContainerEvent type reply horder, hm, Option.map_some]
    rintro (rfl | rfl)
    · simp [eventEffect, hid, howner, PortMapping.suspend]
    · simp [eventEffect, hid, howner, PortMapping.suspend]
  · rintro rfl code networks rfl hlow hhigh host targetPort hsplit
    have hreply : (InspectReply.result code (.ok networks)).networks? = some networks := by
      rw [InspectReply.networks?, if_neg (by omega)]
    rw [get_processContainerEvent .start _ horder, hm, Option.map_some]
    simp [eventEffect, hid, howner, hreply, PortMapping.resume, hsplit, ite_not]
  · rintro (⟨rfl, hreply⟩ | ⟨name, rfl⟩ | rfl)
    · have hnone : reply.networks? = none := by
        obtain ⟨err, rfl⟩ | ⟨code, detail, rfl, hcode⟩ | ⟨code, err, rfl⟩ := hreply
        · rfl
        · exact if_pos hcode
        · rw [InspectReply.networks?]
          split <;> rfl
      simp only [processContainerEvent, hnone, ite_self]
    · simp only [processContainerEvent, ite_self]
    · simp only [processContainerEvent, if_true]

end Alone

def suspendedMapping (containerId target : String) : PortMapping :=
  { agentId := "a", containerId := containerId, target := target, suspended := true }

def mixedPorts : Ports :=
  ((GoMap.empty.insert 8000 (suspendedMapping "web" "10.0.0.2:80")).insert 8001
    (suspendedMapping "web" "10.0.0.2:81")).insert 8002 (suspendedMapping "db" "10.0.0.9:5432")

theorem mixedPorts_iteration : (containerMappings mixedPorts "a" "web").Iteration [8001, 8000] := by
  refine ⟨by decide, fun port => ?_⟩
  constructor
  · intro hport
    simp only [List.mem_cons, List.not_mem_nil, or_false] at hport
    rcases hport with rfl | rfl
    · decide
    · decide
  · intro hget
    have hkey := (containerMappings mixedPorts "a" "web").covers port hget
    have hkeys : port = 8002 ∨ port = 8001 ∨ port = 8000 := by
      simpa [containerMappings, GoMap.filterMap, mixedPorts, GoMap.insert, GoMap.empty] using hkey
    rcases hkeys with rfl | rfl | rfl
    · exact absurd rfl hget
    · exact List.mem_cons_self
    · exact List.mem_cons_of_mem _ List.mem_cons_self

theorem event_effect_start :
    let after := processContainerEvent mixedPorts "a" "web" .start
      (.result 200 (.ok [("bridge", "10.0.0.7")])) [8001, 8000]
    after.get 8000 = some { suspendedMapping "web" "10.0.0.7:80" with suspended := false } ∧
      after.get 8002 = some (suspendedMapping "db" "10.0.0.9:5432") := by
  have heffect := event_effect mixedPorts "a" "web" .start
    (.result 200 (.ok [("bridge", "10.0.0.7")])) [8001, 8000] mixedPorts_iteration
  refine ⟨?_, (heffect.2.1 8002 _ rfl).2.1 (by decide)⟩
  refine (((heffect.2.1 8000 _ rfl).2.2 (by decide) (by decide)).2 rfl 200 _ rfl (by decide)
    (by decide) "10.0.0.2" "80" (by rfl)).trans ?_
  decide +kernel

/-! ### The same store as the task leaves -/

namespace EventTask

def stepAlone (s : Ports × EventTask) (l : TaskLabel) : Option (Ports × EventTask) := s.2.step s.1 l

theorem isEmpty_congr {m m' : Ports} (h : m.get = m'.get) : m.isEmpty = m'.isEmpty := by
  rw [Bool.eq_iff_iff, GoMap.isEmpty_iff, GoMap.isEmpty_iff, h]

theorem run_writes {order : List Nat} (hnodup : order.Nodup) (ports todo : Ports) (t : EventTask)
    (hpc : t.pc = writes todo) (hcovers : ∀ port, todo.get port ≠ none → port ∈ order) :
    ∃ ls t', Lts.AnyRun stepAlone (ports, t) ls
        (updateMappings some todo order ports, t') ∧ t'.pc = .done := by
  induction order generalizing ports todo t with
  | nil =>
    have hempty : todo.isEmpty = true := by
      refine todo.isEmpty_iff.mpr fun port => ?_
      by_contra hsome
      exact absurd (hcovers port hsome) List.not_mem_nil
    refine ⟨[], t, .nil, ?_⟩
    rw [hpc, writes, if_pos hempty]
  | cons port order ih =>
    obtain ⟨hnew, hnodup⟩ := List.nodup_cons.mp hnodup
    cases hget : todo.get port with
    | none =>
      have hcons : updateMappings some todo (port :: order) ports = updateMappings some todo order ports := by
        rw [updateMappings, List.foldl_cons, hget]
        rfl
      rw [hcons]
      refine ih hnodup ports todo t hpc fun q hq => ?_
      refine (List.mem_cons.mp (hcovers q hq)).resolve_left ?_
      rintro rfl
      exact hq hget
    | some m =>
      have hwriting : t.pc = .writing todo := by
        rw [hpc, writes, if_neg]
        intro hempty
        rw [todo.isEmpty_iff.mp hempty port] at hget
        cases hget
      have hstep : stepAlone (ports, t) (.write port) = some (ports.update port m, { t with
          pc := writes (todo.erase port)
          wrote := if (ports.get port).isSome then port :: t.wrote else t.wrote }) := by
        simp only [stepAlone, step, hwriting, hget]
      have hrest : ∀ q ∈ order, (todo.erase port).get q = todo.get q := by
        intro q hq
        refine GoMap.get_erase_of_ne _ ?_
        rintro rfl
        exact hnew hq
      have hcons : updateMappings some todo (port :: order) ports =
          updateMappings some (todo.erase port) order (ports.update port m) := by
        rw [updateMappings, List.foldl_cons, hget]
        refine List.foldl_ext _ _ _ fun ports' q hq => ?_
        rw [hrest q hq]
      have hcovers' : ∀ q, (todo.erase port).get q ≠ none → q ∈ order := by
        intro q hq
        rcases eq_or_ne q port with rfl | hne
        · exact absurd (GoMap.get_erase_self ..) hq
        · rw [GoMap.get_erase_of_ne _ hne] at hq
          exact (List.mem_cons.mp (hcovers q hq)).resolve_left hne
      obtain ⟨ls, t', hrun, hdone⟩ := ih hnodup (ports.update port m) (todo.erase port)
        { t with
          pc := writes (todo.erase port)
          wrote := if (ports.get port).isSome then port :: t.wrote else t.wrote } rfl hcovers'
      refine ⟨.write port :: ls, t', ?_, hdone⟩
      rw [hcons]
      exact .cons trivial hstep hrun

theorem get_readAll (ports : Ports) : (ports.readBatch .empty ports.keys).get = ports.get := by
  funext port
  rw [get_readBatch]
  cases hget : ports.get port with
  | none => simp
  | some m =>
    have hkey : port ∈ ports.keys := ports.covers port (by rw [hget]; exact Option.some_ne_none _)
    simp [hkey]

theorem run_updateMappings {order : List Nat} (ports mappings : Ports)
    (horder : mappings.Iteration order) (body : PortMapping → Option PortMapping) {t : EventTask}
    {snapshot : Ports} (hsnapshot : snapshot.get = mappings.get)
    (hpc : t.pc = writes (snapshot.filterMap fun _ m => body m)) :
    ∃ ls t', Lts.AnyRun stepAlone (ports, t) ls (updateMappings body mappings order ports, t') ∧
      t'.pc = .done := by
  have htodo : ∀ port, (snapshot.filterMap fun _ m => body m).get port = (mappings.get port).bind body := by
    intro port
    rw [GoMap.get_filterMap, hsnapshot]
  have hcovers : ∀ port, (snapshot.filterMap fun _ m => body m).get port ≠ none → port ∈ order := by
    intro port hport
    rw [htodo] at hport
    refine (horder.visits port).mpr fun hnone => hport ?_
    rw [hnone, Option.bind_none]
  have heq : updateMappings body mappings order ports =
      updateMappings some (snapshot.filterMap fun _ m => body m) order ports := by
    refine List.foldl_ext _ _ _ fun ports' port _ => ?_
    rw [htodo, Option.bind_fun_some]
  rw [heq]
  exact run_writes horder.nodup ports _ t hpc hcovers

theorem run_alone {ports : Ports} {agentId containerId : String} (type : EventType)
    (reply : InspectReply) {order : List Nat} (hid : containerId ≠ "")
    (horder : (containerMappings ports agentId containerId).Iteration order) :
    ∃ ls t', Lts.AnyRun stepAlone
        (ports, { agentId := agentId, containerId := containerId, type := type }) ls
        (processContainerEvent ports agentId containerId type reply order, t') ∧ t'.pc = .done := by
  let t : EventTask := { agentId := agentId, containerId := containerId, type := type }
  let snapshot := t.affected (ports.readBatch .empty ports.keys)
  have hsnapshot : snapshot.get = (containerMappings ports agentId containerId).get := by
    funext port
    simp only [snapshot, t, affected, containerMappings, GoMap.get_filterMap, get_readAll]
  have hread : Lts.AnyRun stepAlone (ports, t) [.readBatch ports.keys, .readDone]
      (ports, { t with pc := t.afterRead snapshot }) :=
    .cons trivial rfl (.cons trivial rfl .nil)
  have hempty := isEmpty_congr hsnapshot
  suffices hrest : ∃ ls t', Lts.AnyRun stepAlone (ports, { t with pc := t.afterRead snapshot }) ls
      (processContainerEvent ports agentId containerId type reply order, t') ∧ t'.pc = .done by
    obtain ⟨ls, t', hrun, hdone⟩ := hrest
    exact ⟨_, t', hread.trans hrun, hdone⟩
  simp only [processContainerEvent, if_neg hid, afterRead, hempty]
  split
  · exact ⟨[], _, .nil, rfl⟩
  · cases type with
    | die | stop => exact run_updateMappings ports _ horder _ hsnapshot rfl
    | other name => exact ⟨[], _, .nil, rfl⟩
    | start =>
      have hinspect : stepAlone (ports, { t with pc := .inspecting snapshot }) (.inspect reply) =
          some (ports, { t with pc := afterInspect snapshot reply }) := rfl
      cases hreply : reply.networks? with
      | none =>
        refine ⟨[.inspect reply], _, .cons trivial hinspect .nil, ?_⟩
        simp only [afterInspect, hreply]
      | some networks =>
        have hpc : afterInspect snapshot reply =
            writes (snapshot.filterMap fun _ m => m.resume networks) := by
          simp only [afterInspect, hreply]
        obtain ⟨ls, t', hrun, hdone⟩ := run_updateMappings
          (t := { t with pc := afterInspect snapshot reply }) ports _ horder _ hsnapshot hpc
        exact ⟨_, t', .cons trivial hinspect hrun, hdone⟩

end EventTask
end Hostlink.Controller
