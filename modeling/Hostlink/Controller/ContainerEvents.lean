import Mathlib.Data.List.Sort
import Mathlib.Data.String.Basic
import Hostlink.Lib.GoMap
import Hostlink.Lib.GoNet
import Hostlink.Lib.Run
import Hostlink.Controller.Ports

/-! Container lifecycle events. `handleContainerEvent` starts one task per event and does not
wait for it; a task reads the store, asks the agent about a started container and writes back
port by port. The tasks share the store with the REST handlers that allocate and release. -/

namespace Hostlink.Controller

inductive EventType where
  | die
  | stop
  | start
  | other (name : String)
  deriving DecidableEq, Repr

/-- `ContainerDetail.Networks` as one iteration over the map sees it. -/
abbrev Networks := List (String × String)

/-- What `containers.inspect` came to: a failed dispatch, or a result with its code and what
decoding its payload gave. -/
inductive InspectReply where
  | failed (err : GoError)
  | result (code : Int) (detail : Except GoError Networks)

def InspectReply.networks? : InspectReply → Option Networks
  | .failed _ => none
  | .result code detail =>
    if code < 200 ∨ code ≥ 300 then none
    else match detail with
      | .error _ => none
      | .ok networks => some networks

def pickNetworkIP (networks : Networks) (oldHost : String) : String :=
  if networks.any (·.2 = oldHost) then oldHost
  else match networks with
    | [(_, ip)] => ip
    | _ =>
      let names := (networks.map Prod.fst).insertionSort (· ≤ ·)
      (names.findSome? fun name => (networks.lookup name).filter (· ≠ "")).getD ""

abbrev Ports := GoMap Nat PortMapping

namespace PortMapping

def owner (m : PortMapping) : String × String := (m.agentId, m.containerId)

def suspend (m : PortMapping) : PortMapping := { m with suspended := true }

/-- The body of the loop of `resumeContainerMappings`: no update when the target does not split. -/
def resume (networks : Networks) (m : PortMapping) : Option PortMapping :=
  match GoNet.splitHostPort m.target with
  | .error _ => none
  | .ok (host, targetPort) =>
    let newIP := pickNetworkIP networks host
    some { m with
      target := if newIP ≠ "" then GoNet.joinHostPort newIP targetPort else m.target
      suspended := false }

end PortMapping

/-- `store.update`: a port that is not mapped is left alone. -/
def Ports.update (ports : Ports) (port : Nat) (m : PortMapping) : Ports :=
  if (ports.get port).isSome then ports.insert port m else ports

/-- One page of `desired`: the ports that are mapped when the page is read. -/
def Ports.readBatch (ports snapshot : Ports) (batch : List Nat) : Ports :=
  batch.foldl (fun snap port => match ports.get port with
    | some m => snap.insert port m
    | none => snap) snapshot

inductive EventPc where
  | reading (snapshot : Ports) (seen : List Nat)
  | inspecting (mappings : Ports)
  | writing (todo : Ports)
  | done

/-- `wrote` remembers the ports the task has updated. -/
structure EventTask where
  agentId : String
  containerId : String
  type : EventType
  pc : EventPc := .reading .empty []
  wrote : List Nat := []

inductive TaskLabel where
  | readBatch (batch : List Nat)
  | readFail
  | readDone
  | inspect (reply : InspectReply)
  | write (port : Nat)
  | writeFail (port : Nat)

namespace EventTask

def owner (t : EventTask) : String × String := (t.agentId, t.containerId)

def affected (t : EventTask) (snapshot : Ports) : Ports :=
  snapshot.filterMap fun _ m => if m.agentId = t.agentId ∧ m.containerId = t.containerId then some m else none

def writes (todo : Ports) : EventPc := if todo.isEmpty then .done else .writing todo

def afterRead (t : EventTask) (mappings : Ports) : EventPc :=
  if mappings.isEmpty then .done
  else match t.type with
    | .die | .stop => writes (mappings.filterMap fun _ m => some m.suspend)
    | .start => .inspecting mappings
    | .other _ => .done

def afterInspect (mappings : Ports) (reply : InspectReply) : EventPc :=
  match reply.networks? with
  | none => .done
  | some networks => writes (mappings.filterMap fun _ m => m.resume networks)

def step (ports : Ports) (t : EventTask) : TaskLabel → Option (Ports × EventTask)
  | .readBatch batch =>
    match t.pc with
    | .reading snapshot seen =>
      some (ports, { t with pc := .reading (ports.readBatch snapshot batch) (seen ++ batch) })
    | _ => none
  | .readFail =>
    match t.pc with
    | .reading _ _ => some (ports, { t with pc := .done })
    | _ => none
  | .readDone =>
    match t.pc with
    | .reading snapshot _ => some (ports, { t with pc := t.afterRead (t.affected snapshot) })
    | _ => none
  | .inspect reply =>
    match t.pc with
    | .inspecting mappings => some (ports, { t with pc := afterInspect mappings reply })
    | _ => none
  | .write port =>
    match t.pc with
    | .writing todo =>
      match todo.get port with
      -- the mapping written is the one computed from the snapshot
      | some m => some (ports.update port m, { t with
          pc := writes (todo.erase port)
          wrote := if (ports.get port).isSome then port :: t.wrote else t.wrote })
      | none => none
    | _ => none
  | .writeFail port =>
    match t.pc with
    | .writing todo =>
      match todo.get port with
      | some _ => some (ports, { t with pc := writes (todo.erase port) })
      | none => none
    | _ => none

theorem step_cases {ports : Ports} {t : EventTask} {l : TaskLabel} {r : Ports × EventTask}
    (h : t.step ports l = some r) :
    (∃ batch snapshot seen, l = .readBatch batch ∧ t.pc = .reading snapshot seen ∧
      r = (ports, { t with pc := .reading (ports.readBatch snapshot batch) (seen ++ batch) })) ∨
    (∃ snapshot seen, l = .readFail ∧ t.pc = .reading snapshot seen ∧
      r = (ports, { t with pc := .done })) ∨
    (∃ snapshot seen, l = .readDone ∧ t.pc = .reading snapshot seen ∧
      r = (ports, { t with pc := t.afterRead (t.affected snapshot) })) ∨
    (∃ reply mappings, l = .inspect reply ∧ t.pc = .inspecting mappings ∧
      r = (ports, { t with pc := afterInspect mappings reply })) ∨
    (∃ port todo m, l = .write port ∧ t.pc = .writing todo ∧ todo.get port = some m ∧
      r = (ports.update port m, { t with
        pc := writes (todo.erase port)
        wrote := if (ports.get port).isSome then port :: t.wrote else t.wrote })) ∨
    ∃ port todo, l = .writeFail port ∧ t.pc = .writing todo ∧
      r = (ports, { t with pc := writes (todo.erase port) }) := by
  cases l with
  | readBatch batch =>
    simp only [step] at h
    split at h
    · next snapshot seen hpc => exact .inl ⟨batch, snapshot, seen, rfl, hpc, (Option.some.inj h).symm⟩
    · cases h
  | readFail =>
    simp only [step] at h
    split at h
    · next snapshot seen hpc =>
      exact .inr (.inl ⟨snapshot, seen, rfl, hpc, (Option.some.inj h).symm⟩)
    · cases h
  | readDone =>
    simp only [step] at h
    split at h
    · next snapshot seen hpc =>
      exact .inr (.inr (.inl ⟨snapshot, seen, rfl, hpc, (Option.some.inj h).symm⟩))
    · cases h
  | inspect reply =>
    simp only [step] at h
    split at h
    · next mappings hpc =>
      exact .inr (.inr (.inr (.inl ⟨reply, mappings, rfl, hpc, (Option.some.inj h).symm⟩)))
    · cases h
  | write port =>
    simp only [step] at h
    split at h
    · next todo hpc =>
      split at h
      · next m hm =>
        exact .inr (.inr (.inr (.inr (.inl
          ⟨port, todo, m, rfl, hpc, hm, (Option.some.inj h).symm⟩))))
      · cases h
    · cases h
  | writeFail port =>
    simp only [step] at h
    split at h
    · next todo hpc =>
      split at h
      · exact .inr (.inr (.inr (.inr (.inr ⟨port, todo, rfl, hpc, (Option.some.inj h).symm⟩))))
      · cases h
    · cases h

end EventTask

/-- Tasks are listed in the order their events were received. -/
structure Events where
  ports : Ports
  tasks : List EventTask

inductive EventsLabel where
  | event (agentId containerId : String) (type : EventType)
  | allocate (port : Nat) (m : PortMapping)
  | release (port : Nat)
  | task (i : Nat) (l : TaskLabel)

namespace Events

/-- `handleContainerEvent` drops events without a container and of other types. -/
def handleContainerEvent (s : Events) (agentId containerId : String) (type : EventType) : Events :=
  if containerId = "" then s
  else match type with
    | .die | .stop | .start =>
      { s with tasks := s.tasks ++ [{ agentId := agentId, containerId := containerId, type := type }] }
    | .other _ => s

/-- `allocate` is its claim of a port that is not mapped. -/
def step (s : Events) : EventsLabel → Option Events
  | .event agentId containerId type => some (s.handleContainerEvent agentId containerId type)
  | .allocate port m =>
    if (s.ports.get port).isNone then some { s with ports := s.ports.insert port m } else none
  | .release port => some { s with ports := s.ports.erase port }
  | .task i l =>
    match s.tasks[i]? with
    | some t => (t.step s.ports l).map fun r => { ports := r.1, tasks := s.tasks.set i r.2 }
    | none => none

def init (ports : Ports) : Events := ⟨ports, []⟩

theorem handleContainerEvent_cases (s : Events) (agentId containerId : String) (type : EventType) :
    s.handleContainerEvent agentId containerId type = s ∨ (∀ name, type ≠ .other name) ∧
      s.handleContainerEvent agentId containerId type = { s with
        tasks := s.tasks ++ [{ agentId := agentId, containerId := containerId, type := type }] } := by
  unfold handleContainerEvent
  split
  · exact .inl rfl
  · cases type with
    | die | stop | start => exact .inr ⟨nofun, rfl⟩
    | other => exact .inl rfl

theorem step_cases {s u : Events} {l : EventsLabel} (h : s.step l = some u) :
    (∃ agentId containerId type, l = .event agentId containerId type ∧
      u = s.handleContainerEvent agentId containerId type) ∨
    (∃ port m, l = .allocate port m ∧ s.ports.get port = none ∧
      u = { s with ports := s.ports.insert port m }) ∨
    (∃ port, l = .release port ∧ u = { s with ports := s.ports.erase port }) ∨
    ∃ i tl t r, l = .task i tl ∧ s.tasks[i]? = some t ∧ t.step s.ports tl = some r ∧
      u = ⟨r.1, s.tasks.set i r.2⟩ := by
  cases l with
  | event agentId containerId type =>
    exact .inl ⟨agentId, containerId, type, rfl, (Option.some.inj h).symm⟩
  | allocate port m =>
    simp only [step] at h
    split at h
    · next hn =>
      exact .inr (.inl ⟨port, m, rfl, Option.isNone_iff_eq_none.mp hn, (Option.some.inj h).symm⟩)
    · cases h
  | release port => exact .inr (.inr (.inl ⟨port, rfl, (Option.some.inj h).symm⟩))
  | task i tl =>
    simp only [step] at h
    split at h
    · next t ht =>
      obtain ⟨r, hr, hu⟩ := Option.map_eq_some_iff.mp h
      exact .inr (.inr (.inr ⟨i, tl, t, r, rfl, ht, hr, hu.symm⟩))
    · cases h

end Events
end Hostlink.Controller
