import Hostlink.Controller.EventOwner

/-! Which lifecycle event decides whether a mapping is suspended. Each task writes every mapping
of its container once, so the last write decides; nothing in the code orders the writes of two
events by the order in which the events came. -/

namespace Hostlink.Controller

def EventType.suspends : EventType → Bool
  | .die | .stop => true
  | .start | .other _ => false

def EventPc.isDone : EventPc → Bool
  | .done => true
  | _ => false

theorem EventPc.eq_done {pc : EventPc} (h : pc.isDone = true) : pc = .done := by
  cases pc with
  | done => rfl
  | reading | inspecting | writing => cases h

namespace EventTask

def seen (t : EventTask) : List Nat :=
  match t.pc with
  | .reading _ seen => seen
  | _ => []

def splits (t : EventTask) : Bool :=
  match t.pc with
  | .inspecting mappings => mappings.keys.all fun port =>
      (mappings.get port).all fun m => (GoNet.splitHostPort m.target).isOk
  | _ => true

def Progress (t : EventTask) (port : Nat) : Prop :=
  match t.pc with
  | .reading snapshot seen => port ∈ seen → ∃ m, snapshot.get port = some m ∧ m.owner = t.owner
  | .inspecting mappings => mappings.get port ≠ none
  | .writing todo => port ∈ t.wrote ∨ todo.get port ≠ none
  | .done => port ∈ t.wrote

def Decides (t : EventTask) : Prop :=
  match t.pc with
  | .inspecting _ => t.type = .start
  | .writing todo => ∀ port m, todo.get port = some m → m.suspended = t.type.suspends
  | _ => True

theorem progress_writes {t : EventTask} {todo : Ports} {port : Nat} (h : t.pc = writes todo)
    (hp : port ∈ t.wrote ∨ todo.get port ≠ none) : t.Progress port := by
  by_cases he : todo.isEmpty = true
  · have hpc : t.pc = .done := by rw [h, writes, if_pos he]
    rw [Progress, hpc]
    exact hp.resolve_right (not_not.mpr (todo.isEmpty_iff.mp he port))
  · have hpc : t.pc = .writing todo := by rw [h, writes, if_neg he]
    rw [Progress, hpc]
    exact hp

theorem decides_writes {t : EventTask} {todo : Ports} (h : t.pc = writes todo)
    (hp : ∀ port m, todo.get port = some m → m.suspended = t.type.suspends) : t.Decides := by
  by_cases he : todo.isEmpty = true
  · have hpc : t.pc = .done := by rw [h, writes, if_pos he]
    rw [Decides, hpc]
    trivial
  · have hpc : t.pc = .writing todo := by rw [h, writes, if_neg he]
    rw [Decides, hpc]
    exact hp

theorem resume_of_split (networks : Networks) {m : PortMapping}
    (h : (GoNet.splitHostPort m.target).isOk = true) : ∃ m', m.resume networks = some m' := by
  unfold PortMapping.resume
  split
  · next err herr =>
    rw [herr] at h
    cases h
  · exact ⟨_, rfl⟩

theorem resume_suspended {networks : Networks} {m m' : PortMapping}
    (h : m.resume networks = some m') : m'.suspended = false := by
  unfold PortMapping.resume at h
  split at h
  · cases h
  · cases h
    rfl

theorem splits_get {t : EventTask} {mappings : Ports} (hs : t.splits = true)
    (hpc : t.pc = .inspecting mappings) {port : Nat} {m : PortMapping}
    (hm : mappings.get port = some m) : (GoNet.splitHostPort m.target).isOk = true := by
  rw [splits, hpc] at hs
  have hkey := mappings.covers port (by rw [hm]; exact Option.some_ne_none m)
  have hall := List.all_eq_true.mp hs port hkey
  rwa [hm] at hall

section Step
variable {ports : Ports} {t : EventTask} {l : TaskLabel} {r : Ports × EventTask}

theorem step_port (h : t.step ports l = some r) (port : Nat) :
    (l = .write port ∧ ∃ m m₀, t.entry port = some m ∧ ports.get port = some m₀ ∧
      r.1.get port = some m ∧ port ∈ r.2.wrote) ∨
    (r.1.get port = ports.get port ∧ (port ∈ r.2.wrote ↔ port ∈ t.wrote)) := by
  obtain ⟨_, _, _, -, -, rfl⟩ | ⟨_, _, -, -, rfl⟩ | ⟨_, _, -, -, rfl⟩ | ⟨_, _, -, -, rfl⟩ |
    ⟨q, todo, m, hl, hpc, hm, rfl⟩ | ⟨_, _, -, -, rfl⟩ := step_cases h
  · exact .inr ⟨rfl, Iff.rfl⟩
  · exact .inr ⟨rfl, Iff.rfl⟩
  · exact .inr ⟨rfl, Iff.rfl⟩
  · exact .inr ⟨rfl, Iff.rfl⟩
  · by_cases hs : (ports.get q).isSome = true
    · by_cases hq : port = q
      · subst hq
        obtain ⟨m₀, h₀⟩ := Option.isSome_iff_exists.mp hs
        exact .inl ⟨hl, m, m₀, by rw [entry, hpc]; exact hm, h₀, by simp [Ports.update, hs],
          by simp [hs]⟩
      · exact .inr ⟨by simp [Ports.update, hs, GoMap.get_insert_of_ne, hq], by simp [hs, hq]⟩
    · exact .inr ⟨by simp [Ports.update, hs], by simp [hs]⟩
  · exact .inr ⟨rfl, Iff.rfl⟩

theorem step_type (h : t.step ports l = some r) : r.2.type = t.type := by
  obtain ⟨_, _, _, -, -, rfl⟩ | ⟨_, _, -, -, rfl⟩ | ⟨_, _, -, -, rfl⟩ | ⟨_, _, -, -, rfl⟩ |
    ⟨_, _, _, -, -, -, rfl⟩ | ⟨_, _, -, -, rfl⟩ := step_cases h <;> rfl

theorem decides_afterRead {mappings : Ports} :
    ({ t with pc := t.afterRead mappings } : EventTask).Decides := by
  by_cases he : mappings.isEmpty = true
  · simp [afterRead, he, Decides]
  · have hsuspend : ∀ port m, (mappings.filterMap fun _ m => some m.suspend).get port = some m →
        m.suspended = true := by
      intro port m hm
      obtain ⟨m₀, -, hs⟩ := Option.bind_eq_some_iff.mp hm
      rw [← Option.some.inj hs]
      rfl
    cases ht : t.type with
    | die =>
      exact decides_writes (by simp only [afterRead, he, ht]; rfl) hsuspend
    | stop =>
      exact decides_writes (by simp only [afterRead, he, ht]; rfl) hsuspend
    | start => simp [afterRead, he, ht, Decides]
    | other name => simp [afterRead, he, ht, Decides]

theorem step_decides (hd : t.Decides) (h : t.step ports l = some r) : r.2.Decides := by
  obtain ⟨_, _, _, -, -, rfl⟩ | ⟨_, _, -, -, rfl⟩ | ⟨_, _, -, -, rfl⟩ |
    ⟨reply, mappings, -, hpc, rfl⟩ | ⟨q, todo, m, -, hpc, -, rfl⟩ | ⟨q, todo, -, hpc, rfl⟩ :=
    step_cases h
  · exact trivial
  · exact trivial
  · exact decides_afterRead
  · rw [Decides, hpc] at hd
    unfold afterInspect
    split
    · exact trivial
    · refine decides_writes rfl fun port m hm => ?_
      obtain ⟨m₀, -, hs⟩ := Option.bind_eq_some_iff.mp hm
      rw [resume_suspended hs, hd]
      rfl
  · rw [Decides, hpc] at hd
    exact decides_writes rfl fun port m hm => hd port m (GoMap.get_of_get_erase hm)
  · rw [Decides, hpc] at hd
    exact decides_writes rfl fun port m hm => hd port m (GoMap.get_of_get_erase hm)

theorem decides_entry {port : Nat} {m : PortMapping} (hd : t.Decides)
    (h : t.step ports (.write port) = some r) (hm : t.entry port = some m) :
    m.suspended = t.type.suspends := by
  obtain ⟨_, _, _, hl, -⟩ | ⟨_, _, hl, -⟩ | ⟨_, _, hl, -⟩ | ⟨_, _, hl, -⟩ |
    ⟨q, todo, m', -, hpc, -⟩ | ⟨_, _, hl, -⟩ := step_cases h
  · cases hl
  · cases hl
  · cases hl
  · cases hl
  · rw [Decides, hpc] at hd
    rw [entry, hpc] at hm
    exact hd port m hm
  · cases hl

theorem progress_afterRead {mappings : Ports} {port : Nat} (htype : ∀ name, t.type ≠ .other name)
    (hm : mappings.get port ≠ none) :
    ({ t with pc := t.afterRead mappings } : EventTask).Progress port := by
  have he : mappings.isEmpty = false := by
    by_contra he
    exact hm (mappings.isEmpty_iff.mp (by simpa using he) port)
  obtain ⟨m, hget⟩ := Option.ne_none_iff_exists'.mp hm
  have hsuspend : (mappings.filterMap fun _ m => some m.suspend).get port ≠ none := by
    simp [hget]
  cases ht : t.type with
  | die => exact progress_writes (by simp only [afterRead, he, ht]; rfl) (.inr hsuspend)
  | stop => exact progress_writes (by simp only [afterRead, he, ht]; rfl) (.inr hsuspend)
  | start => simpa [afterRead, he, ht, Progress] using hm
  | other name => exact absurd ht (htype name)

theorem step_progress {port : Nat} {m : PortMapping} (hp : t.Progress port)
    (htype : ∀ name, t.type ≠ .other name) (hget : ports.get port = some m) (hown : m.owner = t.owner)
    (hfail : l ≠ .readFail) (hwfail : ∀ q, l ≠ .writeFail q) (hread : l = .readDone → port ∈ t.seen)
    (hinsp : ∀ reply, l = .inspect reply → reply.networks?.isSome ∧ t.splits = true)
    (h : t.step ports l = some r) : r.2.Progress port := by
  obtain ⟨batch, snapshot, seen, -, hpc, rfl⟩ | ⟨_, _, hl, -⟩ | ⟨snapshot, seen, hl, hpc, rfl⟩ |
    ⟨reply, mappings, hl, hpc, rfl⟩ | ⟨q, todo, m', -, hpc, -, rfl⟩ | ⟨q, todo, hl, -⟩ :=
    step_cases h
  · rw [Progress, hpc] at hp
    intro hmem
    rw [get_readBatch]
    by_cases hb : port ∈ batch
    · exact ⟨m, by rw [if_pos hb, hget, Option.some_or], hown⟩
    · rw [if_neg hb]
      exact hp ((List.mem_append.mp hmem).resolve_right hb)
  · exact absurd hl hfail
  · have hseen := hread hl
    rw [EventTask.seen, hpc] at hseen
    rw [Progress, hpc] at hp
    obtain ⟨m₀, h₀, ho⟩ := hp hseen
    refine progress_afterRead htype ?_
    rw [get_affected.mpr ⟨h₀, ho⟩]
    exact Option.some_ne_none m₀
  -- a mapping whose target does not split would be skipped here
  · obtain ⟨hnet, hsplit⟩ := hinsp reply hl
    obtain ⟨networks, hnet⟩ := Option.isSome_iff_exists.mp hnet
    rw [Progress, hpc] at hp
    obtain ⟨m₀, h₀⟩ := Option.ne_none_iff_exists'.mp hp
    obtain ⟨m₁, h₁⟩ := resume_of_split networks (splits_get hsplit hpc h₀)
    have hafter : afterInspect mappings reply =
        writes (mappings.filterMap fun _ m => m.resume networks) := by
      simp only [afterInspect, hnet]
    refine progress_writes hafter (.inr ?_)
    simp [h₀, h₁]
  · rw [Progress, hpc] at hp
    refine progress_writes rfl ?_
    by_cases hq : port = q
    · subst hq
      exact .inl (by simp [hget])
    · rw [GoMap.get_erase_of_ne _ hq]
      refine hp.imp_left fun hw => ?_
      split
      · exact List.mem_cons_of_mem _ hw
      · exact hw
  · exact absurd hl (hwfail q)

end Step

end EventTask

namespace Events

/-- Every store operation and every inspection succeeds: a read sees all ports that are mapped.
No port is allocated or released meanwhile. -/
def Succeeds (s : Events) : EventsLabel → Prop
  | .event _ _ _ => True
  | .allocate _ _ | .release _ => False
  | .task i l =>
    match l with
    | .readBatch _ | .write _ => True
    | .readFail | .writeFail _ => False
    | .readDone => ∀ t ∈ s.tasks[i]?, ∀ port ∈ s.ports.keys, (s.ports.get port).isSome → port ∈ t.seen
    | .inspect reply => reply.networks?.isSome

/-- An event writes a port only if no later event of the same container with the opposite effect
has, and a start event resumes only mappings whose targets split. -/
def InOrder (s : Events) : EventsLabel → Prop
  | .task i (.write port) => ∀ t ∈ s.tasks[i]?, ∀ t' ∈ s.tasks.drop (i + 1),
      t'.owner = t.owner → port ∈ t'.wrote → t'.type.suspends = t.type.suspends
  | .task i (.inspect _) => ∀ t ∈ s.tasks[i]?, t.splits = true
  | _ => True

instance (s : Events) (l : EventsLabel) : Decidable (Succeeds s l) :=
  match l with
  | .event _ _ _ => inferInstanceAs (Decidable True)
  | .allocate _ _ | .release _ => inferInstanceAs (Decidable False)
  | .task i l =>
    match l with
    | .readBatch _ | .write _ => inferInstanceAs (Decidable True)
    | .readFail | .writeFail _ => inferInstanceAs (Decidable False)
    | .readDone => inferInstanceAs (Decidable
        (∀ t ∈ s.tasks[i]?, ∀ port ∈ s.ports.keys, (s.ports.get port).isSome → port ∈ t.seen))
    | .inspect reply => inferInstanceAs (Decidable (reply.networks?.isSome = true))

instance (s : Events) (l : EventsLabel) : Decidable (InOrder s l) :=
  match l with
  | .event _ _ _ | .allocate _ _ | .release _ => inferInstanceAs (Decidable True)
  | .task i l =>
    match l with
    | .readBatch _ | .readFail | .readDone | .writeFail _ => inferInstanceAs (Decidable True)
    | .write port => inferInstanceAs (Decidable (∀ t ∈ s.tasks[i]?, ∀ t' ∈ s.tasks.drop (i + 1),
        t'.owner = t.owner → port ∈ t'.wrote → t'.type.suspends = t.type.suspends))
    | .inspect _ => inferInstanceAs (Decidable (∀ t ∈ s.tasks[i]?, t.splits = true))

/-- What holds along runs whose operations succeed and whose writes are in order: every task
comes by every port of its container, and a port is as the latest event among those that wrote
it wants it. -/
structure OrderInv (s : Events) : Prop where
  own : s.OwnInv
  typed : ∀ t ∈ s.tasks, ∀ name, t.type ≠ .other name
  decides : ∀ t ∈ s.tasks, t.Decides
  progress : ∀ t ∈ s.tasks, ∀ port m, s.ports.get port = some m → m.owner = t.owner → t.Progress port
  mine : ∀ t ∈ s.tasks, ∀ port ∈ t.wrote, (s.ports.get port).map PortMapping.owner = some t.owner
  latest : ∀ (i : Nat) (t : EventTask) port m, s.tasks[i]? = some t → port ∈ t.wrote →
    s.ports.get port = some m →
    (∀ (j : Nat) (t' : EventTask), i < j → s.tasks[j]? = some t' → t'.owner = t.owner →
      port ∉ t'.wrote) →
    m.suspended = t.type.suspends

theorem orderInv_init (ports : Ports) : OrderInv (init ports) where
  own := ownInv_init ports
  typed := fun t ht => by simp [init] at ht
  decides := fun t ht => by simp [init] at ht
  progress := fun t ht => by simp [init] at ht
  mine := fun t ht => by simp [init] at ht
  latest := fun i t port m ht => by simp [init] at ht

theorem orderInv_event {s : Events} (hi : OrderInv s)
    (agentId containerId : String) (type : EventType) :
    OrderInv (s.handleContainerEvent agentId containerId type) := by
  have hown := ownInv_event hi.own agentId containerId type
  rcases s.handleContainerEvent_cases agentId containerId type with h | ⟨htype, h⟩
  · rwa [h]
  rw [h] at hown ⊢
  refine ⟨hown, ?_, ?_, ?_, ?_, ?_⟩
  · exact List.forall_mem_append.mpr ⟨hi.typed, List.forall_mem_singleton.mpr htype⟩
  · exact List.forall_mem_append.mpr ⟨hi.decides, List.forall_mem_singleton.mpr trivial⟩
  · refine List.forall_mem_append.mpr ⟨hi.progress, List.forall_mem_singleton.mpr ?_⟩
    exact fun port m _ _ hseen => absurd hseen List.not_mem_nil
  · refine List.forall_mem_append.mpr ⟨hi.mine, List.forall_mem_singleton.mpr ?_⟩
    exact fun port hp => absurd hp List.not_mem_nil
  · intro i t port m ht hp hm hlater
    rcases List.getElem?_of_concat ht with hold | ⟨-, rfl⟩
    · exact hi.latest i t port m hold hp hm fun j t' hij ht' =>
        hlater j t' hij (List.getElem?_append_of ht' _)
    · -- the new task has written nothing
      exact absurd hp List.not_mem_nil

theorem orderInv_latest {s : Events} (hi : OrderInv s) {i : Nat}
    {t : EventTask} {l : TaskLabel} {r : Ports × EventTask} (ht : s.tasks[i]? = some t)
    (hord : InOrder s (.task i l)) (h : t.step s.ports l = some r) (k : Nat) (t' : EventTask)
    (port : Nat) (m : PortMapping) (ht' : (s.tasks.set i r.2)[k]? = some t') (hp : port ∈ t'.wrote)
    (hm : r.1.get port = some m)
    (hlater : ∀ j t'', k < j → (s.tasks.set i r.2)[j]? = some t'' → t''.owner = t'.owner →
      port ∉ t''.wrote) : m.suspended = t'.type.suspends := by
  have hlt := (List.getElem?_eq_some_iff.mp ht).1
  have hself : (s.tasks.set i r.2)[i]? = some r.2 := List.getElem?_set_self hlt
  have hmem := List.mem_of_getElem? ht
  obtain ⟨hown, -⟩ := EventTask.step_entry h
  rcases EventTask.step_port h port with ⟨rfl, m', m₀, hentry, h₀, hwrite, hwrote⟩ | ⟨hsame, hw⟩
  · rw [hwrite] at hm
    obtain rfl := Option.some.inj hm
    have hsus := EventTask.decides_entry (hi.decides t hmem) h hentry
    by_cases hki : k = i
    · subst hki
      rw [hself] at ht'
      obtain rfl := Option.some.inj ht'
      rw [EventTask.step_type h, hsus]
    · rw [List.getElem?_set_ne (Ne.symm hki)] at ht'
      have hsame : t'.owner = t.owner := by
        have hmine := hi.mine t' (List.mem_of_getElem? ht') port hp
        rw [h₀, Option.map_some, Option.some.injEq] at hmine
        rw [← hmine, (hi.own t hmem port m' hentry).2 m₀ h₀]
      rcases Nat.lt_or_gt_of_ne hki with hlt | hgt
      · exact absurd hwrote (hlater i r.2 hlt hself (hown.trans hsame.symm))
      · -- a later event has written the port already: it has the same effect
        have hdrop : t' ∈ s.tasks.drop (i + 1) := by
          rw [List.mem_iff_getElem?]
          exact ⟨k - (i + 1), by rw [List.getElem?_drop, Nat.add_sub_of_le hgt]; exact ht'⟩
        rw [hsus, hord t ht t' hdrop hsame hp]
  · rw [hsame] at hm
    -- who wrote the port before is who has written it now
    have hback : ∀ (j : Nat) (t'' : EventTask), s.tasks[j]? = some t'' → ∃ u : EventTask, (s.tasks.set i r.2)[j]? = some u ∧
        u.owner = t''.owner ∧ (port ∈ u.wrote ↔ port ∈ t''.wrote) := by
      intro j t'' hj
      by_cases hji : j = i
      · subst hji
        rw [ht] at hj
        obtain rfl := Option.some.inj hj
        exact ⟨r.2, hself, hown, hw⟩
      · exact ⟨t'', by rw [List.getElem?_set_ne (Ne.symm hji), hj], rfl, Iff.rfl⟩
    obtain ⟨t₀, ht₀, htype, howner, hwrote⟩ : ∃ t₀, s.tasks[k]? = some t₀ ∧
        t'.type = t₀.type ∧ t'.owner = t₀.owner ∧ port ∈ t₀.wrote := by
      by_cases hki : k = i
      · subst hki
        rw [hself] at ht'
        obtain rfl := Option.some.inj ht'
        exact ⟨t, ht, EventTask.step_type h, hown, hw.mp hp⟩
      · rw [List.getElem?_set_ne (Ne.symm hki)] at ht'
        exact ⟨t', ht', rfl, rfl, hp⟩
    rw [htype]
    refine hi.latest k t₀ port m ht₀ hwrote hm fun j t'' hkj hj ho hin => ?_
    obtain ⟨u, hu, huo, huw⟩ := hback j t'' hj
    exact hlater j u hkj hu (huo.trans (ho.trans howner.symm)) (huw.mpr hin)

theorem orderInv_task {s : Events} (hi : OrderInv s) {i : Nat}
    {t : EventTask} {l : TaskLabel} {r : Ports × EventTask} (ht : s.tasks[i]? = some t)
    (hok : Succeeds s (.task i l)) (hord : InOrder s (.task i l)) (h : t.step s.ports l = some r) :
    OrderInv ⟨r.1, s.tasks.set i r.2⟩ := by
  have hmem := List.mem_of_getElem? ht
  have howner := owner_step hi.own ht h
  obtain ⟨hown, -⟩ := EventTask.step_entry h
  refine ⟨ownInv_task hi.own ht h, ?_, ?_, ?_, ?_, orderInv_latest hi ht hord h⟩
  · intro t' ht'
    rcases List.mem_or_eq_of_mem_set ht' with hold | rfl
    · exact hi.typed t' hold
    · rw [EventTask.step_type h]
      exact hi.typed t hmem
  · intro t' ht'
    rcases List.mem_or_eq_of_mem_set ht' with hold | rfl
    · exact hi.decides t' hold
    · exact EventTask.step_decides (hi.decides t hmem) h
  · intro t' ht' port m hm ho
    have hbefore := howner port
    rw [hm, Option.map_some, eq_comm, Option.map_eq_some_iff] at hbefore
    obtain ⟨m₀, h₀, heq⟩ := hbefore
    rcases List.mem_or_eq_of_mem_set ht' with hold | rfl
    · exact hi.progress t' hold port m₀ h₀ (heq.trans ho)
    · have ho₀ : m₀.owner = t.owner := heq.trans (ho.trans hown)
      have hkey := s.ports.covers port (by rw [h₀]; exact Option.some_ne_none m₀)
      refine EventTask.step_progress (hi.progress t hmem port m₀ h₀ ho₀) (hi.typed t hmem) h₀ ho₀
        ?_ ?_ ?_ ?_ h
      · rintro rfl
        exact hok.elim
      · rintro q rfl
        exact hok.elim
      · rintro rfl
        exact hok t ht port hkey (by rw [h₀]; rfl)
      · rintro reply rfl
        exact ⟨hok, hord t ht⟩
  · intro t' ht' port hp
    rw [howner port]
    rcases List.mem_or_eq_of_mem_set ht' with hold | rfl
    · exact hi.mine t' hold port hp
    · rw [hown]
      rcases EventTask.step_port h port with ⟨-, m, m₀, hm, h₀, -⟩ | ⟨-, hw⟩
      · rw [h₀, Option.map_some, (hi.own t hmem port m hm).2 m₀ h₀]
      · exact hi.mine t hmem port (hw.mp hp)

/-- The last lifecycle event decides. -/
theorem last_event_wins_of_run {ports : Ports} {ls : List EventsLabel} {s : Events}
    (h : Lts.Run step (fun s l => Succeeds s l ∧ InOrder s l) (init ports) ls s)
    {i : Nat} {t : EventTask} (ht : s.tasks[i]? = some t)
    (hlast : ∀ j t', i < j → s.tasks[j]? = some t' → t'.owner ≠ t.owner)
    (hdone : ∀ t' ∈ s.tasks, t'.owner = t.owner → t'.pc.isDone = true) {port : Nat} {m : PortMapping}
    (hm : s.ports.get port = some m) (ho : m.owner = t.owner) :
    m.suspended = true ↔ t.type = .die ∨ t.type = .stop := by
  have hi : OrderInv s := by
    refine h.invariant (fun s l u hi hok hs => ?_) (orderInv_init ports)
    obtain ⟨a, c, ty, rfl, rfl⟩ | ⟨_, _, rfl, -⟩ | ⟨_, rfl, -⟩ | ⟨i, tl, t, r, rfl, ht, hr, rfl⟩ :=
      step_cases hs
    · exact orderInv_event hi a c ty
    · exact hok.1.elim
    · exact hok.1.elim
    · exact orderInv_task hi ht hok.1 hok.2 hr
  have hmem := List.mem_of_getElem? ht
  -- the last event's task is done, and a done task has written every port of its container
  have hwrote : port ∈ t.wrote := by
    have hp := hi.progress t hmem port m hm ho
    rwa [EventTask.Progress, EventPc.eq_done (hdone t hmem rfl)] at hp
  have hsus := hi.latest i t port m ht hwrote hm fun j t' hij ht' ho' =>
    absurd ho' (hlast j t' hij ht')
  rw [hsus]
  cases hty : t.type with
  | die | stop | start => simp [EventType.suspends]
  | other name => exact absurd hty (hi.typed t hmem name)

def crashLoop : List EventsLabel :=
  [.event "a" "web" .start, .event "a" "web" .die, .task 0 (.readBatch [8000]), .task 0 .readDone,
    .task 1 (.readBatch [8000]), .task 1 .readDone]

def inspected : InspectReply := .result 200 (.ok [("bridge", "10.0.0.3")])

theorem last_event_wins_of_run_crashLoop : ∃ s t m,
    Lts.Run step (fun s l => Succeeds s l ∧ InOrder s l) (init webPorts)
      (crashLoop ++ [.task 0 (.inspect inspected), .task 0 (.write 8000), .task 1 (.write 8000)]) s ∧
      s.tasks[1]? = some t ∧ s.ports.get 8000 = some m ∧
      (m.suspended = true ↔ t.type = .die ∨ t.type = .stop) := by
  let s := (Lts.execOk step (fun s l => Succeeds s l ∧ InOrder s l) (init webPorts) (crashLoop ++
    [.task 0 (.inspect inspected), .task 0 (.write 8000), .task 1 (.write 8000)])).get
    (by decide +kernel)
  let t := s.tasks[1]?.get (by decide +kernel)
  let m := (s.ports.get 8000).get (by decide +kernel)
  have hrun := Lts.run_of_execOk (t := s) (Option.some_get _).symm
  have ht : s.tasks[1]? = some t := (Option.some_get _).symm
  have hm : s.ports.get 8000 = some m := (Option.some_get _).symm
  have hlen : s.tasks.length = 2 := by decide +kernel
  refine ⟨s, t, m, hrun, ht, hm, last_event_wins_of_run hrun ht ?_ (by decide +kernel) hm
    (by decide +kernel)⟩
  intro j t' hj ht'
  have hlt := (List.getElem?_eq_some_iff.mp ht').1
  omega

/-- The reply to the inspection comes after `die` has written: the dead container's mapping is
active in the end. -/
theorem start_overtakes_die : ∃ s t m,
    Lts.Run step Succeeds (init webPorts)
      (crashLoop ++ [.task 1 (.write 8000), .task 0 (.inspect inspected), .task 0 (.write 8000)]) s ∧
      s.tasks.getLast? = some t ∧ t.type = .die ∧ (∀ t' ∈ s.tasks, t'.pc.isDone = true) ∧
      s.ports.get 8000 = some m ∧ m.owner = t.owner ∧ m.suspended = false := by
  let s := (Lts.execOk step Succeeds (init webPorts) (crashLoop ++
    [.task 1 (.write 8000), .task 0 (.inspect inspected), .task 0 (.write 8000)])).get
    (by decide +kernel)
  let t := s.tasks.getLast?.get (by decide +kernel)
  let m := (s.ports.get 8000).get (by decide +kernel)
  exact ⟨s, t, m, Lts.run_of_execOk (Option.some_get _).symm, (Option.some_get _).symm,
    by decide +kernel, by decide +kernel, (Option.some_get _).symm, by decide +kernel,
    by decide +kernel⟩

end Events
end Hostlink.Controller
