import Hostlink.Lib.Run
import Hostlink.Controller.Bindings
import Hostlink.Controller.Listeners

/-! Replicas that report their listeners to one Redis. Each pod runs `runPortReconciler`: it reads
the desired ports page by page, reconciles its listeners and reports them; a report is a list of
SETs fixed when it starts. Keys with a TTL may disappear at any time, and all of this goes on while
`states` sends its SCANs and MGETs. -/

namespace Hostlink.Controller

inductive PodPc where
  | reading (desired : List Nat)
  | report
  | setting (todo : List String)

/-- `since port` remembers whether the pod has had a listener on the port since the port was last
allocated. -/
structure Pod where
  listeners : Listeners := {}
  pc : PodPc := .reading []
  closed : Bool := false
  since : Nat → Bool := fun _ => false

inductive PodLabel where
  | readBatch (batch : List Nat)
  | readFail
  | reconcile (plan : ReconcilePlan)
  | report
  | set
  | setFail
  | close

namespace Pod

def bound (pod : Pod) (port : Nat) : Bool := (pod.listeners.active.get port).isSome

def todo (pod : Pod) : List String :=
  match pod.pc with
  | .setting todo => todo
  | _ => []

def reportKeys (addr : String) (listeners : Listeners) : List String :=
  controllerKey addr :: listeners.boundPorts.map fun port => boundKey port addr

def afterSet (todo : List String) : PodPc := if todo = [] then .reading [] else .setting todo

def step (redis : RedisKeys) (addr : String) (pod : Pod) :
    PodLabel → Option (RedisKeys × Pod)
  | .readBatch batch =>
    match pod.pc with
    | .reading desired =>
      let found := batch.filter fun port => (redis.get (portKey port)).isSome
      some (redis, { pod with pc := .reading (desired ++ found) })
    | _ => none
  | .readFail =>
    match pod.pc with
    | .reading _ => some (redis, { pod with pc := .report })
    | _ => none
  | .reconcile plan =>
    match pod.pc with
    | .reading desired =>
      if pod.listeners.active.Iteration plan.activeOrder ∧
          (portSet desired).Iteration plan.desiredOrder then
        let listeners := (pod.listeners.reconcile (portSet desired) plan pod.closed).1
        some (redis, { pod with
          listeners := listeners
          pc := .report
          since := fun port => pod.since port || (listeners.active.get port).isSome })
      else none
    | _ => none
  | .report =>
    match pod.pc with
    | .report => some (redis, { pod with pc := .setting (reportKeys addr pod.listeners) })
    | _ => none
  | .set =>
    match pod.pc with
    | .setting (key :: todo) =>
      some (redis.insert key "1", { pod with pc := afterSet todo })
    | _ => none
  | .setFail =>
    match pod.pc with
    | .setting _ => some (redis, { pod with pc := .reading [] })
    | _ => none
  | .close => some (redis, { pod with
      listeners := pod.listeners.active.present.foldl Listeners.closePort pod.listeners
      closed := true })

structure Inv (addr : String) (pod : Pod) : Prop where
  bound : ∀ port, pod.bound port = true → pod.since port = true
  todo : ∀ key ∈ pod.todo, key = controllerKey addr ∨
    ∃ port, key = boundKey port addr ∧ pod.since port = true

theorem todo_afterSet {pod : Pod} {keys : List String} (h : pod.pc = afterSet keys) :
    pod.todo = keys := by
  unfold afterSet at h
  split at h
  · next hk => rw [todo, h, hk]
  · rw [todo, h]

theorem Inv.report {addr : String} {pod : Pod} (hi : pod.Inv addr) :
    ({ pod with pc := .setting (reportKeys addr pod.listeners) } : Pod).Inv addr where
  bound := hi.bound
  todo := fun key hkey => by
    rcases List.mem_cons.mp hkey with rfl | hkey
    · exact .inl rfl
    · obtain ⟨port, hport, rfl⟩ := List.mem_map.mp hkey
      refine .inr ⟨port, rfl, hi.bound port (Option.isSome_iff_ne_none.mpr ?_)⟩
      exact GoMap.mem_present.mp ((List.mem_insertionSort _).mp hport)

theorem Inv.set {addr key : String} {keys : List String} {pod : Pod} (hi : pod.Inv addr)
    (hpc : pod.pc = .setting (key :: keys)) :
    ({ pod with pc := afterSet keys } : Pod).Inv addr where
  bound := hi.bound
  todo := fun k hk => by
    rw [todo_afterSet rfl] at hk
    refine hi.todo k ?_
    rw [Pod.todo, hpc]
    exact List.mem_cons_of_mem _ hk

theorem bound_of_closePort {t : Listeners} {order : List Nat} {port : Nat}
    (h : ((order.foldl Listeners.closePort t).active.get port).isSome = true) :
    (t.active.get port).isSome = true := by
  induction order generalizing t with
  | nil => exact h
  | cons q order ih =>
    have hturn := ih h
    unfold Listeners.closePort at hturn
    split at hturn
    · exact hturn
    · obtain ⟨listener, hget⟩ := Option.isSome_iff_exists.mp hturn
      rw [GoMap.get_of_get_erase hget]
      rfl

theorem step_spec {redis : RedisKeys} {addr : String} {pod : Pod} {l : PodLabel}
    {r : RedisKeys × Pod} (hi : pod.Inv addr) (h : pod.step redis addr l = some r) :
    r.2.Inv addr ∧ (∀ port, pod.since port = true → r.2.since port = true) ∧
      (r.1 = redis ∨ ∃ key ∈ pod.todo, r.1 = redis.insert key "1") := by
  cases l with
  | readBatch batch =>
    simp only [step] at h
    split at h
    · cases h
      exact ⟨⟨hi.bound, fun key hk => absurd hk List.not_mem_nil⟩, fun _ h => h, .inl rfl⟩
    · cases h
  | readFail =>
    simp only [step] at h
    split at h
    · cases h
      exact ⟨⟨hi.bound, fun key hk => absurd hk List.not_mem_nil⟩, fun _ h => h, .inl rfl⟩
    · cases h
  | reconcile plan =>
    simp only [step] at h
    split at h
    · split at h
      · cases h
        refine ⟨⟨fun port hp => ?_, fun key hk => absurd hk List.not_mem_nil⟩, fun port hp => ?_,
          .inl rfl⟩
        · exact Bool.or_eq_true_iff.mpr (.inr hp)
        · exact Bool.or_eq_true_iff.mpr (.inl hp)
      · cases h
    · cases h
  | report =>
    simp only [step] at h
    split at h
    · cases h
      exact ⟨hi.report, fun _ h => h, .inl rfl⟩
    · cases h
  | set =>
    simp only [step] at h
    split at h
    · next key keys hpc =>
      cases h
      refine ⟨hi.set hpc, fun _ h => h, .inr ⟨key, ?_, rfl⟩⟩
      rw [todo, hpc]
      exact List.mem_cons_self
    · cases h
  | setFail =>
    simp only [step] at h
    split at h
    · cases h
      exact ⟨⟨hi.bound, fun key hk => absurd hk List.not_mem_nil⟩, fun _ h => h, .inl rfl⟩
    · cases h
  | close =>
    cases h
    exact ⟨⟨fun port hp => hi.bound port (bound_of_closePort hp), hi.todo⟩, fun _ h => h, .inl rfl⟩

end Pod

structure Cluster where
  redis : RedisKeys
  pods : GoMap String Pod

inductive ClusterLabel where
  | join (addr : String)
  | allocate (port : Nat) (m : PortMapping)
  | release (port : Nat)
  | expire (key : String)
  | pod (addr : String) (l : PodLabel)

def ClusterLabel.allocates : ClusterLabel → Option Nat
  | .allocate port _ => some port
  | .join _ | .release _ | .expire _ | .pod _ _ => none

namespace Cluster

def expires (key : String) : Bool :=
  GoStrings.hasPrefix key boundKeyPrefix || GoStrings.hasPrefix key controllerKeyPrefix

def step (s : Cluster) : ClusterLabel → Option Cluster
  | .join addr =>
    if (s.pods.get addr).isNone then some { s with pods := s.pods.insert addr {} } else none
  | .allocate port m =>
    if (s.redis.get (portKey port)).isNone then
      some {
        redis := s.redis.insert (portKey port) m.marshal
        -- a listener left from an earlier allocation counts as bound
        pods := s.pods.filterMap fun _ pod =>
          some { pod with since := Function.update pod.since port (pod.bound port) } }
    else none
  | .release port => some { s with redis := s.redis.erase (portKey port) }
  | .expire key =>
    if expires key then some { s with redis := s.redis.erase key } else none
  | .pod addr l =>
    match s.pods.get addr with
    | some pod => (pod.step s.redis addr l).map fun r => ⟨r.1, s.pods.insert addr r.2⟩
    | none => none

def init : Cluster := ⟨.empty, .empty⟩

/-- A port is allocated only when every pod that is reported to have it bound, or is about to be by
a report under way, still has its listener. -/
def StillBound (s : Cluster) : ClusterLabel → Prop
  | .allocate port _ => ∀ addr ∈ s.pods.keys, ∀ pod ∈ s.pods.get addr,
      (s.redis.get (boundKey port addr)).isSome ∨ boundKey port addr ∈ pod.todo → pod.bound port = true
  | _ => True

instance (s : Cluster) (l : ClusterLabel) : Decidable (StillBound s l) :=
  match l with
  | .allocate port _ => inferInstanceAs (Decidable (∀ addr ∈ s.pods.keys,
      ∀ pod ∈ s.pods.get addr, (s.redis.get (boundKey port addr)).isSome ∨
        boundKey port addr ∈ pod.todo → pod.bound port = true))
  | .join _ | .release _ | .expire _ | .pod _ _ => inferInstanceAs (Decidable True)

structure Inv (s : Cluster) : Prop where
  pods : ∀ addr pod, s.pods.get addr = some pod → pod.Inv addr
  reported : ∀ addr port, s.redis.get (boundKey port addr) ≠ none →
    ∃ pod, s.pods.get addr = some pod ∧ pod.since port = true

theorem init_inv : init.Inv where
  pods := fun addr pod h => by simp [init] at h
  reported := fun addr port h => absurd rfl h

theorem step_cases {s t : Cluster} {l : ClusterLabel} (h : s.step l = some t) :
    (∃ addr, l = .join addr ∧ s.pods.get addr = none ∧ t = { s with pods := s.pods.insert addr {} }) ∨
    (∃ port m, l = .allocate port m ∧ t = {
      redis := s.redis.insert (portKey port) m.marshal
      pods := s.pods.filterMap fun _ pod =>
        some { pod with since := Function.update pod.since port (pod.bound port) } }) ∨
    (∃ key, t = { s with redis := s.redis.erase key }) ∨
    ∃ addr pl pod r, l = .pod addr pl ∧ s.pods.get addr = some pod ∧
      pod.step s.redis addr pl = some r ∧ t = ⟨r.1, s.pods.insert addr r.2⟩ := by
  cases l with
  | join addr =>
    simp only [step] at h
    split at h
    · next hn => exact .inl ⟨addr, rfl, Option.isNone_iff_eq_none.mp hn, (Option.some.inj h).symm⟩
    · cases h
  | allocate port m =>
    simp only [step] at h
    split at h
    · exact .inr (.inl ⟨port, m, rfl, (Option.some.inj h).symm⟩)
    · cases h
  | release port => exact .inr (.inr (.inl ⟨portKey port, (Option.some.inj h).symm⟩))
  | expire key =>
    simp only [step] at h
    split at h
    · exact .inr (.inr (.inl ⟨key, (Option.some.inj h).symm⟩))
    · cases h
  | pod addr pl =>
    simp only [step] at h
    split at h
    · next pod hpod =>
      obtain ⟨r, hr, ht⟩ := Option.map_eq_some_iff.mp h
      exact .inr (.inr (.inr ⟨addr, pl, pod, r, rfl, hpod, hr, ht.symm⟩))
    · cases h

theorem join_inv {s : Cluster} {addr : String} (hi : s.Inv) (hnew : s.pods.get addr = none) :
    ({ s with pods := s.pods.insert addr {} } : Cluster).Inv := by
  constructor
  · intro a pod hpod
    rcases GoMap.get_of_get_insert hpod with ⟨-, rfl⟩ | hold
    · exact ⟨fun port hp => absurd hp Bool.false_ne_true, fun key hk => absurd hk List.not_mem_nil⟩
    · exact hi.pods a pod hold
  · intro a port hkey
    obtain ⟨pod, hpod, hs⟩ := hi.reported a port hkey
    have ha : a ≠ addr := by
      rintro rfl
      rw [hnew] at hpod
      cases hpod
    exact ⟨pod, by rw [GoMap.get_insert_of_ne _ ha, hpod], hs⟩

theorem allocate_inv {s : Cluster} {port : Nat} {m : PortMapping} (hi : s.Inv)
    (hok : StillBound s (.allocate port m)) :
    ({ redis := s.redis.insert (portKey port) m.marshal
       pods := s.pods.filterMap fun _ pod =>
        some { pod with since := Function.update pod.since port (pod.bound port) } } :
      Cluster).Inv := by
  -- a pod that is reported to have the port bound still has it
  have hstill : ∀ addr pod, s.pods.get addr = some pod →
      s.redis.get (boundKey port addr) ≠ none ∨ boundKey port addr ∈ pod.todo → pod.bound port = true := by
    intro addr pod hpod h
    refine hok addr (s.pods.covers addr ?_) pod hpod (h.imp_left Option.isSome_iff_ne_none.mpr)
    rw [hpod]
    exact Option.some_ne_none pod
  constructor
  · intro addr pod hpod
    obtain ⟨p₀, h₀, hp⟩ := Option.bind_eq_some_iff.mp hpod
    obtain rfl := Option.some.inj hp
    have hinv := hi.pods addr p₀ h₀
    refine ⟨fun q hq => ?_, fun key hkey => ?_⟩
    · by_cases hqp : q = port
      · subst hqp
        exact (Function.update_self ..).trans hq
      · simpa [hqp] using hinv.bound q hq
    · refine (hinv.todo key hkey).imp_right ?_
      rintro ⟨q, rfl, hs⟩
      refine ⟨q, rfl, ?_⟩
      by_cases hqp : q = port
      · subst hqp
        simpa using hstill addr p₀ h₀ (.inr hkey)
      · simpa [hqp] using hs
  · intro addr q hkey
    rw [GoMap.get_insert_of_ne _ (boundKey_ne_portKey q port addr)] at hkey
    obtain ⟨pod, hpod, hs⟩ := hi.reported addr q hkey
    refine ⟨_, by rw [GoMap.get_filterMap, hpod, Option.bind_some], ?_⟩
    by_cases hqp : q = port
    · subst hqp
      simpa using hstill addr pod hpod (.inl hkey)
    · simpa [hqp] using hs

theorem pod_inv {s : Cluster} {addr : String} {l : PodLabel} {pod : Pod} {r : RedisKeys × Pod}
    (hi : s.Inv) (hpod : s.pods.get addr = some pod) (h : pod.step s.redis addr l = some r) :
    Cluster.Inv ⟨r.1, s.pods.insert addr r.2⟩ := by
  obtain ⟨hinv, hsince, hredis⟩ := Pod.step_spec (hi.pods addr pod hpod) h
  constructor
  · intro a pod' hpod'
    rcases GoMap.get_of_get_insert hpod' with ⟨rfl, rfl⟩ | hold
    · exact hinv
    · exact hi.pods a pod' hold
  · intro a port hkey
    have hnow : ∀ p, s.pods.get a = some p → p.since port = true →
        ∃ p', (s.pods.insert addr r.2).get a = some p' ∧ p'.since port = true := by
      intro p hp hs
      by_cases ha : a = addr
      · subst ha
        rw [hpod] at hp
        obtain rfl := Option.some.inj hp
        exact ⟨r.2, GoMap.get_insert_self _ _ _, hsince port hs⟩
      · exact ⟨p, by rw [GoMap.get_insert_of_ne _ ha, hp], hs⟩
    have hold : s.redis.get (boundKey port a) ≠ none → ∃ p', (s.pods.insert addr r.2).get a = some p' ∧
        p'.since port = true := by
      intro hk
      obtain ⟨p, hp, hs⟩ := hi.reported a port hk
      exact hnow p hp hs
    obtain hsame | ⟨key, hmem, hset⟩ := hredis
    · exact hold (by rwa [hsame] at hkey)
    · rw [hset] at hkey
      by_cases hk : boundKey port a = key
      · -- the key comes from the report of this pod
        rcases (hi.pods addr pod hpod).todo key hmem with hc | ⟨q, hq, hs⟩
        · exact absurd (hk.trans hc) (boundKey_ne_controllerKey port a addr)
        · obtain ⟨rfl, rfl⟩ := boundKey_inj.mp (hk.trans hq)
          exact hnow pod hpod hs
      · exact hold (by rwa [GoMap.get_insert_of_ne _ hk] at hkey)

theorem step_inv {s t : Cluster} {l : ClusterLabel} (hi : s.Inv) (hok : StillBound s l)
    (h : s.step l = some t) : t.Inv := by
  obtain ⟨addr, rfl, hnew, rfl⟩ | ⟨port, m, rfl, rfl⟩ | ⟨key, rfl⟩ |
    ⟨addr, pl, pod, r, rfl, hpod, hr, rfl⟩ := step_cases h
  · exact join_inv hi hnew
  · exact allocate_inv hi hok
  · refine ⟨hi.pods, fun addr port hkey => hi.reported addr port fun hn => hkey ?_⟩
    by_cases hk : boundKey port addr = key
    · rw [hk, GoMap.get_erase_self]
    · rw [GoMap.get_erase_of_ne _ hk, hn]
  · exact pod_inv hi hpod hr

theorem since_of_step {s t : Cluster} {l : ClusterLabel} {addr : String} {pod : Pod} {port : Nat}
    (hi : s.Inv) (h : s.step l = some t) (hother : ∀ m, l ≠ .allocate port m)
    (hpod : s.pods.get addr = some pod) (hsince : pod.since port = true) :
    ∃ pod, t.pods.get addr = some pod ∧ pod.since port = true := by
  obtain ⟨a, rfl, hnew, rfl⟩ | ⟨q, m, rfl, rfl⟩ | ⟨key, rfl⟩ | ⟨a, pl, p, r, rfl, hp, hr, rfl⟩ :=
    step_cases h
  · have hne : addr ≠ a := by
      rintro rfl
      rw [hnew] at hpod
      cases hpod
    exact ⟨pod, (GoMap.get_insert_of_ne _ hne _).trans hpod, hsince⟩
  · have hne : port ≠ q := by
      rintro rfl
      exact hother m rfl
    refine ⟨_, by rw [GoMap.get_filterMap, hpod, Option.bind_some], ?_⟩
    simpa [hne] using hsince
  · exact ⟨pod, hpod, hsince⟩
  · by_cases ha : addr = a
    · subst ha
      rw [hpod] at hp
      obtain rfl := Option.some.inj hp
      exact ⟨r.2, GoMap.get_insert_self _ _ _, (Pod.step_spec (hi.pods _ _ hpod) hr).2.1 port hsince⟩
    · exact ⟨pod, (GoMap.get_insert_of_ne _ ha _).trans hpod, hsince⟩

end Cluster

/-! ### A call of `states` while the cluster goes on -/

/-- The commands of a call so far. `stable` are the liveness keys that have been there all along: Redis
promises that a SCAN returns them. -/
structure StatesCall where
  mappings : GoMap Nat PortMapping
  stable : List String
  pages : List (List String) := []
  scanned : Bool := false
  answers : List (List (Option String)) := []

namespace StatesCall

def undecided (c : StatesCall) : List Nat := undecidedPorts c.mappings

def batches (c : StatesCall) : List (List String) := boundKeyBatches c.undecided (livePods c.pages)

def mget (c : StatesCall) (n : Nat) (_ : List String) : Except GoError (List (Option String)) :=
  match c.answers[n]? with
  | some values => .ok values
  | none => .error (.new "no reply yet")

def result (c : StatesCall) : Option (GoMap Nat PortState) :=
  if c.undecided = [] ∨ c.scanned = true then
    match (BindingTracker.redis (.ok c.pages) c.mget).states c.mappings with
    | .ok result => some result
    | .error _ => none
  else none

theorem result_eq_some {c : StatesCall} {result : GoMap Nat PortState} (h : c.result = some result) :
    (c.undecided = [] ∨ c.scanned = true) ∧
      (BindingTracker.redis (.ok c.pages) c.mget).states c.mappings = .ok result := by
  obtain ⟨hended, h⟩ := Option.ite_none_right_eq_some.mp h
  split at h
  · next result' hstates =>
    obtain rfl := Option.some.inj h
    exact ⟨hended, hstates⟩
  · cases h

theorem mget_eq_ok {c : StatesCall} {n : Nat} {keys : List String} {values : List (Option String)}
    (h : c.mget n keys = .ok values) : c.answers[n]? = some values := by
  unfold mget at h
  split at h
  · next values' hvalues =>
    obtain rfl := Except.ok.inj h
    exact hvalues
  · cases h

end StatesCall

/-- The cluster and a call of `states` that some replica makes; the call only reads. -/
structure Barrier where
  cluster : Cluster
  call : Option StatesCall := none

inductive BarrierLabel where
  | cluster (l : ClusterLabel)
  | states (mappings : GoMap Nat PortMapping)
  | scan (page : List String) (next : Nat)
  | mget
  | fail
  | ret

namespace Barrier

def livenessKeys (redis : RedisKeys) : List String :=
  redis.present.filter fun key => GoStrings.hasPrefix key controllerKeyPrefix

def returns (s : Barrier) : Option (GoMap Nat PortState) := s.call.bind StatesCall.result

def stepCall (redis : RedisKeys) (c : StatesCall) : BarrierLabel → Option StatesCall
  | .scan page next =>
    if c.undecided ≠ [] ∧ c.scanned = false ∧ (∀ key ∈ page, key ∈ livenessKeys redis) ∧
        (next = 0 → ∀ key ∈ c.stable, key ∈ c.pages.flatten ++ page) then
      some { c with pages := c.pages ++ [page], scanned := next = 0 }
    else none
  | .mget =>
    if c.scanned then
      (c.batches[c.answers.length]?).map fun keys =>
        { c with answers := c.answers ++ [keys.map redis.get] }
    else none
  | _ => none

def step (s : Barrier) : BarrierLabel → Option Barrier
  | .cluster l => (s.cluster.step l).map fun cluster =>
    ⟨cluster, s.call.map fun c =>
      { c with stable := c.stable.filter fun key => (cluster.redis.get key).isSome }⟩
  | .states mappings =>
    if s.call.isNone then
      some { s with call := some { mappings := mappings, stable := livenessKeys s.cluster.redis } }
    else none
  | .scan page next => (s.call.bind fun c => stepCall s.cluster.redis c (.scan page next)).map fun c =>
    { s with call := some c }
  | .mget => (s.call.bind fun c => stepCall s.cluster.redis c .mget).map fun c =>
    { s with call := some c }
  | .fail => if s.call.any fun c => c.undecided ≠ [] then some { s with call := none } else none
  | .ret => s.returns.map fun _ => { s with call := none }

def init : Barrier := { cluster := .init }

/-- The ports that the call decides are not allocated meanwhile, and no pod becomes live. -/
def Undisturbed (s : Barrier) (c : StatesCall) (l : ClusterLabel) : Prop :=
  (∀ port ∈ c.undecided, l.allocates ≠ some port) ∧
    ∀ t ∈ s.cluster.step l, ∀ key ∈ livenessKeys t.redis, key ∈ livenessKeys s.cluster.redis

def Calm (s : Barrier) : BarrierLabel → Prop
  | .cluster l => s.cluster.StillBound l ∧ ∀ c ∈ s.call, s.Undisturbed c l
  | .states _ | .scan _ _ | .mget | .fail | .ret => True

instance (s : Barrier) (l : BarrierLabel) : Decidable (Calm s l) :=
  match l with
  | .cluster l => inferInstanceAs (Decidable (s.cluster.StillBound l ∧ ∀ c ∈ s.call,
      (∀ port ∈ c.undecided, l.allocates ≠ some port) ∧
        ∀ t ∈ s.cluster.step l, ∀ key ∈ livenessKeys t.redis, key ∈ livenessKeys s.cluster.redis))
  | .states _ | .scan _ _ | .mget | .fail | .ret => inferInstanceAs (Decidable True)

theorem mem_livenessKeys {redis : RedisKeys} {addr : String} :
    controllerKey addr ∈ livenessKeys redis ↔ redis.get (controllerKey addr) ≠ none := by
  rw [livenessKeys, List.mem_filter, GoMap.mem_present]
  exact and_iff_left (GoStrings.hasPrefix_append _ _)

/-- What holds of a call: the SCAN cannot miss a live pod, and who was found bound still counts as bound. -/
structure CallInv (cluster : Cluster) (c : StatesCall) : Prop where
  live : ∀ addr, cluster.redis.get (controllerKey addr) ≠ none →
    controllerKey addr ∈ if c.scanned then c.pages.flatten else c.stable
  unasked : c.scanned = false → c.answers = []
  found : ∀ (n : Nat) keys values, c.batches[n]? = some keys → c.answers[n]? = some values →
    ∀ port ∈ c.undecided, ∀ addr value, (boundKey port addr, some value) ∈ keys.zip values →
      ∃ pod, cluster.pods.get addr = some pod ∧ pod.since port = true

structure Inv (s : Barrier) : Prop where
  cluster : s.cluster.Inv
  call : ∀ c, s.call = some c → CallInv s.cluster c

theorem init_inv : init.Inv := ⟨Cluster.init_inv, fun _ h => by cases h⟩

theorem callInv_start (cluster : Cluster) (mappings : GoMap Nat PortMapping) :
    CallInv cluster { mappings := mappings, stable := livenessKeys cluster.redis } where
  live := fun _ hlive => mem_livenessKeys.mpr hlive
  unasked := fun _ => rfl
  found := fun n keys values _ hn => by cases hn

theorem CallInv.cluster {s : Barrier} {c : StatesCall} {l : ClusterLabel} {t : Cluster}
    (hc : CallInv s.cluster c) (hi : s.cluster.Inv) (hok : s.Undisturbed c l)
    (h : s.cluster.step l = some t) :
    CallInv t { c with stable := c.stable.filter fun key => (t.redis.get key).isSome } where
  live := fun addr hlive => by
    have hbefore := hc.live addr (mem_livenessKeys.mp (hok.2 t h _ (mem_livenessKeys.mpr hlive)))
    show controllerKey addr ∈ if c.scanned then c.pages.flatten else c.stable.filter _
    split at hbefore
    · next hscanned => rwa [if_pos hscanned]
    · next hscanned =>
      rw [if_neg hscanned]
      exact List.mem_filter.mpr ⟨hbefore, Option.isSome_iff_ne_none.mpr hlive⟩
  unasked := hc.unasked
  found := fun n keys values hkeys hvalues port hport addr value hmem => by
    obtain ⟨pod, hpod, hsince⟩ := hc.found n keys values hkeys hvalues port hport addr value hmem
    -- only an allocation of the port could take that back
    refine Cluster.since_of_step hi h ?_ hpod hsince
    rintro m rfl
    exact hok.1 port hport rfl

theorem CallInv.scan {cluster : Cluster} {c : StatesCall} (hc : CallInv cluster c) {page : List String}
    {next : Nat} (hscanned : c.scanned = false)
    (hall : next = 0 → ∀ key ∈ c.stable, key ∈ c.pages.flatten ++ page) :
    CallInv cluster { c with pages := c.pages ++ [page], scanned := next = 0 } where
  live := fun addr hlive => by
    have hstable := hc.live addr hlive
    rw [hscanned] at hstable
    show controllerKey addr ∈ if (decide (next = 0)) = true then (c.pages ++ [page]).flatten else c.stable
    split
    · next hnext =>
      rw [List.flatten_append, List.flatten_singleton]
      exact hall (of_decide_eq_true hnext) _ hstable
    · exact hstable
  unasked := fun _ => hc.unasked hscanned
  found := fun n keys values _ hvalues => by
    -- no MGET is sent before the SCAN has ended
    change c.answers[n]? = some values at hvalues
    rw [hc.unasked hscanned] at hvalues
    cases hvalues

theorem CallInv.mget {cluster : Cluster} {c : StatesCall} (hc : CallInv cluster c) (hi : cluster.Inv)
    (hscanned : c.scanned = true) {keys : List String} (hkeys : c.batches[c.answers.length]? = some keys) :
    CallInv cluster { c with answers := c.answers ++ [keys.map cluster.redis.get] } where
  live := hc.live
  unasked := fun hnot => by
    change c.scanned = false at hnot
    rw [hscanned] at hnot
    cases hnot
  found := fun n keys' values hkeys' hvalues port hport addr value hmem => by
    rcases List.getElem?_of_concat hvalues with hold | ⟨rfl, rfl⟩
    · exact hc.found n keys' values hkeys' hold port hport addr value hmem
    · change c.batches[c.answers.length]? = some keys' at hkeys'
      rw [hkeys] at hkeys'
      obtain rfl := Option.some.inj hkeys'
      have hzip : keys.zip (keys.map cluster.redis.get) = keys.map fun k => (k, cluster.redis.get k) := by
        have hpairs := List.zip_map' (f := id) (g := cluster.redis.get) (l := keys)
        rwa [List.map_id] at hpairs
      rw [hzip] at hmem
      obtain ⟨key, -, heq⟩ := List.mem_map.mp hmem
      obtain ⟨rfl, hvalue⟩ := Prod.mk.inj heq
      refine hi.reported addr port ?_
      rw [hvalue]
      exact Option.some_ne_none _

theorem step_inv {s t : Barrier} {l : BarrierLabel} (hi : s.Inv) (hok : Calm s l)
    (h : s.step l = some t) : t.Inv := by
  cases l with
  | cluster l =>
    obtain ⟨cluster, hstep, rfl⟩ := Option.map_eq_some_iff.mp h
    refine ⟨Cluster.step_inv hi.cluster hok.1 hstep, fun c' hc' => ?_⟩
    obtain ⟨c, hc, rfl⟩ := Option.map_eq_some_iff.mp hc'
    exact (hi.call c hc).cluster hi.cluster (hok.2 c hc) hstep
  | states mappings =>
    obtain ⟨-, ⟨⟩⟩ := Option.ite_none_right_eq_some.mp h
    refine ⟨hi.cluster, ?_⟩
    rintro c ⟨⟩
    exact callInv_start s.cluster mappings
  | scan page next =>
    obtain ⟨c', hc', rfl⟩ := Option.map_eq_some_iff.mp h
    obtain ⟨c, hc, hscan⟩ := Option.bind_eq_some_iff.mp hc'
    obtain ⟨⟨-, hscanned, -, hall⟩, ⟨⟩⟩ := Option.ite_none_right_eq_some.mp hscan
    refine ⟨hi.cluster, ?_⟩
    rintro c' ⟨⟩
    exact (hi.call c hc).scan hscanned hall
  | mget =>
    obtain ⟨c', hc', rfl⟩ := Option.map_eq_some_iff.mp h
    obtain ⟨c, hc, hmget⟩ := Option.bind_eq_some_iff.mp hc'
    obtain ⟨hscanned, hmget⟩ := Option.ite_none_right_eq_some.mp hmget
    obtain ⟨keys, hkeys, rfl⟩ := Option.map_eq_some_iff.mp hmget
    refine ⟨hi.cluster, ?_⟩
    rintro c' ⟨⟩
    exact (hi.call c hc).mget hi.cluster hscanned hkeys
  | fail =>
    obtain ⟨-, ⟨⟩⟩ := Option.ite_none_right_eq_some.mp h
    exact ⟨hi.cluster, fun _ hc => by cases hc⟩
  | ret =>
    obtain ⟨-, -, rfl⟩ := Option.map_eq_some_iff.mp h
    exact ⟨hi.cluster, fun _ hc => by cases hc⟩

/-- When `states` returns, a port is active only if every pod that is live then has had it bound since it
was allocated. -/
theorem active_sound_of_run {ls : List BarrierLabel} {s : Barrier} (h : Lts.Run step Calm init ls s)
    {result : GoMap Nat PortState} (hreturns : s.returns = some result) {port : Nat}
    (hactive : result.get port = some .active) (addr : String)
    (hlive : s.cluster.redis.get (controllerKey addr) ≠ none) :
    ∃ pod, s.cluster.pods.get addr = some pod ∧ pod.since port = true := by
  have hi : s.Inv := h.invariant (fun _ _ _ hi hok hs => step_inv hi hok hs) init_inv
  obtain ⟨c, hc, hresult⟩ := Option.bind_eq_some_iff.mp hreturns
  have hcall := hi.call c hc
  obtain ⟨hended, hstates⟩ := StatesCall.result_eq_some hresult
  obtain ⟨hport, hfound⟩ := states_active_found hstates hactive
  have hscanned : c.scanned = true := hended.resolve_left (List.ne_nil_of_mem hport)
  -- the pod has been live all along, so that the SCAN returned it
  have hkey := hcall.live addr hlive
  rw [if_pos hscanned] at hkey
  obtain ⟨n, keys, values, value, hkeys, hmget, hmem⟩ := hfound addr (mem_livePods_of_key hkey)
  have hvalues := StatesCall.mget_eq_ok hmget
  exact hcall.found n keys values hkeys hvalues port hport addr value hmem

def exposed : PortMapping := { agentId := "a", target := "10.0.0.2:80" }

def smooth (activeOrder desiredOrder : List Nat) : ReconcilePlan :=
  ⟨fun _ => none, fun _ => none, activeOrder, desiredOrder⟩

def bindAndReport : List BarrierLabel :=
  [.cluster (.join "pod-1"), .cluster (.allocate 8000 exposed),
    .cluster (.pod "pod-1" (.readBatch [8000])), .cluster (.pod "pod-1" (.reconcile (smooth [] [8000]))),
    .cluster (.pod "pod-1" .report), .cluster (.pod "pod-1" .set), .cluster (.pod "pod-1" .set)]

def askStates : List BarrierLabel :=
  [.states (GoMap.empty.insert 8000 exposed), .scan [controllerKey "pod-1"] 0, .mget]

def verdict (s : Barrier) : Option PortState := s.returns.bind fun result => result.get 8000

/-- The report is refreshed while the call is under way. -/
theorem active_sound_of_run_bindAndReport : ∃ s ls,
    Lts.Run step Calm init (bindAndReport ++ ls) s ∧ verdict s = some .active ∧
      ∃ pod, s.cluster.pods.get "pod-1" = some pod ∧ pod.since 8000 = true := by
  let ls : List BarrierLabel :=
    [.states (GoMap.empty.insert 8000 exposed), .cluster (.pod "pod-1" .readFail),
      .scan [controllerKey "pod-1"] 0, .cluster (.pod "pod-1" .report), .cluster (.pod "pod-1" .set), .mget]
  let s := (Lts.execOk step Calm init (bindAndReport ++ ls)).get (by decide +kernel)
  have hrun := Lts.run_of_execOk (t := s) (Option.some_get _).symm
  have hverdict : verdict s = some .active := by decide +kernel
  have hlive : s.cluster.redis.get (controllerKey "pod-1") ≠ none := by decide +kernel
  obtain ⟨result, hreturns, hactive⟩ := Option.bind_eq_some_iff.mp hverdict
  exact ⟨s, ls, hrun, hverdict, active_sound_of_run hrun hreturns hactive "pod-1" hlive⟩

/-- The port is released, the pod closes its listener, and the port is allocated again before the
old report has expired: it is active at once, without a listener. -/
theorem active_before_bound : ∃ s pod,
    Lts.AnyRun step init (bindAndReport ++ [.cluster (.release 8000),
      .cluster (.pod "pod-1" (.readBatch [])), .cluster (.pod "pod-1" (.reconcile (smooth [8000] []))),
      .cluster (.pod "pod-1" .report), .cluster (.pod "pod-1" .set),
      .cluster (.allocate 8000 exposed)] ++ askStates) s ∧
      verdict s = some .active ∧ s.cluster.redis.get (controllerKey "pod-1") ≠ none ∧
      s.cluster.pods.get "pod-1" = some pod ∧ pod.since 8000 = false ∧ pod.bound 8000 = false := by
  let s := (Lts.exec step init (bindAndReport ++ [.cluster (.release 8000),
    .cluster (.pod "pod-1" (.readBatch [])), .cluster (.pod "pod-1" (.reconcile (smooth [8000] []))),
    .cluster (.pod "pod-1" .report), .cluster (.pod "pod-1" .set),
    .cluster (.allocate 8000 exposed)] ++ askStates)).get (by decide +kernel)
  let pod := (s.cluster.pods.get "pod-1").get (by decide +kernel)
  exact ⟨s, pod, Lts.anyRun_of_exec (Option.some_get _).symm, by decide +kernel,
    by decide +kernel, (Option.some_get _).symm, by decide +kernel, by decide +kernel⟩

end Barrier
end Hostlink.Controller
