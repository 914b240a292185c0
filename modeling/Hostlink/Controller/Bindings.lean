import Mathlib.Data.List.Dedup
import Hostlink.Lib.GoStrings
import Hostlink.Controller.Ports

/-! The activation barrier: how `bindingTracker.states` folds the pods' reports in Redis into a
verdict per port. -/

namespace Hostlink.Controller

def boundKeyPrefix : String := "hostlink:bound:"
def controllerKeyPrefix : String := "hostlink:controller:"

inductive PortState where
  | pending
  | active
  | suspended
  deriving DecidableEq, Repr

def boundKey (port : Nat) (podAddr : String) : String :=
  boundKeyPrefix ++ Strconv.formatUint port ++ ":" ++ podAddr

def controllerKey (podAddr : String) : String := controllerKeyPrefix ++ podAddr

/-- Where the tracker looks: nowhere (nil), at the ports bound locally (no Redis), or at the pages
of its SCAN and the answers to its MGETs, by their number and keys. -/
inductive BindingTracker where
  | absent
  | localOnly (bound : List Nat)
  | redis (scan : Except GoError (List (List String)))
      (mget : Nat → List String → Except GoError (List (Option String)))

def livePods (pages : List (List String)) : List String :=
  pages.flatten.map fun key => GoStrings.trimPrefix key controllerKeyPrefix

def recordBatch (bound : GoMap String Bool) (keys : List String) (values : List (Option String)) :
    GoMap String Bool :=
  (keys.zip values).foldl (fun bound kv => bound.insert kv.1 kv.2.isSome) bound

/-- The loop over the MGETs; `n` of them are answered. -/
def boundBatches (mget : Nat → List String → Except GoError (List (Option String))) :
    List (List String) → Nat → GoMap String Bool → Except GoError (GoMap String Bool)
  | [], _, bound => .ok bound
  | keys :: batches, n, bound =>
    match mget n keys with
    | .error err => .error (.wrap "fetch bound port keys from redis" err)
    | .ok values => boundBatches mget batches (n + 1) (recordBatch bound keys values)

def boundKeyBatches (ports : List Nat) (pods : List String) : List (List String) :=
  let keys := ports.flatMap fun port => pods.map (boundKey port)
  keys.batches portScanBatchSize keys.length

def boundSet (mget : Nat → List String → Except GoError (List (Option String))) (ports : List Nat)
    (pods : List String) : Except GoError (GoMap String Bool) :=
  boundBatches mget (boundKeyBatches ports pods) 0 .empty

def markActive (active : Nat → Bool) (undecided : List Nat) (result : GoMap Nat PortState) :
    GoMap Nat PortState :=
  undecided.foldl (fun result port => if active port then result.insert port .active else result)
    result

def resolveRedisStates (scan : Except GoError (List (List String)))
    (mget : Nat → List String → Except GoError (List (Option String))) (undecided : List Nat)
    (result : GoMap Nat PortState) : Except GoError (GoMap Nat PortState) :=
  match scan with
  | .error err => .error (.wrap "scan live controllers in redis" err)
  | .ok pages =>
    let pods := livePods pages
    if pods = [] then .ok result
    else match boundSet mget undecided pods with
      | .error err => .error err
      | .ok bound => .ok (markActive
          (fun port => pods.all fun pod => (bound.get (boundKey port pod)).getD false)
          undecided result)

def BindingTracker.states (t : BindingTracker) (mappings : GoMap Nat PortMapping) :
    Except GoError (GoMap Nat PortState) :=
  let result := mappings.filterMap fun _ m =>
    some (if m.suspended then PortState.suspended else .pending)
  let undecided := mappings.keys.dedup.filter fun port =>
    (mappings.get port).any fun m => !m.suspended
  if undecided = [] then .ok result
  else match t with
    | .absent => .ok result
    | .localOnly bound => .ok (markActive (fun port => bound.contains port) undecided result)
    | .redis scan mget => resolveRedisStates scan mget undecided result

/-! ### What the verdict rests on -/

theorem boundKey_inj {p q : Nat} {a b : String} : boundKey p a = boundKey q b ↔ p = q ∧ a = b := by
  constructor
  · intro h
    have hl := congrArg String.toList h
    simp only [boundKey, String.toList_append, List.append_assoc, List.append_cancel_left_eq,
      show (":" : String).toList = [':'] from rfl, List.singleton_append] at hl
    obtain ⟨hpq, hab⟩ := GoStrings.formatUint_append_inj rfl hl
    exact ⟨hpq, String.toList_inj.mp hab⟩
  · rintro ⟨rfl, rfl⟩
    rfl

theorem boundKey_ne_controllerKey (p : Nat) (a b : String) : boundKey p a ≠ controllerKey b := by
  intro h
  have hl := congrArg (fun s => s.toList[9]?) h
  simp [boundKey, controllerKey, boundKeyPrefix, controllerKeyPrefix] at hl

theorem boundKey_ne_portKey (p q : Nat) (a : String) : boundKey p a ≠ portKey q := by
  intro h
  have hl := congrArg (fun s => s.toList[9]?) h
  simp [boundKey, portKey, boundKeyPrefix, portKeyPrefix] at hl

theorem get_markActive (active : Nat → Bool) (undecided : List Nat) (result : GoMap Nat PortState)
    (port : Nat) : (markActive active undecided result).get port =
      if port ∈ undecided ∧ active port = true then some .active else result.get port := by
  induction undecided generalizing result with
  | nil => simp [markActive]
  | cons q undecided ih =>
    have hcons : markActive active (q :: undecided) result =
        markActive active undecided (if active q then result.insert q .active else result) := rfl
    rw [hcons, ih]
    by_cases hmem : port ∈ undecided ∧ active port = true
    · rw [if_pos hmem, if_pos ⟨List.mem_cons_of_mem _ hmem.1, hmem.2⟩]
    · rw [if_neg hmem]
      rcases eq_or_ne port q with rfl | hne
      · cases hactive : active port <;> simp
      · have hrest : (if active q then result.insert q .active else result).get port =
            result.get port := by
          split
          · exact GoMap.get_insert_of_ne _ hne _
          · rfl
        rw [hrest, if_neg]
        rintro ⟨hport, hactive⟩
        exact hmem ⟨(List.mem_cons.mp hport).resolve_left hne, hactive⟩

/-- MGET on a database that does not change. -/
def mgetOf (store : RedisKeys) (_ : Nat) (keys : List String) : Except GoError (List (Option String)) :=
  .ok (keys.map store.get)

section Fixed
variable {store : RedisKeys}

theorem get_recordBatch (keys : List String) (bound : GoMap String Bool) (key : String) :
    (recordBatch bound keys (keys.map store.get)).get key =
      if key ∈ keys then some (store.get key).isSome else bound.get key := by
  induction keys generalizing bound with
  | nil => simp [recordBatch]
  | cons k keys ih =>
    have hcons : recordBatch bound (k :: keys) ((k :: keys).map store.get) =
        recordBatch (bound.insert k (store.get k).isSome) keys (keys.map store.get) := rfl
    rw [hcons, ih]
    by_cases hmem : key ∈ keys
    · rw [if_pos hmem, if_pos (List.mem_cons_of_mem _ hmem)]
    · rw [if_neg hmem]
      rcases eq_or_ne key k with rfl | hne
      · rw [if_pos List.mem_cons_self, GoMap.get_insert_self]
      · rw [GoMap.get_insert_of_ne _ hne, if_neg fun hkey => hmem ((List.mem_cons.mp hkey).resolve_left hne)]

theorem boundBatches_spec (store : RedisKeys) (batches : List (List String)) (n : Nat)
    (bound : GoMap String Bool) :
    ∃ bound', boundBatches (mgetOf store) batches n bound = .ok bound' ∧ ∀ key, bound'.get key =
      if key ∈ batches.flatten then some (store.get key).isSome else bound.get key := by
  induction batches generalizing n bound with
  | nil => exact ⟨bound, rfl, by simp⟩
  | cons keys batches ih =>
    obtain ⟨bound', hbound', hget⟩ := ih (n + 1) (recordBatch bound keys (keys.map store.get))
    refine ⟨bound', hbound', fun key => ?_⟩
    rw [hget, get_recordBatch, List.flatten_cons]
    by_cases hrest : key ∈ batches.flatten <;> by_cases hfirst : key ∈ keys <;> simp [hrest, hfirst]

theorem boundSet_spec (store : RedisKeys) (ports : List Nat) (pods : List String) :
    ∃ bound, boundSet (mgetOf store) ports pods = .ok bound ∧ ∀ port ∈ ports, ∀ pod ∈ pods,
      bound.get (boundKey port pod) = some (store.get (boundKey port pod)).isSome := by
  obtain ⟨bound, hbound, hget⟩ := boundBatches_spec store (boundKeyBatches ports pods) 0 .empty
  refine ⟨bound, hbound, fun port hport pod hpod => ?_⟩
  rw [hget, boundKeyBatches, List.flatten_batches (by decide) (Nat.le_refl _), if_pos]
  exact List.mem_flatMap.mpr ⟨port, hport, List.mem_map.mpr ⟨pod, hpod, rfl⟩⟩

theorem mem_livePods_of_key {pages : List (List String)} {pod : String}
    (h : controllerKey pod ∈ pages.flatten) : pod ∈ livePods pages :=
  List.mem_map.mpr ⟨controllerKey pod, h, GoStrings.trimPrefix_append _ _⟩

theorem mem_livePods {pages : List (List String)} {pod : String}
    (h : Redis.Scanned store.get controllerKeyPrefix pages) :
    pod ∈ livePods pages ↔ store.get (controllerKey pod) ≠ none := by
  constructor
  · intro hpod
    obtain ⟨key, hkey, rfl⟩ := List.mem_map.mp hpod
    obtain ⟨hstart, hne⟩ := (h key).mp hkey
    rw [controllerKey, GoStrings.append_trimPrefix hstart]
    exact hne
  · intro hpod
    exact mem_livePods_of_key ((h (controllerKey pod)).mpr ⟨GoStrings.hasPrefix_append _ _, hpod⟩)

def AllBound (store : RedisKeys) (port : Nat) : Prop :=
  (∃ pod, store.get (controllerKey pod) ≠ none) ∧
    ∀ pod, store.get (controllerKey pod) ≠ none → store.get (boundKey port pod) ≠ none

end Fixed

structure Verdict (mappings : GoMap Nat PortMapping) (Active : Nat → Prop)
    (result : GoMap Nat PortState) : Prop where
  domain : ∀ port, result.get port = none ↔ mappings.get port = none
  suspended : ∀ port m, mappings.get port = some m →
    (result.get port = some .suspended ↔ m.suspended = true)
  active : ∀ port m, mappings.get port = some m → m.suspended = false →
    (result.get port = some .active ↔ Active port)
  pending : ∀ port m, mappings.get port = some m → m.suspended = false →
    (result.get port = some .pending ↔ ¬ Active port)

section Verdict
variable (mappings : GoMap Nat PortMapping)

def undecidedPorts : List Nat :=
  mappings.keys.dedup.filter fun port => (mappings.get port).any fun m => !m.suspended

def firstStates : GoMap Nat PortState :=
  mappings.filterMap fun _ m => some (if m.suspended then PortState.suspended else .pending)

variable {mappings}

theorem mem_undecidedPorts {port : Nat} : port ∈ undecidedPorts mappings ↔
    ∃ m, mappings.get port = some m ∧ m.suspended = false := by
  rw [undecidedPorts, List.mem_filter, List.mem_dedup, Option.any_eq_true]
  constructor
  · rintro ⟨-, m, hm, hsuspended⟩
    exact ⟨m, hm, by simpa using hsuspended⟩
  · rintro ⟨m, hm, hsuspended⟩
    exact ⟨mappings.covers port (by rw [hm]; exact Option.some_ne_none _), m, hm, by simpa using hsuspended⟩

theorem get_markActive_firstStates (active : Nat → Bool) (port : Nat) :
    (markActive active (undecidedPorts mappings) (firstStates mappings)).get port =
      (mappings.get port).map fun m =>
        if m.suspended then .suspended else if active port then .active else .pending := by
  have hfirst : (firstStates mappings).get port =
      (mappings.get port).map fun m => if m.suspended then .suspended else .pending := by
    rw [firstStates, GoMap.get_filterMap]
    cases mappings.get port <;> rfl
  rw [get_markActive, hfirst]
  by_cases hmem : port ∈ undecidedPorts mappings
  · obtain ⟨m, hm, hsuspended⟩ := mem_undecidedPorts.mp hmem
    cases active port <;> simp [hm, hmem, hsuspended]
  · rw [if_neg fun hn => hmem hn.1]
    cases hm : mappings.get port with
    | none => rfl
    | some m =>
      have hsuspended : m.suspended = true := by
        by_contra hn
        exact hmem (mem_undecidedPorts.mpr ⟨m, hm, by simpa using hn⟩)
      simp [hsuspended]

theorem verdict_markActive {active : Nat → Bool} {Active : Nat → Prop}
    (h : ∀ port ∈ undecidedPorts mappings, active port = true ↔ Active port) :
    Verdict mappings Active (markActive active (undecidedPorts mappings) (firstStates mappings)) := by
  have hactive : ∀ port m, mappings.get port = some m → m.suspended = false →
      (active port = true ↔ Active port) :=
    fun port m hm hsuspended => h port (mem_undecidedPorts.mpr ⟨m, hm, hsuspended⟩)
  refine ⟨fun port => ?_, fun port m hm => ?_, fun port m hm hsuspended => ?_,
    fun port m hm hsuspended => ?_⟩
  · rw [get_markActive_firstStates, Option.map_eq_none_iff]
  · rw [get_markActive_firstStates, hm]
    cases hsuspended : m.suspended <;> cases active port <;> simp [hsuspended]
  · rw [get_markActive_firstStates, hm, ← hactive port m hm hsuspended]
    cases active port <;> simp [hsuspended]
  · rw [get_markActive_firstStates, hm, ← hactive port m hm hsuspended]
    cases active port <;> simp [hsuspended]

theorem verdict_firstStates {Active : Nat → Prop}
    (h : ∀ port ∈ undecidedPorts mappings, ¬ Active port) :
    Verdict mappings Active (firstStates mappings) := by
  have hmark : ∀ l result, markActive (fun _ => false) l result = result := by
    intro l result
    induction l with
    | nil => rfl
    | cons port l ih => exact ih
  have hnone : ∀ port ∈ undecidedPorts mappings, (fun _ => false) port = true ↔ Active port :=
    fun port hport => iff_of_false Bool.false_ne_true (h port hport)
  have hverdict := verdict_markActive hnone
  rwa [hmark] at hverdict

theorem localOnly_verdict (mappings : GoMap Nat PortMapping) (bound : List Nat) :
    ∃ result, (BindingTracker.localOnly bound).states mappings = .ok result ∧
      Verdict mappings (· ∈ bound) result := by
  by_cases hnone : undecidedPorts mappings = []
  · refine ⟨firstStates mappings, if_pos hnone, verdict_firstStates fun port hport => ?_⟩
    rw [hnone] at hport
    exact absurd hport List.not_mem_nil
  · exact ⟨_, if_neg hnone, verdict_markActive fun port _ => List.contains_iff_mem⟩

theorem redis_states (pages : List (List String))
    (mget : Nat → List String → Except GoError (List (Option String))) :
    (BindingTracker.redis (.ok pages) mget).states mappings =
      if undecidedPorts mappings = [] ∨ livePods pages = [] then .ok (firstStates mappings)
      else match boundSet mget (undecidedPorts mappings) (livePods pages) with
        | .error err => .error err
        | .ok bound => .ok (markActive
            (fun port => (livePods pages).all fun pod => (bound.get (boundKey port pod)).getD false)
            (undecidedPorts mappings) (firstStates mappings)) := by
  by_cases hnone : undecidedPorts mappings = []
  · rw [if_pos (.inl hnone)]
    exact if_pos hnone
  · refine (if_neg hnone).trans ?_
    by_cases hpods : livePods pages = []
    · rw [if_pos (.inr hpods)]
      exact if_pos hpods
    · rw [if_neg (not_or.mpr ⟨hnone, hpods⟩)]
      exact if_neg hpods

theorem redis_verdict (mappings : GoMap Nat PortMapping) {store : RedisKeys}
    {pages : List (List String)} (h : Redis.Scanned store.get controllerKeyPrefix pages) :
    ∃ result, (BindingTracker.redis (.ok pages) (mgetOf store)).states mappings = .ok result ∧
      Verdict mappings (AllBound store) result := by
  rw [redis_states]
  split
  · next hnone =>
    refine ⟨_, rfl, verdict_firstStates fun port hport hall => ?_⟩
    rcases hnone with hnone | hpods
    · rw [hnone] at hport
      exact absurd hport List.not_mem_nil
    · obtain ⟨pod, hlive⟩ := hall.1
      rw [← mem_livePods h, hpods] at hlive
      exact absurd hlive List.not_mem_nil
  · next hsome =>
    obtain ⟨bound, hbound, hget⟩ := boundSet_spec store (undecidedPorts mappings) (livePods pages)
    rw [hbound]
    refine ⟨_, rfl, verdict_markActive fun port hport => ?_⟩
    obtain ⟨live, hlive⟩ := List.exists_mem_of_ne_nil _ (not_or.mp hsome).2
    rw [List.all_eq_true]
    constructor
    · intro hall
      refine ⟨⟨live, (mem_livePods h).mp hlive⟩, fun pod hpod => ?_⟩
      have hkey := hall pod ((mem_livePods h).mpr hpod)
      rw [hget port hport pod ((mem_livePods h).mpr hpod)] at hkey
      exact Option.isSome_iff_ne_none.mp hkey
    · rintro ⟨-, hall⟩ pod hpod
      rw [hget port hport pod hpod]
      exact Option.isSome_iff_ne_none.mpr (hall pod ((mem_livePods h).mp hpod))

theorem Verdict.of_active {Active : Nat → Prop} {result : GoMap Nat PortState} {port : Nat}
    (h : Verdict mappings Active result) (hactive : result.get port = some .active) :
    port ∈ undecidedPorts mappings ∧ Active port := by
  cases hm : mappings.get port with
  | none =>
    rw [(h.domain port).mpr hm] at hactive
    cases hactive
  | some m =>
    cases hsuspended : m.suspended with
    | false =>
      exact ⟨mem_undecidedPorts.mpr ⟨m, hm, hsuspended⟩, (h.active port m hm hsuspended).mp hactive⟩
    | true =>
      rw [(h.suspended port m hm).mpr hsuspended] at hactive
      cases hactive

/-! ### What an active port rests on, whatever the commands return -/

section Answers
variable {mget : Nat → List String → Except GoError (List (Option String))}

theorem recordBatch_found {keys : List String} {values : List (Option String)}
    {bound : GoMap String Bool} {key : String}
    (h : (recordBatch bound keys values).get key = some true) :
    bound.get key = some true ∨ ∃ value, (key, some value) ∈ keys.zip values := by
  unfold recordBatch at h
  generalize keys.zip values = pairs at h ⊢
  induction pairs generalizing bound with
  | nil => exact .inl h
  | cons kv pairs ih =>
    rcases ih h with hbound | ⟨value, hmem⟩
    · by_cases hkey : key = kv.1
      · subst hkey
        rw [GoMap.get_insert_self] at hbound
        obtain ⟨value, hvalue⟩ := Option.isSome_iff_exists.mp (Option.some.inj hbound)
        refine .inr ⟨value, ?_⟩
        rw [← hvalue]
        exact List.mem_cons_self
      · rw [GoMap.get_insert_of_ne _ hkey] at hbound
        exact .inl hbound
    · exact .inr ⟨value, List.mem_cons_of_mem _ hmem⟩

theorem boundBatches_found {batches : List (List String)} {n : Nat} {bound bound' : GoMap String Bool}
    {key : String} (h : boundBatches mget batches n bound = .ok bound')
    (hkey : bound'.get key = some true) : bound.get key = some true ∨
      ∃ (i : Nat) (keys : List String) (values : List (Option String)) (value : String),
        batches[i]? = some keys ∧ mget (n + i) keys = .ok values ∧ (key, some value) ∈ keys.zip values := by
  induction batches generalizing n bound with
  | nil =>
    obtain rfl := Except.ok.inj h
    exact .inl hkey
  | cons keys batches ih =>
    rw [boundBatches] at h
    cases hmget : mget n keys with
    | error err =>
      rw [hmget] at h
      cases h
    | ok values =>
      rw [hmget] at h
      rcases ih h with hbound | ⟨i, keys', values', value, hi, hanswer, hmem⟩
      · rcases recordBatch_found hbound with hbound | ⟨value, hmem⟩
        · exact .inl hbound
        · exact .inr ⟨0, keys, values, value, rfl, hmget, hmem⟩
      · refine .inr ⟨i + 1, keys', values', value, hi, ?_, hmem⟩
        rwa [Nat.add_comm i 1, ← Nat.add_assoc]

/-- For every pod of the SCAN an MGET found the bound key. -/
theorem states_active_found {pages : List (List String)} {result : GoMap Nat PortState} {port : Nat}
    (h : (BindingTracker.redis (.ok pages) mget).states mappings = .ok result)
    (hactive : result.get port = some .active) :
    port ∈ undecidedPorts mappings ∧ ∀ pod ∈ livePods pages,
      ∃ (i : Nat) (keys : List String) (values : List (Option String)) (value : String),
        (boundKeyBatches (undecidedPorts mappings) (livePods pages))[i]? = some keys ∧
        mget i keys = .ok values ∧ (boundKey port pod, some value) ∈ keys.zip values := by
  rw [redis_states] at h
  split at h
  · -- nothing is active without an MGET
    obtain rfl := Except.ok.inj h
    have hnone : Verdict mappings (fun _ => False) (firstStates mappings) :=
      verdict_firstStates fun _ _ => id
    exact (hnone.of_active hactive).2.elim
  · split at h
    · cases h
    · next bound hbound =>
      obtain rfl := Except.ok.inj h
      obtain ⟨hport, hall⟩ := (verdict_markActive fun _ _ => Iff.rfl).of_active hactive
      refine ⟨hport, fun pod hpod => ?_⟩
      have hkey : bound.get (boundKey port pod) = some true := by
        have hget := List.all_eq_true.mp hall pod hpod
        cases hvalue : bound.get (boundKey port pod) with
        | none =>
          rw [hvalue] at hget
          cases hget
        | some value =>
          rw [hvalue] at hget
          exact congrArg some hget
      rcases boundBatches_found hbound hkey with hempty | ⟨i, keys, values, value, hi, hmget, hmem⟩
      · cases hempty
      · rw [Nat.zero_add] at hmget
        exact ⟨i, keys, values, value, hi, hmget, hmem⟩

end Answers

/-- The barrier: one verdict per mapping, from the content of Redis or from the local listeners. -/
theorem barrier_verdict (mappings : GoMap Nat PortMapping) :
    (∀ store pages, Redis.Scanned store.get controllerKeyPrefix pages →
      ∃ result, (BindingTracker.redis (.ok pages) (mgetOf store)).states mappings = .ok result ∧
        Verdict mappings (AllBound store) result) ∧
    ∀ bound, ∃ result, (BindingTracker.localOnly bound).states mappings = .ok result ∧
      Verdict mappings (· ∈ bound) result :=
  ⟨fun _ _ => redis_verdict mappings, localOnly_verdict mappings⟩

def twoPods : RedisKeys :=
  ((((GoMap.empty.insert (controllerKey "pod-1") "1").insert (controllerKey "pod-2") "1").insert
    (boundKey 8000 "pod-1") "1").insert (boundKey 8000 "pod-2") "1").insert (boundKey 8001 "pod-1") "1"

def threeMappings : GoMap Nat PortMapping :=
  ((GoMap.empty.insert 8000 { agentId := "a", target := "10.0.0.2:80" }).insert 8001
    { agentId := "a", target := "10.0.0.2:81" }).insert 8002
    { agentId := "a", target := "10.0.0.2:82", suspended := true }

/-- The SCAN returns a key twice and an empty page. -/
theorem barrier_verdict_two_pods : ∃ result,
    (BindingTracker.redis (.ok [[controllerKey "pod-2"], [], [controllerKey "pod-1",
      controllerKey "pod-2"]]) (mgetOf twoPods)).states threeMappings = .ok result ∧
    Verdict threeMappings (AllBound twoPods) result ∧ result.get 8002 = some .suspended ∧
    result.get 8001 = some .pending := by
  obtain ⟨result, hstates, hverdict⟩ := (barrier_verdict threeMappings).1 twoPods
    [[controllerKey "pod-2"], [], [controllerKey "pod-1", controllerKey "pod-2"]] (by decide +kernel)
  refine ⟨result, hstates, hverdict, (hverdict.suspended 8002 _ rfl).mpr rfl,
    (hverdict.pending 8001 _ rfl rfl).mpr fun hall => hall.2 "pod-2" ?_ ?_⟩
  · decide +kernel
  · decide +kernel

end Verdict
end Hostlink.Controller
