import Hostlink.Controller.PortJson
import Hostlink.Controller.PortStores

/-! The two port stores agree. -/

namespace Hostlink.Controller
open Prog

theorem portFromKey_portKey {port : Nat} (hpos : 0 < port) (hle : port ≤ maximumPublicPort) :
    portFromKey (portKey port) = .ok port := by
  have hlt : port < 1 <<< 16 := Nat.lt_of_le_of_lt hle (by decide)
  rw [portFromKey, portKey, if_pos (GoStrings.hasPrefix_append _ _), GoStrings.trimPrefix_append,
    Strconv.parseUint_formatUint hlt]
  cases port with
  | zero => cases hpos
  | succ port => rfl

/-! ### `allocate` -/

theorem lowestFree_cons {mappings : GoMap Nat PortMapping} {lo hi : Nat} (h : lo ≤ hi) :
    lowestFree mappings lo hi =
      if (mappings.get lo).isNone then .ok lo else lowestFree mappings (lo + 1) hi := by
  have hlen : hi + 1 - lo = hi + 1 - (lo + 1) + 1 := by omega
  rw [lowestFree, hlen, List.range'_succ, List.find?_cons, lowestFree]
  cases (mappings.get lo).isNone <;> rfl

theorem lowestFree_empty {mappings : GoMap Nat PortMapping} {lo hi : Nat} (h : hi < lo) :
    lowestFree mappings lo hi = .error errPortRangeExhausted := by
  have hlen : hi + 1 - lo = 0 := by omega
  rw [lowestFree, hlen]
  rfl

theorem MemPortStore.firstFree_eq (s : MemPortStore) {hi fuel port : Nat} (hle : port ≤ hi)
    (hfuel : hi + 1 - port ≤ fuel) : s.firstFree hi fuel port = lowestFree s.mappings port hi := by
  induction fuel generalizing port with
  | zero => omega
  | succ fuel ih =>
    rw [firstFree, lowestFree_cons hle]
    split
    · rfl
    · split
      · next heq => exact (lowestFree_empty (by omega)).symm
      · exact ih (by omega) (by omega)

namespace RedisPortStore

theorem changed_eval {β : Type} (f : Unit → M β) (s : Redis.Server) :
    (changed >>= f).eval Redis.Server.exec s = (f ()).eval Redis.Server.exec s := rfl

def claimed (s : Redis.Server) (port : Nat) (value : String) : Redis.Server :=
  { s with store := Function.update s.store (portKey port) (some value) }

theorem setNX_free {s : Redis.Server} {key value : String} (h : s.store key = none) :
    s.exec (.setNX key value) =
      (.ok true, { s with store := Function.update s.store key (some value) }) := by
  simp [Redis.Server.exec, Redis.exec, h]

theorem claimCandidates_eval (value : String) (start : Nat) (s : Redis.Server) (n index : Nat) :
    (claimCandidates value start index
      ((List.range' (start + index) n).map fun port => s.store (portKey port))).eval
        Redis.Server.exec s =
      match (List.range' (start + index) n).find? fun port => (s.store (portKey port)).isNone with
      | some port => (some (.ok port), claimed s port value)
      | none => (none, s) := by
  induction n generalizing index with
  | zero => rfl
  | succ n ih =>
    rw [List.range'_succ, List.map_cons, List.find?_cons]
    cases hstore : s.store (portKey (start + index)) with
    | some v =>
      rw [claimCandidates]
      exact ih (index + 1)
    | none =>
      rw [claimCandidates, eval_perform, setNX_free hstore]
      rfl

theorem find?_batch {start n hi : Nat} (h : start + n ≤ hi + 1) (p : Nat → Bool) :
    (List.range' start (hi + 1 - start)).find? p =
      ((List.range' start n).find? p).or ((List.range' (start + n) (hi + 1 - (start + n))).find? p) := by
  have hlen : hi + 1 - start = n + (hi + 1 - (start + n)) := by omega
  rw [hlen, ← List.range'_append_1, List.find?_append]

theorem scanPorts_eval (value : String) (s : Redis.Server) {hi fuel start : Nat} (hle : start ≤ hi)
    (hfuel : hi + 1 - start ≤ fuel) :
    (scanPorts value hi fuel start).eval Redis.Server.exec s =
      match (List.range' start (hi + 1 - start)).find? fun port =>
        (s.store (portKey port)).isNone with
      | some port => (.ok port, claimed s port value)
      | none => (.error errPortRangeExhausted, s) := by
  induction fuel generalizing start with
  | zero => omega
  | succ fuel ih =>
    let last := min (start + portScanBatchSize - 1) hi
    have hlast : start ≤ last ∧ last ≤ hi := by
      have : portScanBatchSize = 100 := rfl
      omega
    have hmget : s.exec (.mget ((List.range' start (last - start + 1)).map portKey)) =
        (.ok ((List.range' start (last - start + 1)).map fun port => s.store (portKey port)), s) := by
      rw [show (fun port => s.store (portKey port)) = s.store ∘ portKey from rfl, ← List.map_map]
      rfl
    rw [scanPorts, if_pos hle, eval_perform, hmget, find?_batch (n := last - start + 1) (by omega)]
    dsimp only
    rw [eval_bind]
    have hclaim := claimCandidates_eval value start s (last - start + 1) 0
    rw [Nat.add_zero] at hclaim
    rw [hclaim]
    cases (List.range' start (last - start + 1)).find? fun port =>
        (s.store (portKey port)).isNone with
    | some port => rfl
    | none =>
      rw [Option.none_or]
      dsimp only
      split
      · next heq =>
        have hrest : hi + 1 - (start + (last - start + 1)) = 0 := by omega
        rw [hrest]
        rfl
      · next hne =>
        have hnext : start + (last - start + 1) = last + 1 := by omega
        rw [hnext]
        exact ih (by omega) (by omega)

/-! ### Single keys -/

theorem release_eval (s : Redis.Store) (pages : List Redis.Oracle) (port : Nat) :
    (release port).eval Redis.Server.exec ⟨s, pages⟩ =
      (.ok (), ⟨Function.update s (portKey port) none, pages⟩) := by
  have hdel : (⟨s, pages⟩ : Redis.Server).exec (.del (portKey port)) =
      (.ok (if (s (portKey port)).isSome then 1 else 0),
        ⟨Function.update s (portKey port) none, pages⟩) := rfl
  rw [release, eval_perform, hdel]
  cases (s (portKey port)).isSome <;> rfl

theorem lookup_eval (unmarshal : String → Except GoError PortMapping) (s : Redis.Store)
    (pages : List Redis.Oracle) (port : Nat) :
    (lookup unmarshal port).eval Redis.Server.exec ⟨s, pages⟩ =
      (match s (portKey port) with
        | none => .error errPortNotFound
        | some value => decodePortMapping unmarshal value, ⟨s, pages⟩) := by
  have hget : (⟨s, pages⟩ : Redis.Server).exec (.get (portKey port)) =
      (.ok (s (portKey port)), ⟨s, pages⟩) := rfl
  rw [lookup, eval_perform, hget]
  cases s (portKey port) <;> rfl

theorem update_eval (s : Redis.Store) (pages : List Redis.Oracle) (port : Nat)
    (mapping : PortMapping) :
    (update port mapping).eval Redis.Server.exec ⟨s, pages⟩ =
      match s (portKey port) with
      | none => (.error errPortNotFound, ⟨s, pages⟩)
      | some _ => (.ok (), ⟨Function.update s (portKey port) (some mapping.marshal), pages⟩) := by
  cases h : s (portKey port) with
  | none =>
    have hset : (⟨s, pages⟩ : Redis.Server).exec (.setXX (portKey port) mapping.marshal) =
        (.ok false, ⟨s, pages⟩) := by
      simp [Redis.Server.exec, Redis.exec, h]
    rw [update, eval_perform, hset]
    rfl
  | some value =>
    have hset : (⟨s, pages⟩ : Redis.Server).exec (.setXX (portKey port) mapping.marshal) =
        (.ok true, ⟨Function.update s (portKey port) (some mapping.marshal), pages⟩) := by
      simp [Redis.Server.exec, Redis.exec, h]
    rw [update, eval_perform, hset]
    rfl

/-! ### `keys` and `desired` -/

theorem keys_eval (store : Redis.Store) {before : List Redis.Oracle} {last : List String}
    {fuel cursor : Nat} (hbefore : ∀ page ∈ before, page.2 ≠ 0) (hfuel : before.length < fuel)
    (found : List String) :
    (keys fuel cursor found).eval Redis.Server.exec ⟨store, before ++ [(last, 0)]⟩ =
      (some (.ok (found ++ (before.flatMap Prod.fst ++ last))), ⟨store, []⟩) := by
  induction before generalizing fuel cursor found with
  | nil =>
    obtain ⟨fuel, rfl⟩ : ∃ n, fuel = n + 1 := ⟨fuel - 1, by simp at hfuel; omega⟩
    rfl
  | cons page before ih =>
    obtain ⟨fuel, rfl⟩ : ∃ n, fuel = n + 1 := ⟨fuel - 1, by simp at hfuel; omega⟩
    obtain ⟨batch, next⟩ := page
    have hnext : next ≠ 0 := hbefore _ List.mem_cons_self
    have hrest : (keys fuel next (found ++ batch)).eval Redis.Server.exec
        ⟨store, before ++ [(last, 0)]⟩ =
          (some (.ok (found ++ batch ++ (before.flatMap Prod.fst ++ last))), ⟨store, []⟩) :=
      ih (fun page hpage => hbefore page (List.mem_cons_of_mem _ hpage)) (by simpa using hfuel) _
    rw [keys, eval_perform]
    show Prog.eval Redis.Server.exec (if next = 0 then _ else keys fuel next (found ++ batch)) _ = _
    rw [if_neg hnext, List.flatMap_cons, List.append_assoc, ← List.append_assoc found]
    exact hrest

theorem keys_of_fullScan {store : Redis.Store} {pages : List Redis.Oracle}
    (h : Redis.FullScan store portKeyPrefix pages) :
    ∃ found, (keys pages.length 0 []).eval Redis.Server.exec ⟨store, pages⟩ =
        (some (.ok found), ⟨store, []⟩) ∧
      ∀ key, key ∈ found ↔ GoStrings.hasPrefix key portKeyPrefix = true ∧ store key ≠ none := by
  obtain ⟨before, last, rfl, hbefore⟩ := h.ends
  refine ⟨_, keys_eval store hbefore (by simp) [], fun key => ?_⟩
  rw [← h.keys key, List.map_append, List.flatten_append, ← List.flatMap_def, List.nil_append,
    List.map_singleton, List.flatten_singleton]

section Decoding
variable {unmarshal : String → Except GoError PortMapping}
  (hround : ∀ m : PortMapping, unmarshal m.marshal = .ok m)

def Stored (store : Redis.Store) (mem : GoMap Nat PortMapping) (key : String) : Prop :=
  ∃ port, key = portKey port ∧ portFromKey key = .ok port ∧
    store key = (mem.get port).map PortMapping.marshal

include hround in
theorem decodePortMapping_marshal (m : PortMapping) :
    decodePortMapping unmarshal m.marshal = .ok m := by
  rw [decodePortMapping, hround]
  rfl

variable {store : Redis.Store} {mem : GoMap Nat PortMapping}

include hround in
theorem decodeBatch_eq {batch : List String} (h : ∀ key ∈ batch, Stored store mem key)
    (mappings : GoMap Nat PortMapping) : ∃ mappings',
      decodeBatch unmarshal (batch.zip (batch.map store)) mappings = .ok mappings' ∧
      ∀ port, mappings'.get port =
        if portKey port ∈ batch ∧ mem.get port ≠ none then mem.get port else mappings.get port := by
  induction batch generalizing mappings with
  | nil => exact ⟨mappings, rfl, fun port => (if_neg fun hmem => by cases hmem.1).symm⟩
  | cons key batch ih =>
    obtain ⟨port, rfl, hport, hstore⟩ := h key List.mem_cons_self
    have hrest := fun key hkey => h key (List.mem_cons_of_mem _ hkey)
    have hkey : ∀ port', portKey port' ∈ portKey port :: batch ↔
        port' = port ∨ portKey port' ∈ batch := fun port' => by
      rw [List.mem_cons, portKey_injective.eq_iff]
    cases hm : mem.get port with
    | none =>
      rw [hm] at hstore
      obtain ⟨mappings', hdecode, hget⟩ := ih hrest mappings
      refine ⟨mappings', ?_, fun port' => ?_⟩
      · rw [List.map_cons, List.zip_cons_cons, hstore]
        exact hdecode
      · simp only [hget port', hkey port']
        by_cases hp : port' = port
        · subst hp
          simp [hm]
        · simp [hp]
    | some m =>
      rw [hm] at hstore
      obtain ⟨mappings', hdecode, hget⟩ := ih hrest (mappings.insert port m)
      refine ⟨mappings', ?_, fun port' => ?_⟩
      · rw [List.map_cons, List.zip_cons_cons, hstore, Option.map_some, decodeBatch, hport]
        dsimp only
        rw [decodePortMapping_marshal hround]
        exact hdecode
      · simp only [hget port', hkey port']
        by_cases hp : port' = port
        · subst hp
          simp [hm]
        · simp [hp, GoMap.get_insert_of_ne]

include hround in
theorem getBatches_eval {batches : List (List String)}
    (h : ∀ key ∈ batches.flatten, Stored store mem key) (pages : List Redis.Oracle)
    (mappings : GoMap Nat PortMapping) : ∃ mappings',
      (getBatches unmarshal batches mappings).eval Redis.Server.exec ⟨store, pages⟩ =
        (.ok mappings', ⟨store, pages⟩) ∧
      ∀ port, mappings'.get port =
        if portKey port ∈ batches.flatten ∧ mem.get port ≠ none then mem.get port
        else mappings.get port := by
  induction batches generalizing mappings with
  | nil => exact ⟨mappings, rfl, fun port => (if_neg fun hmem => by cases hmem.1).symm⟩
  | cons batch batches ih =>
    obtain ⟨mappings₁, hdecode, hget₁⟩ := decodeBatch_eq hround
      (fun key hkey => h key (List.mem_append_left _ hkey)) mappings
    obtain ⟨mappings₂, heval, hget₂⟩ := ih
      (fun key hkey => h key (List.mem_append_right _ hkey)) mappings₁
    refine ⟨mappings₂, ?_, fun port => ?_⟩
    · rw [getBatches, eval_perform]
      simp only [Redis.Server.exec, Redis.exec, hdecode]
      exact heval
    · simp only [hget₂ port, hget₁ port, List.flatten_cons, List.mem_append]
      by_cases hm : mem.get port = none
      · simp [hm]
      · by_cases hb : portKey port ∈ batches.flatten <;> simp [hm, hb]

include hround in
theorem desired_eval {pages : List Redis.Oracle} (h : Redis.FullScan store portKeyPrefix pages)
    (hstored : ∀ key, GoStrings.hasPrefix key portKeyPrefix = true → store key ≠ none →
      Stored store mem key)
    (hmem : ∀ port, mem.get port ≠ none → store (portKey port) ≠ none) :
    ∃ mappings, (desired unmarshal pages.length).eval Redis.Server.exec ⟨store, pages⟩ =
        (some (.ok mappings), ⟨store, []⟩) ∧ mappings.get = mem.get := by
  obtain ⟨found, hkeys, hfound⟩ := keys_of_fullScan h
  have hflat := List.flatten_batches (show 0 < portScanBatchSize by decide) (Nat.le_refl found.length)
  have hbatches : ∀ key ∈ (found.batches portScanBatchSize found.length).flatten,
      Stored store mem key := by
    intro key hkey
    rw [hflat, hfound] at hkey
    exact hstored key hkey.1 hkey.2
  obtain ⟨mappings, heval, hget⟩ := getBatches_eval hround hbatches [] .empty
  refine ⟨mappings, ?_, funext fun port => ?_⟩
  · rw [desired, eval_bind, hkeys]
    dsimp only
    rw [eval_bind, heval]
    rfl
  · rw [hget port]
    split
    · rfl
    · next hnot =>
      rw [hflat, hfound] at hnot
      by_contra hne
      have hport : mem.get port ≠ none := fun he => hne he.symm
      exact hnot ⟨⟨GoStrings.hasPrefix_append _ _, hmem port hport⟩, hport⟩

/-! ### `releaseByAgent` -/

structure Released (store store' : Redis.Store) (ports : List Nat) : Prop where
  gone : ∀ port ∈ ports, store' (portKey port) = none
  others : ∀ key, (∀ port ∈ ports, key ≠ portKey port) → store' key = store key

theorem Released.nil : Released store store [] := ⟨fun _ h => (by cases h), fun _ _ => rfl⟩

theorem Released.cons {store' : Redis.Store} {port : Nat} {ports : List Nat}
    (h : Released (Function.update store (portKey port) none) store' ports) :
    Released store store' (port :: ports) := by
  constructor
  · intro p hp
    by_cases hmem : p ∈ ports
    · exact h.gone p hmem
    · obtain rfl := (List.mem_cons.mp hp).resolve_right hmem
      have hother : ∀ q ∈ ports, portKey p ≠ portKey q := fun q hq he =>
        hmem (portKey_injective he ▸ hq)
      rw [h.others _ hother, Function.update_self]
  · intro key hkey
    rw [h.others key fun p hp => hkey p (List.mem_cons_of_mem _ hp),
      Function.update_of_ne (hkey port List.mem_cons_self)]

include hround in
theorem releaseKeys_eval (agentId : String) {keys : List String}
    (h : ∀ key ∈ keys, Stored store mem key) (pages : List Redis.Oracle) (released : List Nat) :
    ∃ ports store', (releaseKeys unmarshal agentId keys released).eval Redis.Server.exec
        ⟨store, pages⟩ = (.ok (released ++ ports), ⟨store', pages⟩) ∧
      ports.Nodup ∧ Released store store' ports ∧
      ∀ port, port ∈ ports ↔
        portKey port ∈ keys ∧ (mem.get port).any (·.agentId = agentId) = true := by
  induction keys generalizing store mem released with
  | nil =>
    refine ⟨[], store, ?_, .nil, .nil, fun port => ⟨fun hp => (by cases hp), fun hp => by cases hp.1⟩⟩
    rw [List.append_nil]
    rfl
  | cons key keys ih =>
    obtain ⟨port, rfl, hport, hstore⟩ := h key List.mem_cons_self
    have hrest := fun key hkey => h key (List.mem_cons_of_mem _ hkey)
    have hget : (⟨store, pages⟩ : Redis.Server).exec (.get (portKey port)) =
        (.ok (store (portKey port)), ⟨store, pages⟩) := rfl
    -- a key that is skipped is the key of no port of the agent
    have hskip : (mem.get port).any (·.agentId = agentId) = false →
        ∀ port', portKey port' ∈ keys ∧ (mem.get port').any (·.agentId = agentId) = true ↔
          portKey port' ∈ portKey port :: keys ∧
            (mem.get port').any (·.agentId = agentId) = true := by
      intro hany port'
      refine and_congr_left fun hp => ⟨fun hk => List.mem_cons_of_mem _ hk, fun hk => ?_⟩
      refine (List.mem_cons.mp hk).resolve_left fun he => ?_
      rw [portKey_injective he, hany] at hp
      cases hp
    cases hm : mem.get port with
    | none =>
      obtain ⟨ports, store', heval, hnodup, hreleased, hmem⟩ := ih hrest released
      refine ⟨ports, store', ?_, hnodup, hreleased, fun port' =>
        (hmem port').trans (hskip (by rw [hm]; rfl) port')⟩
      rw [releaseKeys, eval_perform, hget, hstore, hm]
      exact heval
    | some m =>
      have hdecode := decodePortMapping_marshal hround m
      by_cases hagent : m.agentId = agentId
      · have hstored : ∀ key ∈ keys, Stored (Function.update store (portKey port) none)
            (mem.erase port) key := by
          intro key hkey
          obtain ⟨port', rfl, hport', hstore'⟩ := hrest key hkey
          refine ⟨port', rfl, hport', ?_⟩
          by_cases hp : port' = port
          · rw [hp, Function.update_self, GoMap.get_erase_self]
            rfl
          · rw [Function.update_of_ne (fun he => hp (portKey_injective he)),
              GoMap.get_erase_of_ne _ hp, hstore']
        obtain ⟨ports, store', heval, hnodup, hreleased, hmem⟩ := ih hstored (released ++ [port])
        have hself : port ∉ ports := fun hp => by
          have := ((hmem port).mp hp).2
          rw [GoMap.get_erase_self] at this
          cases this
        have hdel : (⟨store, pages⟩ : Redis.Server).exec (.del (portKey port)) =
            (.ok 1, ⟨Function.update store (portKey port) none, pages⟩) := by
          simp [Redis.Server.exec, Redis.exec, hstore, hm]
        refine ⟨port :: ports, store', ?_, List.nodup_cons.mpr ⟨hself, hnodup⟩, hreleased.cons,
          fun port' => ?_⟩
        · rw [releaseKeys, eval_perform, hget, hstore, hm, Option.map_some]
          dsimp only
          rw [hdecode]
          dsimp only
          rw [if_neg (not_not.mpr hagent), hport]
          dsimp only
          rw [eval_perform, hdel]
          dsimp only
          rw [if_pos Nat.one_ne_zero, changed_eval, heval, List.append_assoc]
          rfl
        · rw [List.mem_cons, hmem port', List.mem_cons, portKey_injective.eq_iff]
          by_cases hp : port' = port
          · subst hp
            simp [hm, hagent]
          · simp [hp, GoMap.get_erase_of_ne]
      · obtain ⟨ports, store', heval, hnodup, hreleased, hmem⟩ := ih hrest released
        refine ⟨ports, store', ?_, hnodup, hreleased, fun port' =>
          (hmem port').trans (hskip (by rw [hm]; exact decide_eq_false hagent) port')⟩
        rw [releaseKeys, eval_perform, hget, hstore, hm, Option.map_some]
        dsimp only
        rw [hdecode]
        dsimp only
        rw [if_pos hagent]
        exact heval

end Decoding

end RedisPortStore

/-! ### Both stores -/

namespace PortStores
variable {unmarshal : String → Except GoError PortMapping} {s t : PortStores} {c : StoreCall}

structure Same (s : PortStores) : Prop where
  values : ∀ port, s.redis (portKey port) = (s.mem.mappings.get port).map PortMapping.marshal
  keys : ∀ key, GoStrings.hasPrefix key portKeyPrefix = true → s.redis key ≠ none →
    ∃ port, key = portKey port
  valid : ∀ port, s.mem.mappings.get port ≠ none → 0 < port ∧ port ≤ maximumPublicPort

theorem Same.ne_none_iff (h : s.Same) (port : Nat) :
    s.redis (portKey port) ≠ none ↔ s.mem.mappings.get port ≠ none := by
  rw [h.values port, Ne, Option.map_eq_none_iff]

theorem Same.isNone_eq (h : s.Same) (port : Nat) :
    (s.redis (portKey port)).isNone = (s.mem.mappings.get port).isNone := by
  rw [h.values port, Option.isNone_map]

theorem Same.stored (h : s.Same) {key : String}
    (hkey : GoStrings.hasPrefix key portKeyPrefix = true) (hne : s.redis key ≠ none) :
    RedisPortStore.Stored s.redis s.mem.mappings key := by
  obtain ⟨port, rfl⟩ := h.keys key hkey hne
  obtain ⟨hpos, hle⟩ := h.valid port ((h.ne_none_iff port).mp hne)
  exact ⟨port, rfl, portFromKey_portKey hpos hle, h.values port⟩

theorem Same.key_iff (h : s.Same) (key : String) :
    GoStrings.hasPrefix key portKeyPrefix = true ∧ s.redis key ≠ none ↔
      ∃ port, key = portKey port ∧ s.mem.mappings.get port ≠ none := by
  constructor
  · rintro ⟨hkey, hne⟩
    obtain ⟨port, rfl⟩ := h.keys key hkey hne
    exact ⟨port, rfl, (h.ne_none_iff port).mp hne⟩
  · rintro ⟨port, rfl, hne⟩
    exact ⟨GoStrings.hasPrefix_append _ _, (h.ne_none_iff port).mpr hne⟩

theorem Same.insert (h : s.Same) {port : Nat} (mapping : PortMapping) (hpos : 0 < port)
    (hle : port ≤ maximumPublicPort) : Same
      ⟨⟨s.mem.mappings.insert port mapping⟩,
        Function.update s.redis (portKey port) (some mapping.marshal)⟩ := by
  refine ⟨fun port' => ?_, fun key hkey hne => ?_, fun port' hne => ?_⟩
  · by_cases hp : port' = port
    · rw [hp]
      simp
    · simp only [Function.update_of_ne (fun he => hp (portKey_injective he)),
        GoMap.get_insert_of_ne _ hp, h.values port']
  · by_cases hk : key = portKey port
    · exact ⟨port, hk⟩
    · exact h.keys key hkey ((Function.update_of_ne hk _ _).symm.trans_ne hne)
  · by_cases hp : port' = port
    · exact hp ▸ ⟨hpos, hle⟩
    · exact h.valid port' (by rwa [GoMap.get_insert_of_ne _ hp] at hne)

theorem Same.erase (h : s.Same) (port : Nat) :
    Same ⟨⟨s.mem.mappings.erase port⟩, Function.update s.redis (portKey port) none⟩ := by
  refine ⟨fun port' => ?_, fun key hkey hne => ?_, fun port' hne => ?_⟩
  · by_cases hp : port' = port
    · rw [hp]
      simp
    · simp only [Function.update_of_ne (fun he => hp (portKey_injective he)),
        GoMap.get_erase_of_ne _ hp, h.values port']
  · by_cases hk : key = portKey port
    · exact ⟨port, hk⟩
    · exact h.keys key hkey ((Function.update_of_ne hk _ _).symm.trans_ne hne)
  · obtain ⟨m, hm⟩ := Option.ne_none_iff_exists'.mp hne
    exact h.valid port' (by rw [GoMap.get_of_get_erase hm]; exact Option.some_ne_none m)

def CallAgrees (unmarshal : String → Except GoError PortMapping) (s : PortStores) (c : StoreCall) :
    Prop :=
  (s.mem.call c).1.Agrees (RedisPortStore.call unmarshal s.redis c).1 ∧
    Same ⟨(s.mem.call c).2, (RedisPortStore.call unmarshal s.redis c).2⟩

theorem Same.lowestFree_eq (h : s.Same) (lo hi : Nat) :
    lowestFree s.mem.mappings lo hi =
      match (List.range' lo (hi + 1 - lo)).find? fun port => (s.redis (portKey port)).isNone with
      | some port => .ok port
      | none => .error errPortRangeExhausted := by
  have hfree : (fun port => (s.mem.mappings.get port).isNone) =
      fun port => (s.redis (portKey port)).isNone := funext fun port => (h.isNone_eq port).symm
  unfold lowestFree
  cases hfind : (List.range' lo (hi + 1 - lo)).find? fun port =>
      (s.redis (portKey port)).isNone with
  | none => rw [hfree, hfind]
  | some port => rw [hfree, hfind]

theorem validatePortRange_ok {lo hi : Nat} (h : validatePortRange lo hi = .ok ()) :
    0 < lo ∧ hi ≤ maximumPublicPort ∧ lo ≤ hi := by
  unfold validatePortRange at h
  split at h
  · cases h
  · next hnot => omega

theorem Same.allocate (h : s.Same) {lo hi : Nat} (mapping : PortMapping)
    (hrange : validatePortRange lo hi = .ok ()) :
    CallAgrees unmarshal s (.allocate lo hi mapping) ∧
      (RedisPortStore.call unmarshal s.redis (.allocate lo hi mapping)).1 =
        .port (lowestFree s.mem.mappings lo hi) := by
  obtain ⟨hpos, hmax, hle⟩ := validatePortRange_ok hrange
  have hmem : s.mem.firstFree hi (hi + 1 - lo) lo = _ :=
    (s.mem.firstFree_eq hle (Nat.le_refl _)).trans (h.lowestFree_eq lo hi)
  have hredis := RedisPortStore.scanPorts_eval mapping.marshal ⟨s.redis, []⟩ hle (Nat.le_refl _)
  have hcall : RedisPortStore.call unmarshal s.redis (.allocate lo hi mapping) =
      (.port ((RedisPortStore.scanPorts mapping.marshal hi (hi + 1 - lo) lo).eval
          Redis.Server.exec ⟨s.redis, []⟩).1,
        ((RedisPortStore.scanPorts mapping.marshal hi (hi + 1 - lo) lo).eval
          Redis.Server.exec ⟨s.redis, []⟩).2.store) := by
    simp only [RedisPortStore.call, RedisPortStore.body, RedisPortStore.allocate, hrange, eval_bind]
    rfl
  rw [CallAgrees, hcall, hredis, h.lowestFree_eq]
  cases hfind : (List.range' lo (hi + 1 - lo)).find? fun port =>
      (s.redis (portKey port)).isNone with
  | some port =>
    have hport := List.mem_range'_1.mp (List.mem_of_find?_eq_some hfind)
    have hmemCall : s.mem.call (.allocate lo hi mapping) =
        (.port (.ok port), ⟨s.mem.mappings.insert port mapping⟩) := by
      rw [hfind] at hmem
      simp only [MemPortStore.call, MemPortStore.allocate, hrange, hmem]
    rw [hmemCall]
    exact ⟨⟨rfl, h.insert mapping (by omega) (by omega)⟩, rfl⟩
  | none =>
    have hmemCall : s.mem.call (.allocate lo hi mapping) =
        (.port (.error errPortRangeExhausted), s.mem) := by
      rw [hfind] at hmem
      simp only [MemPortStore.call, MemPortStore.allocate, hrange, hmem]
    rw [hmemCall]
    exact ⟨⟨rfl, h⟩, rfl⟩

theorem Same.allocate_invalid (h : s.Same) {lo hi : Nat} (mapping : PortMapping) {err : GoError}
    (hrange : validatePortRange lo hi = .error err) :
    CallAgrees unmarshal s (.allocate lo hi mapping) := by
  have hmem : s.mem.call (.allocate lo hi mapping) = (.port (.error err), s.mem) := by
    simp only [MemPortStore.call, MemPortStore.allocate, hrange]
  have hredis : RedisPortStore.call unmarshal s.redis (.allocate lo hi mapping) =
      (.port (.error err), s.redis) := by
    simp only [RedisPortStore.call, RedisPortStore.body, RedisPortStore.allocate, hrange]
    rfl
  rw [CallAgrees, hmem, hredis]
  exact ⟨rfl, h⟩

theorem Same.release (h : s.Same) (port : Nat) : CallAgrees unmarshal s (.release port) := by
  have hredis : RedisPortStore.call unmarshal s.redis (.release port) =
      (.done (.ok ()), Function.update s.redis (portKey port) none) := by
    rw [RedisPortStore.call, RedisPortStore.body, eval_bind, RedisPortStore.release_eval]
    rfl
  rw [CallAgrees, hredis]
  exact ⟨rfl, h.erase port⟩

theorem Same.lookup (h : s.Same) (hround : ∀ m : PortMapping, unmarshal m.marshal = .ok m)
    (port : Nat) : CallAgrees unmarshal s (.lookup port) := by
  have hredis : RedisPortStore.call unmarshal s.redis (.lookup port) =
      (.mapping (s.mem.lookup port), s.redis) := by
    rw [RedisPortStore.call, RedisPortStore.body, eval_bind, RedisPortStore.lookup_eval,
      h.values port, MemPortStore.lookup]
    cases s.mem.mappings.get port with
    | none => rfl
    | some m =>
      rw [Option.map_some]
      dsimp only
      rw [RedisPortStore.decodePortMapping_marshal hround]
      rfl
  rw [CallAgrees, hredis]
  exact ⟨rfl, h⟩

theorem Same.update (h : s.Same) (port : Nat) (mapping : PortMapping) :
    CallAgrees unmarshal s (.update port mapping) := by
  have hredis : RedisPortStore.call unmarshal s.redis (.update port mapping) =
      match s.mem.mappings.get port with
      | none => (.done (.error errPortNotFound), s.redis)
      | some _ => (.done (.ok ()),
          Function.update s.redis (portKey port) (some mapping.marshal)) := by
    rw [RedisPortStore.call, RedisPortStore.body, eval_bind, RedisPortStore.update_eval,
      h.values port]
    cases s.mem.mappings.get port <;> rfl
  have hmem : s.mem.call (.update port mapping) =
      match s.mem.mappings.get port with
      | none => (.done (.error errPortNotFound), s.mem)
      | some _ => (.done (.ok ()), ⟨s.mem.mappings.insert port mapping⟩) := by
    rw [MemPortStore.call, MemPortStore.update]
    cases s.mem.mappings.get port <;> rfl
  rw [CallAgrees, hredis, hmem]
  cases hget : s.mem.mappings.get port with
  | none => exact ⟨rfl, h⟩
  | some m =>
    obtain ⟨hpos, hle⟩ := h.valid port (by rw [hget]; exact Option.some_ne_none m)
    exact ⟨rfl, h.insert mapping hpos hle⟩

theorem Same.desired (h : s.Same) (hround : ∀ m : PortMapping, unmarshal m.marshal = .ok m)
    {pages : List Redis.Oracle} (hscan : Redis.FullScan s.redis portKeyPrefix pages) :
    CallAgrees unmarshal s (.desired pages) := by
  obtain ⟨mappings, heval, hget⟩ := RedisPortStore.desired_eval hround hscan
    (fun key hkey hne => h.stored hkey hne) fun port hne => (h.ne_none_iff port).mpr hne
  have hredis : RedisPortStore.call unmarshal s.redis (.desired pages) =
      (.mappings (some (.ok mappings)), s.redis) := by
    rw [RedisPortStore.call, RedisPortStore.body, eval_bind]
    simp only [RedisPortStore.pages, heval]
    rfl
  rw [CallAgrees, hredis]
  exact ⟨hget.symm, h⟩

theorem Same.released (h : s.Same) {agentId : String} {ports : List Nat} {store : Redis.Store}
    (hreleased : RedisPortStore.Released s.redis store ports)
    (hports : ∀ port, port ∈ ports ↔
      (s.mem.mappings.get port).any (·.agentId = agentId) = true) :
    Same ⟨(s.mem.releaseByAgent agentId).2, store⟩ := by
  have hother : ∀ port, port ∉ ports → store (portKey port) = s.redis (portKey port) :=
    fun port hp => hreleased.others _ fun q hq he => hp (portKey_injective he ▸ hq)
  have hget : ∀ port, (s.mem.releaseByAgent agentId).2.mappings.get port =
      if port ∈ ports then none else s.mem.mappings.get port := by
    intro port
    rw [MemPortStore.releaseByAgent, GoMap.get_filterMap]
    by_cases hp : port ∈ ports
    · rw [if_pos hp]
      have hany := (hports port).mp hp
      cases hm : s.mem.mappings.get port with
      | none => rfl
      | some m =>
        rw [hm] at hany
        exact if_pos (of_decide_eq_true hany)
    · rw [if_neg hp]
      have hany := mt (hports port).mpr hp
      cases hm : s.mem.mappings.get port with
      | none => rfl
      | some m =>
        rw [hm] at hany
        exact if_neg fun he => hany (decide_eq_true he)
  refine ⟨fun port => ?_, fun key hkey hne => ?_, fun port hne => ?_⟩
  · rw [hget port]
    by_cases hp : port ∈ ports
    · rw [if_pos hp]
      exact hreleased.gone port hp
    · rw [if_neg hp]
      exact (hother port hp).trans (h.values port)
  · by_cases hk : ∃ port ∈ ports, key = portKey port
    · obtain ⟨port, -, rfl⟩ := hk
      exact ⟨port, rfl⟩
    · have hsame := hreleased.others key fun port hp he => hk ⟨port, hp, he⟩
      exact h.keys key hkey (hsame ▸ hne)
  · rw [hget port] at hne
    by_cases hp : port ∈ ports
    · rw [if_pos hp] at hne
      exact absurd rfl hne
    · rw [if_neg hp] at hne
      exact h.valid port hne

theorem Same.releaseByAgent (h : s.Same)
    (hround : ∀ m : PortMapping, unmarshal m.marshal = .ok m) (agentId : String)
    {pages : List Redis.Oracle} (hscan : Redis.FullScan s.redis portKeyPrefix pages) :
    CallAgrees unmarshal s (.releaseByAgent agentId pages) := by
  obtain ⟨found, hkeys, hfound⟩ := RedisPortStore.keys_of_fullScan hscan
  have hstored : ∀ key ∈ found, RedisPortStore.Stored s.redis s.mem.mappings key :=
    fun key hkey => h.stored ((hfound key).mp hkey).1 ((hfound key).mp hkey).2
  obtain ⟨ports, store, heval, hnodup, hreleased, hmem⟩ :=
    RedisPortStore.releaseKeys_eval hround agentId hstored [] []
  have hredis : RedisPortStore.call unmarshal s.redis (.releaseByAgent agentId pages) =
      (.ports (some (.ok ports)), store) := by
    rw [RedisPortStore.call, RedisPortStore.body, RedisPortStore.releaseByAgent, eval_bind, eval_bind]
    simp only [RedisPortStore.pages, hkeys, eval_bind, heval]
    rfl
  -- the keys that SCAN returned are those of all ports with a mapping
  have hports : ∀ port, port ∈ ports ↔
      (s.mem.mappings.get port).any (·.agentId = agentId) = true := by
    refine fun port => (hmem port).trans (and_iff_right_of_imp fun hany => ?_)
    refine (hfound _).mpr ⟨GoStrings.hasPrefix_append _ _, (h.ne_none_iff port).mpr fun he => ?_⟩
    rw [he] at hany
    cases hany
  rw [CallAgrees, hredis]
  refine ⟨?_, h.released hreleased hports⟩
  refine (List.perm_ext_iff_of_nodup ((List.nodup_dedup _).filter _) hnodup).mpr fun port => ?_
  rw [List.mem_filter, List.mem_dedup, hports port]
  refine and_iff_right_of_imp fun hany => s.mem.mappings.covers port fun he => ?_
  rw [he] at hany
  cases hany

theorem Same.call (h : s.Same) (hround : ∀ m : PortMapping, unmarshal m.marshal = .ok m)
    (hscan : s.Scans c) : CallAgrees unmarshal s c := by
  cases c with
  | allocate lo hi mapping =>
    cases hrange : validatePortRange lo hi with
    | ok => exact (h.allocate mapping hrange).1
    | error err => exact h.allocate_invalid mapping hrange
  | release port => exact h.release port
  | lookup port => exact h.lookup hround port
  | update port mapping => exact h.update port mapping
  | desired pages => exact h.desired hround hscan
  | releaseByAgent agentId pages => exact h.releaseByAgent hround agentId hscan

theorem same_of_run (hround : ∀ m : PortMapping, unmarshal m.marshal = .ok m)
    {redis : Redis.Store}
    (hempty : ∀ key, GoStrings.hasPrefix key portKeyPrefix = true → redis key = none)
    {calls : List StoreCall} (h : Lts.Run (step unmarshal) Scans { redis := redis } calls s) :
    s.Same := by
  refine h.invariant (fun s c t hs hscan hstep => ?_) ⟨fun port => ?_, fun key hkey hne => ?_, ?_⟩
  · obtain rfl := Option.some.inj hstep
    exact (hs.call hround hscan).2
  · exact hempty _ (GoStrings.hasPrefix_append _ _)
  · exact absurd (hempty key hkey) hne
  · exact fun port hne => absurd rfl hne

/-- After any sequence of calls both stores hold the same mappings and answer any further call the
same, and `allocate` takes the lowest free port. -/
theorem port_stores_agree_of_run (hround : ∀ m : PortMapping, unmarshal m.marshal = .ok m)
    {redis : Redis.Store}
    (hempty : ∀ key, GoStrings.hasPrefix key portKeyPrefix = true → redis key = none)
    {calls : List StoreCall} (h : Lts.Run (step unmarshal) Scans { redis := redis } calls s)
    (hscan : s.Scans c) :
    (s.mem.call c).1.Agrees (RedisPortStore.call unmarshal s.redis c).1 ∧
    (∀ port, (s.redis (portKey port)).map unmarshal = (s.mem.mappings.get port).map .ok) ∧
    (∀ key, GoStrings.hasPrefix key portKeyPrefix = true → s.redis key ≠ none →
      ∃ port, key = portKey port) ∧
    ∀ lo hi mapping, c = .allocate lo hi mapping → validatePortRange lo hi = .ok () →
      (RedisPortStore.call unmarshal s.redis c).1 = .port (lowestFree s.mem.mappings lo hi) := by
  have hs := same_of_run hround hempty h
  refine ⟨(hs.call hround hscan).1, fun port => ?_, hs.keys, fun lo hi mapping hc hrange => ?_⟩
  · rw [hs.values port]
    cases s.mem.mappings.get port with
    | none => rfl
    | some m => exact congrArg some (hround m)
  · rw [hc]
    exact (hs.allocate mapping hrange).2

def scannedTwice : StoreCall := .releaseByAgent "a" [([portKey 8000], 7), ([portKey 8000], 0)]

theorem port_stores_agree_of_run_scannedTwice :
    ∃ s : PortStores, s.mem.mappings.get 8000 = some { agentId := "a", target := "web:80" } ∧
      (s.mem.call scannedTwice).1.Agrees
        (RedisPortStore.call PortMapping.unmarshal s.redis scannedTwice).1 := by
  obtain ⟨s, hmem, hrun⟩ : ∃ s : PortStores,
      s.mem.mappings = GoMap.empty.insert 8000 { agentId := "a", target := "web:80" } ∧
        Lts.Run (step PortMapping.unmarshal) Scans { redis := fun _ => none }
          [.allocate 8000 8005 { agentId := "a", target := "web:80" }] s :=
    ⟨_, rfl, .snoc .nil trivial rfl⟩
  have hempty : ∀ key, GoStrings.hasPrefix key portKeyPrefix = true →
      (fun _ => none : Redis.Store) key = none := fun _ _ => rfl
  have hsame := same_of_run PortMapping.unmarshal_marshal hempty hrun
  have hscan : s.Scans scannedTwice := by
    refine ⟨⟨[([portKey 8000], 7)], _, rfl, by simp⟩, fun key => ?_⟩
    rw [hsame.key_iff, hmem]
    show key ∈ [portKey 8000, portKey 8000] ↔ _
    constructor
    · intro hkey
      have hkey : key = portKey 8000 := by simpa using hkey
      exact ⟨8000, hkey, by simp⟩
    · rintro ⟨port, rfl, hne⟩
      have hport : port = 8000 := by
        by_contra hp
        rw [GoMap.get_insert_of_ne _ hp] at hne
        exact hne rfl
      rw [hport]
      exact List.mem_cons_self
  refine ⟨s, ?_, (port_stores_agree_of_run PortMapping.unmarshal_marshal hempty hrun hscan).1⟩
  rw [hmem, GoMap.get_insert_self]

end PortStores
end Hostlink.Controller
