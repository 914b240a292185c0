import Hostlink.Controller.Ports

/-! Replicas sharing one Redis. A call is a program of the port store, an instant is a position
in the log of the commands the server executed. -/

namespace Hostlink.Controller

inductive PortCall where
  | allocate (lo hi : Nat) (mapping : PortMapping)
  | release (port : Nat)
  | update (port : Nat) (mapping : PortMapping)
  deriving DecidableEq, Repr

inductive PortResult where
  | port (r : Except GoError Nat)
  | done (r : Except GoError Unit)
  deriving DecidableEq

def PortCall.body : PortCall → RedisPortStore.M PortResult
  | .allocate lo hi mapping => do pure (.port (← RedisPortStore.allocate lo hi mapping))
  | .release port => do pure (.done (← RedisPortStore.release port))
  | .update port mapping => do pure (.done (← RedisPortStore.update port mapping))

abbrev PortPool := Pool Redis.Store Redis.Oracle PortCall Redis.Reply PortResult

namespace RedisPortStore
open Prog

def Shows (port : Nat) (x : Exchange Redis.Reply) : Prop :=
  ∀ s o, (Redis.exec s o x.cmd).1 = x.reply → s (portKey port) ≠ none

theorem shows_mget {keys : List String} {values : List (Option String)} {j port : Nat} {v : String}
    (hk : keys[j]? = some (portKey port)) (hv : values[j]? = some (some v)) :
    Shows port ⟨.mget keys, .ok values⟩ := by
  intro s o h
  have hvals : keys.map s = values := Except.ok.inj h
  have hs : some (s (portKey port)) = some (some v) := by
    rw [← hv, ← hvals, List.getElem?_map, hk, Option.map_some]
  rw [Option.some.inj hs]
  exact Option.some_ne_none v

theorem shows_setNX (port : Nat) (value : String) :
    Shows port ⟨.setNX (portKey port) value, .ok false⟩ :=
  fun _ _ h => Redis.exec_setNX_false h

def claimOf (port : Nat) (encodedMapping : String) : Exchange Redis.Reply :=
  ⟨.setNX (portKey port) encodedMapping, .ok true⟩

def BatchPost (encodedMapping : String) (first : Nat) (values : List (Option String))
    (tr : List (Exchange Redis.Reply)) : Option (Except GoError Nat) → Prop
  | none => ∀ j, values[j]? = some none → ∃ x ∈ tr, Shows (first + j) x
  | some (.ok port) =>
    ∃ j < values.length, port = first + j ∧ claimOf port encodedMapping ∈ tr
  | some (.error _) => False

theorem changed_wp {β : Type} {V : ∀ c, Redis.Reply c → Prop} {b : β}
    {Q : List (Exchange Redis.Reply) → β → Prop} (h : ∀ tr, Q tr b) :
    (changed >>= fun _ => pure b).Wp V Q :=
  fun _ _ => h _

theorem claimCandidates_wp (encodedMapping : String) (start : Nat) (values : List (Option String)) :
    ∀ index, (claimCandidates encodedMapping start index values).Wp Redis.Admits
      (BatchPost encodedMapping (start + index) values) := by
  induction values with
  | nil => exact fun index j hj => by simp at hj
  | cons value values ih =>
    intro index
    -- a result for the later candidates is one for all of them
    have hshift : ∀ tr r, BatchPost encodedMapping (start + (index + 1)) values tr r →
        (value = none → ∃ x ∈ tr, Shows (start + index) x) →
        BatchPost encodedMapping (start + index) (value :: values) tr r := by
      intro tr r hr hhead
      match r with
      | none =>
        intro j hj
        cases j with
        | zero => exact hhead (by simpa using hj)
        | succ j =>
          rw [List.getElem?_cons_succ] at hj
          have hport : start + index + (j + 1) = start + (index + 1) + j := by omega
          rw [hport]
          exact hr j hj
      | some (.ok port) =>
        obtain ⟨j, hj, hp, hc⟩ := hr
        exact ⟨j + 1, by simpa using hj, by omega, hc⟩
      | some (.error err) => exact hr
    cases value with
    | some v => exact (ih (index + 1)).mono fun tr r hr => hshift tr r hr nofun
    | none =>
      refine Wp.perform ?_
      rintro r ⟨claimed, rfl⟩
      cases claimed with
      | true =>
        refine changed_wp fun tr => ⟨0, Nat.zero_lt_succ _, rfl, ?_⟩
        exact List.mem_cons_self
      | false =>
        refine (ih (index + 1)).mono fun tr r hr => ?_
        have hweak : BatchPost encodedMapping (start + (index + 1)) values
            (⟨.setNX (portKey (start + index)) encodedMapping, .ok false⟩ :: tr) r := by
          match r with
          | none =>
            intro j hj
            obtain ⟨x, hx, hs⟩ := hr j hj
            exact ⟨x, List.mem_cons_of_mem _ hx, hs⟩
          | some (.ok port) =>
            obtain ⟨j, hj, hp, hc⟩ := hr
            exact ⟨j, hj, hp, List.mem_cons_of_mem _ hc⟩
          | some (.error err) => exact hr
        exact hshift _ r hweak fun _ => ⟨_, List.mem_cons_self, shows_setNX _ _⟩

theorem BatchPost.shows {encodedMapping : String} {start last : Nat} {values : List (Option String)}
    {tr : List (Exchange Redis.Reply)} (h : BatchPost encodedMapping (start + 0) values tr none)
    (hlen : values.length = last - start + 1) (port : Nat) (h1 : start ≤ port) (h2 : port ≤ last) :
    ∃ x ∈ ⟨.mget ((List.range' start (last - start + 1)).map portKey), .ok values⟩ :: tr,
      Shows port x := by
  obtain ⟨j, rfl⟩ := Nat.exists_eq_add_of_le h1
  have hj : j < values.length := by omega
  cases hv : values[j]? with
  | none => exact absurd (List.getElem?_eq_none_iff.mp hv) (Nat.not_le_of_lt hj)
  | some value =>
    cases value with
    | none =>
      obtain ⟨x, hx, hs⟩ := h j hv
      exact ⟨x, List.mem_cons_of_mem _ hx, hs⟩
    | some v =>
      refine ⟨_, List.mem_cons_self, shows_mget (j := j) ?_ hv⟩
      rw [List.getElem?_map, List.getElem?_range' (by omega), Option.map_some, Nat.one_mul]

def ScanPost (encodedMapping : String) (start hi : Nat) (tr : List (Exchange Redis.Reply)) :
    Except GoError Nat → Prop
  | .ok port => start ≤ port ∧ port ≤ hi ∧ claimOf port encodedMapping ∈ tr
  | .error _ => ∀ port, start ≤ port → port ≤ hi → ∃ x ∈ tr, Shows port x

theorem scanPorts_wp (encodedMapping : String) (hi : Nat) :
    ∀ fuel start, hi + 1 - start ≤ fuel →
      (scanPorts encodedMapping hi fuel start).Wp Redis.Admits (ScanPost encodedMapping start hi) := by
  intro fuel
  induction fuel with
  | zero => exact fun start hf port h1 h2 => by omega
  | succ fuel ih =>
    intro start hf
    unfold scanPorts
    split
    · next hle =>
      generalize hlast : min (start + portScanBatchSize - 1) hi = last
      have hbatch : start ≤ last ∧ last ≤ hi := by
        simp only [portScanBatchSize] at hlast
        omega
      refine Wp.perform ?_
      rintro r ⟨values, rfl, hlen⟩
      simp only [List.length_map, List.length_range'] at hlen
      refine Wp.bind ((claimCandidates_wp encodedMapping start values 0).mono fun tr r hr => ?_)
      match r with
      | some (.ok port) =>
        obtain ⟨j, hj, rfl, hc⟩ := hr
        refine ⟨by omega, by omega, ?_⟩
        rw [List.append_nil]
        exact List.mem_cons_of_mem _ hc
      | some (.error err) => exact hr.elim
      | none =>
        by_cases hend : last = hi
        · simp only [hend, if_true]
          intro port h1 h2
          rw [List.append_nil]
          exact hend ▸ hr.shows hlen port h1 (hend ▸ h2)
        · simp only [hend, if_false]
          refine (ih (last + 1) (by omega)).mono fun tr' r' hr' => ?_
          match r' with
          | .ok port =>
            obtain ⟨h1, h2, hc⟩ := hr'
            exact ⟨by omega, h2, List.mem_cons_of_mem _ (List.mem_append_right _ hc)⟩
          | .error err =>
            intro port h1 h2
            rcases Nat.lt_or_ge last port with hlt | hge
            · obtain ⟨x, hx, hs⟩ := hr' port hlt h2
              exact ⟨x, List.mem_cons_of_mem _ (List.mem_append_right _ hx), hs⟩
            · obtain ⟨x, hx, hs⟩ := hr.shows hlen port h1 hge
              exact ⟨x, List.mem_append_left tr' hx, hs⟩
    · next hgt => exact fun port h1 h2 => by omega

theorem validatePortRange_ne_exhausted (lo hi : Nat) :
    validatePortRange lo hi ≠ .error errPortRangeExhausted := by
  intro h
  unfold validatePortRange at h
  split at h
  · have htext := GoError.new.inj (Except.error.inj h)
    have hhead := congrArg (fun text => text.toList.head?) htext
    simp [show toString "invalid port range " = "invalid port range " from rfl] at hhead
  · cases h

def AllocatePost (lo hi : Nat) (mapping : PortMapping) (tr : List (Exchange Redis.Reply)) :
    Except GoError Nat → Prop
  | .ok port => lo ≤ port ∧ port ≤ hi ∧ claimOf port mapping.marshal ∈ tr
  | .error err => err = errPortRangeExhausted →
      ∀ port, lo ≤ port → port ≤ hi → ∃ x ∈ tr, Shows port x

theorem allocate_wp (lo hi : Nat) (mapping : PortMapping) :
    (allocate lo hi mapping).Wp Redis.Admits (AllocatePost lo hi mapping) := by
  unfold allocate
  split
  · next err herr =>
    intro hex
    exact absurd (hex ▸ herr) (validatePortRange_ne_exhausted lo hi)
  · refine (scanPorts_wp mapping.marshal hi _ lo (Nat.le_refl _)).mono fun tr r hr => ?_
    match r with
    | .ok port => exact hr
    | .error err => exact fun _ => hr

/-! Which call issues which deletion. -/

def Deletes (call : PortCall) (c : Redis.Cmd) : Prop :=
  ∀ key, c = .del key → ∃ port, call = .release port ∧ key = portKey port

variable {P : Redis.Cmd → Prop}

theorem changed_issues (h : ∀ channel message, P (.publish channel message)) :
    changed.Issues P :=
  Issues.perform (h _ _) fun _ => issues_pure _

theorem claimCandidates_issues (hset : ∀ key value, P (.setNX key value))
    (hpub : ∀ channel message, P (.publish channel message)) (encodedMapping : String)
    (start : Nat) (values : List (Option String)) :
    ∀ index, (claimCandidates encodedMapping start index values).Issues P := by
  induction values with
  | nil => exact fun _ => trivial
  | cons value values ih =>
    intro index
    cases value with
    | some v => exact ih (index + 1)
    | none =>
      refine Issues.perform (hset _ _) fun r => ?_
      match r with
      | .error err => exact trivial
      | .ok true => exact Issues.bind (changed_issues hpub) fun _ => trivial
      | .ok false => exact ih (index + 1)

theorem scanPorts_issues (hget : ∀ keys, P (.mget keys)) (hset : ∀ key value, P (.setNX key value))
    (hpub : ∀ channel message, P (.publish channel message)) (encodedMapping : String) (hi : Nat) :
    ∀ fuel start, (scanPorts encodedMapping hi fuel start).Issues P := by
  intro fuel
  induction fuel with
  | zero => exact fun _ => trivial
  | succ fuel ih =>
    intro start
    unfold scanPorts
    split
    · refine Issues.perform (hget _) fun r => ?_
      match r with
      | .error err => exact trivial
      | .ok values =>
        refine Issues.bind (claimCandidates_issues hset hpub encodedMapping start values 0) ?_
        rintro (_ | result)
        · simp only
          split
          · exact issues_pure _
          · exact ih _
        · exact issues_pure _
    · exact trivial

theorem body_deletes (call : PortCall) : call.body.Issues (Deletes call) := by
  have hpub : ∀ channel message, Deletes call (.publish channel message) := by
    intro _ _ key h
    cases h
  cases call with
  | allocate lo hi mapping =>
    refine Issues.bind ?_ fun _ => issues_pure _
    unfold allocate
    split
    · exact issues_pure _
    · refine scanPorts_issues ?_ ?_ hpub _ _ _ _
      · intro keys key h
        cases h
      · intro key' value key h
        cases h
  | release port =>
    refine Issues.bind (Issues.perform ?_ fun r => ?_) fun _ => issues_pure _
    · exact fun key h => ⟨port, rfl, (Redis.Cmd.del.inj h).symm⟩
    · match r with
      | .error err => exact issues_pure _
      | .ok deleted =>
        simp only
        split
        · exact Issues.bind (changed_issues hpub) fun _ => issues_pure _
        · exact issues_pure _
  | update port mapping =>
    refine Issues.bind (Issues.perform ?_ fun r => ?_) fun _ => issues_pure _
    · intro key h
      cases h
    · match r with
      | .error err => exact issues_pure _
      | .ok false => exact issues_pure _
      | .ok true => exact issues_pure _

end RedisPortStore

/-! ### What any interleaving of the calls keeps -/

namespace PortPool
open RedisPortStore

def Claims (s : PortPool) (n i port : Nat) : Prop :=
  ∃ o value, s.log[n]? = some ⟨i, o, .setNX (portKey port) value, .ok true⟩

def Releases (s : PortPool) (n port : Nat) : Prop :=
  ∃ i o P, s.log[n]? = some ⟨i, o, .del (portKey port), .ok 1⟩ ∧
    s.procs[i]? = some P ∧ P.call = .release port

def valueAt (store : Redis.Store) (s : PortPool) (n port : Nat) : Option String :=
  Pool.stateAt Redis.exec store s.log n (portKey port)

structure Exclusive (store : Redis.Store) (s : PortPool) : Prop where
  apart : ∀ i j ci cj port, i ≠ j → s.Returned i ci (.port (.ok port)) →
    s.Returned j cj (.port (.ok port)) → ∃ m n k, Claims s m i port ∧ Claims s n j port ∧
      Releases s k port ∧ (m < k ∧ k < n ∨ n < k ∧ k < m)
  claimed : ∀ i lo hi mapping port, s.Returned i (.allocate lo hi mapping) (.port (.ok port)) →
    lo ≤ port ∧ port ≤ hi ∧ ∃ n, Claims s n i port ∧ valueAt store s n port = none ∧
      valueAt store s (n + 1) port = some mapping.marshal
  exhausted : ∀ i lo hi mapping,
    s.Returned i (.allocate lo hi mapping) (.port (.error errPortRangeExhausted)) →
    ∀ port, lo ≤ port → port ≤ hi →
      ∃ n e, s.log[n]? = some e ∧ e.proc = i ∧ valueAt store s n port ≠ none

variable {store : Redis.Store} {s : PortPool}

abbrev Inv (store : Redis.Store) (s : PortPool) : Prop := Pool.Inv Redis.exec PortCall.body store s

theorem body_allocate_wp (lo hi : Nat) (mapping : PortMapping) :
    (PortCall.allocate lo hi mapping).body.Wp Redis.Admits fun tr a =>
      ∃ r, a = .port r ∧ AllocatePost lo hi mapping tr r := by
  refine Prog.Wp.bind ((allocate_wp lo hi mapping).mono fun tr r hr => ⟨r, rfl, ?_⟩)
  rwa [List.append_nil]

theorem allocate_returned (hi : Inv store s) {i lo top : Nat} {mapping : PortMapping}
    {r : Except GoError Nat} (h : s.Returned i (.allocate lo top mapping) (.port r)) :
    AllocatePost lo top mapping (Pool.exchanges i s.log) r := by
  obtain ⟨r', hr, hpost⟩ := hi.returned h Redis.exec_admits (body_allocate_wp lo top mapping)
  obtain rfl := PortResult.port.inj hr
  exact hpost

theorem call_of_port (hi : Inv store s) {i : Nat} {call : PortCall} {r : Except GoError Nat}
    (h : s.Returned i call (.port r)) : ∃ lo top mapping, call = .allocate lo top mapping := by
  have hdone : ∀ p : M (Except GoError Unit), call.body = p >>= (fun r => pure (.done r)) → False := by
    intro p hp
    have hwp : call.body.Wp Redis.Admits fun _ a => ∃ r, a = .done r :=
      hp ▸ Prog.Wp.bind (.of_forall fun tr r => ⟨r, rfl⟩)
    obtain ⟨r, hr⟩ := hi.returned h Redis.exec_admits hwp
    cases hr
  cases call with
  | allocate lo top mapping => exact ⟨lo, top, mapping, rfl⟩
  | release port => exact (hdone _ rfl).elim
  | update port mapping => exact (hdone _ rfl).elim

theorem claimed_at (hi : Inv store s) {n i port : Nat} {o : Redis.Oracle} {value : String}
    (h : s.log[n]? = some ⟨i, o, .setNX (portKey port) value, .ok true⟩) :
    valueAt store s n port = none ∧ valueAt store s (n + 1) port = some value := by
  have hr := hi.answered_at h
  have hset := Redis.exec_setNX_true hr.symm
  refine ⟨hset.1, ?_⟩
  rw [valueAt, Pool.stateAt_succ h]
  exact hset.2

theorem released_between (hi : Inv store s) {m n port : Nat} (hmn : m ≤ n)
    (hm : valueAt store s m port ≠ none) (hn : valueAt store s n port = none) :
    ∃ k, m ≤ k ∧ k < n ∧ Releases s k port := by
  obtain ⟨k, e, hmk, hkn, he, hsome, hgone⟩ :=
    Pool.exists_lost (P := fun t : Redis.Store => t (portKey port) ≠ none) hmn hm (not_not.mpr hn)
  refine ⟨k, hmk, hkn, ?_⟩
  have hcmd := Redis.exec_vanish hsome (not_not.mp hgone)
  obtain ⟨p, hp, hdel⟩ := hi.issued body_deletes he
  obtain ⟨port', hcall, hkey⟩ := hdel _ hcmd
  obtain rfl := portKey_injective hkey
  have hr := hi.answered_at he
  obtain ⟨i, o, c, r⟩ := e
  obtain rfl : c = .del (portKey port) := hcmd
  obtain rfl : r = .ok 1 := by
    simpa [Redis.exec, Option.isSome_iff_ne_none.mpr hsome] using hr
  exact ⟨i, o, p, he, hp, hcall⟩

theorem claims_apart (hi : Inv store s) {m n i j port : Nat} (hmn : m < n)
    (hm : Claims s m i port) (hn : Claims s n j port) :
    ∃ k, m < k ∧ k < n ∧ Releases s k port := by
  obtain ⟨o, value, hm⟩ := hm
  obtain ⟨o', value', hn⟩ := hn
  have hsome : valueAt store s (m + 1) port ≠ none := by simp [(claimed_at hi hm).2]
  obtain ⟨k, hk, hkn, hrel⟩ := released_between hi hmn hsome (claimed_at hi hn).1
  exact ⟨k, hk, hkn, hrel⟩

theorem claims_of_returned (hi : Inv store s) {i lo top port : Nat} {mapping : PortMapping}
    (h : s.Returned i (.allocate lo top mapping) (.port (.ok port))) :
    lo ≤ port ∧ port ≤ top ∧ ∃ n, Claims s n i port ∧ valueAt store s n port = none ∧
      valueAt store s (n + 1) port = some mapping.marshal := by
  obtain ⟨h1, h2, hc⟩ := allocate_returned hi h
  obtain ⟨n, e, hn, hproc, he⟩ := Pool.exists_entry hc
  refine ⟨h1, h2, n, ?_⟩
  obtain ⟨i', o, c, r⟩ := e
  obtain rfl : i' = i := hproc
  cases he
  exact ⟨⟨o, _, hn⟩, claimed_at hi hn⟩

theorem exclusive_of_run {ls : List (PoolLabel PortCall Redis.Oracle)}
    (h : Lts.AnyRun (Pool.step Redis.exec PortCall.body) (Pool.init store) ls s) :
    Exclusive store s := by
  have hi : Inv store s := Pool.inv_of_run h
  refine ⟨?_, fun i lo top mapping port hr => claims_of_returned hi hr, ?_⟩
  · intro i j ci cj port hij hri hrj
    obtain ⟨lo, top, mapping, rfl⟩ := call_of_port hi hri
    obtain ⟨lo', top', mapping', rfl⟩ := call_of_port hi hrj
    obtain ⟨-, -, m, hm, -⟩ := claims_of_returned hi hri
    obtain ⟨-, -, n, hn, -⟩ := claims_of_returned hi hrj
    -- the two SETNX are entries of one log, so one comes before the other
    rcases Nat.lt_trichotomy m n with hlt | rfl | hgt
    · obtain ⟨k, h1, h2, hk⟩ := claims_apart hi hlt hm hn
      exact ⟨m, n, k, hm, hn, hk, .inl ⟨h1, h2⟩⟩
    · -- one entry of the log belongs to one call
      obtain ⟨o, value, hm⟩ := hm
      obtain ⟨o', value', hn⟩ := hn
      rw [hm] at hn
      cases hn
      exact absurd rfl hij
    · obtain ⟨k, h1, h2, hk⟩ := claims_apart hi hgt hn hm
      exact ⟨m, n, k, hm, hn, hk, .inr ⟨h1, h2⟩⟩
  · intro i lo top mapping hr port h1 h2
    obtain ⟨x, hx, hs⟩ := allocate_returned hi hr rfl port h1 h2
    obtain ⟨n, e, hn, hproc, rfl⟩ := Pool.exists_entry hx
    exact ⟨n, e, hn, hproc, hs _ e.oracle (hi.answered_at hn).symm⟩

/-- Two allocations race for a range of two ports, one port is released and allocated again, and
a last call finds the range exhausted. -/
def contention : List (PoolLabel PortCall Redis.Oracle) :=
  let mapping : String → PortMapping := fun agent => { agentId := agent, target := "127.0.0.1:80" }
  [.invoke (.allocate 8000 8001 (mapping "a")), .invoke (.allocate 8000 8001 (mapping "b")),
    .exec 0 ([], 0), .exec 1 ([], 0), .exec 1 ([], 0), .exec 0 ([], 0), .exec 0 ([], 0),
    .exec 0 ([], 0), .exec 1 ([], 0), .invoke (.release 8000), .exec 2 ([], 0), .exec 2 ([], 0),
    .invoke (.allocate 8000 8001 (mapping "c")), .exec 3 ([], 0), .exec 3 ([], 0), .exec 3 ([], 0),
    .invoke (.allocate 8000 8001 (mapping "d")), .exec 4 ([], 0)]

theorem exclusive_of_run_contention : ∃ s : PortPool,
    Lts.AnyRun (Pool.step Redis.exec PortCall.body) (Pool.init fun _ => none) contention s ∧
      s.result? 0 = some (.port (.ok 8001)) ∧ s.result? 1 = some (.port (.ok 8000)) ∧
      s.result? 3 = some (.port (.ok 8000)) ∧
      s.result? 4 = some (.port (.error errPortRangeExhausted)) ∧ Exclusive (fun _ => none) s := by
  let s := (Lts.exec (Pool.step Redis.exec PortCall.body) (Pool.init fun _ => none)
    contention).get (by decide +kernel)
  have hrun : Lts.AnyRun (Pool.step Redis.exec PortCall.body) (Pool.init fun _ => none)
      contention s := Lts.anyRun_of_exec (Option.some_get _).symm
  exact ⟨s, hrun, by decide +kernel, by decide +kernel, by decide +kernel, by decide +kernel,
    exclusive_of_run hrun⟩

end PortPool
end Hostlink.Controller
