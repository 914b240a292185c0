import Hostlink.Controller.PortJson
import Hostlink.Controller.PortsExclusive

/-! `releaseByAgent` among the calls of other replicas. It reads a key and deletes it with two
commands, and between them the port can change hands. -/

namespace Hostlink.Controller
open Prog

inductive ReleaseCall where
  | port (call : PortCall)
  | releaseByAgent (fuel : Nat) (agentId : String)
  deriving DecidableEq, Repr

inductive ReleaseResult where
  | port (r : PortResult)
  | ports (r : Option (Except GoError (List Nat)))
  deriving DecidableEq

abbrev ReleasePool := Pool Redis.Store Redis.Oracle ReleaseCall Redis.Reply ReleaseResult

section Calls
variable (unmarshal : String → Except GoError PortMapping)

def ReleaseCall.body : ReleaseCall → RedisPortStore.M ReleaseResult
  | .port c => do pure (.port (← c.body))
  | .releaseByAgent fuel agentId => do
    pure (.ports (← RedisPortStore.releaseByAgent unmarshal fuel agentId))

def ownerOf (value : String) : Option String :=
  ((RedisPortStore.decodePortMapping unmarshal value).toOption).map (·.agentId)

end Calls

def releasing? (P : Proc ReleaseCall Redis.Reply ReleaseResult) : Option (String × String) :=
  match P.call, P.prog.next? with
  | .releaseByAgent _ agentId, some (.del key) => some (agentId, key)
  | _, _ => none

namespace ReleasePool
variable (unmarshal : String → Except GoError PortMapping)

def next? (s : ReleasePool) (i : Nat) : Option Redis.Cmd := (s.procs[i]?).bind (·.prog.next?)

def Spares : Option (String × String) → Option (String × String) → Prop
  | some (agentId, key), some (key', value) => key' = key → ownerOf unmarshal value = some agentId
  | _, _ => True

instance : (owner write : Option (String × String)) → Decidable (Spares unmarshal owner write)
  | some (agentId, key), some (key', value) =>
    inferInstanceAs (Decidable (key' = key → ownerOf unmarshal value = some agentId))
  | none, _ => isTrue trivial
  | some _, none => isTrue trivial

/-- No step gives another agent a port that a `releaseByAgent` has read and not yet deleted. A SETNX or
SET XX that is refused gives nothing to anybody. -/
def Undisturbed (s : ReleasePool) : PoolLabel ReleaseCall Redis.Oracle → Prop
  | .invoke _ => True
  | .exec i _ => ∀ P ∈ s.procs, Spares unmarshal (releasing? P) ((s.next? i).bind (Redis.written? s.server))

instance (s : ReleasePool) : (l : PoolLabel ReleaseCall Redis.Oracle) →
    Decidable (s.Undisturbed unmarshal l)
  | .invoke _ => isTrue trivial
  | .exec i _ => inferInstanceAs (Decidable
      (∀ P ∈ s.procs, Spares unmarshal (releasing? P) ((s.next? i).bind (Redis.written? s.server))))

def Deletes (s : ReleasePool) (n i : Nat) (agentId key : String) : Prop :=
  ∃ o fuel prog, s.log[n]? = some ⟨i, o, .del key, .ok 1⟩ ∧
    s.procs[i]? = some ⟨.releaseByAgent fuel agentId, prog⟩

structure Scoped (store : Redis.Store) (s : ReleasePool) : Prop where
  owned : ∀ n i agentId key, s.Deletes n i agentId key →
    ∃ value, Pool.stateAt Redis.exec store s.log n key = some value ∧
      ownerOf unmarshal value = some agentId
  deleted : ∀ i fuel agentId ports,
    s.Returned i (.releaseByAgent fuel agentId) (.ports (some (.ok ports))) →
      ∀ port ∈ ports, ∃ n key, portFromKey key = .ok port ∧ s.Deletes n i agentId key

end ReleasePool

/-! ### The program -/

namespace RedisPortStore
variable (unmarshal : String → Except GoError PortMapping)

def ReadFirst (agentId : String) (last : Option (Exchange Redis.Reply)) (c : Redis.Cmd) : Prop :=
  ∀ key, c = .del key → ∃ value, last = some ⟨.get key, .ok (some value)⟩ ∧
    ownerOf unmarshal value = some agentId

variable {unmarshal} {agentId : String} {last : Option (Exchange Redis.Reply)}

theorem readFirst_of_ne {c : Redis.Cmd} (h : ∀ key, c ≠ .del key) :
    ReadFirst unmarshal agentId last c :=
  fun key hc => absurd hc (h key)

theorem keys_follows (fuel cursor : Nat) (keysSoFar : List String) :
    (keys fuel cursor keysSoFar).Follows (ReadFirst unmarshal agentId) last := by
  induction fuel generalizing cursor keysSoFar last with
  | zero => trivial
  | succ fuel ih =>
    refine Follows.perform (readFirst_of_ne fun key hc => by cases hc) fun r => ?_
    match r with
    | .error err => exact trivial
    | .ok (batch, next) =>
      dsimp only
      split
      · exact trivial
      · exact ih next _

theorem releaseKeys_follows (keys : List String) (ports : List Nat) :
    (releaseKeys unmarshal agentId keys ports).Follows (ReadFirst unmarshal agentId) last := by
  induction keys generalizing ports last with
  | nil => trivial
  | cons key keys ih =>
    refine Follows.perform (readFirst_of_ne fun key hc => by cases hc) fun r => ?_
    match r with
    | .error err => exact trivial
    | .ok none => exact ih ports
    | .ok (some value) =>
      dsimp only
      split
      · exact trivial
      · next mapping hdecode =>
        split
        · exact ih ports
        · next howner =>
          split
          · exact trivial
          · next port hport =>
            refine Follows.perform ?_ fun r => ?_
            · rintro key' hkey
              obtain rfl := Redis.Cmd.del.inj hkey
              refine ⟨value, rfl, ?_⟩
              rw [ownerOf, hdecode]
              exact congrArg some (not_not.mp howner)
            · match r with
              | .error err => exact trivial
              | .ok deleted =>
                dsimp only
                split
                · refine Follows.perform (readFirst_of_ne fun key hc => by cases hc) fun _ => ?_
                  exact ih _
                · exact ih ports

theorem releaseByAgent_follows (fuel : Nat) :
    (releaseByAgent unmarshal fuel agentId).Follows (ReadFirst unmarshal agentId) last := by
  refine Follows.bind (keys_follows fuel 0 []) fun r last' => ?_
  match r with
  | none => exact trivial
  | some (.error err) => exact trivial
  | some (.ok keys) => exact Follows.bind (releaseKeys_follows keys []) fun _ _ => trivial

def ReleasePost (ports : List Nat) (tr : List (Exchange Redis.Reply)) :
    Except GoError (List Nat) → Prop
  | .ok result => ∀ port ∈ result, port ∈ ports ∨ ∃ key deleted, portFromKey key = .ok port ∧
      deleted ≠ 0 ∧ ⟨.del key, .ok deleted⟩ ∈ tr
  | .error _ => True

theorem ReleasePost.cons {ports : List Nat} {tr : List (Exchange Redis.Reply)}
    {r : Except GoError (List Nat)} (h : ReleasePost ports tr r) (x : Exchange Redis.Reply) :
    ReleasePost ports (x :: tr) r := by
  cases r with
  | error err => trivial
  | ok result =>
    intro port hport
    rcases h port hport with hold | ⟨key, deleted, hkey, hne, hmem⟩
    · exact .inl hold
    · exact .inr ⟨key, deleted, hkey, hne, List.mem_cons_of_mem _ hmem⟩

theorem releaseKeys_wp (keys : List String) (ports : List Nat) :
    (releaseKeys unmarshal agentId keys ports).Wp Redis.Admits (ReleasePost ports) := by
  induction keys generalizing ports with
  | nil => exact fun port hport => .inl hport
  | cons key keys ih =>
    refine Wp.perform ?_
    rintro r ⟨found, rfl⟩
    cases found with
    | none => exact (ih ports).mono fun tr r hr => hr.cons _
    | some value =>
      dsimp only
      split
      · trivial
      · split
        · exact (ih ports).mono fun tr r hr => hr.cons _
        · split
          · trivial
          · next port hport =>
            refine Wp.perform ?_
            rintro r ⟨deleted, rfl⟩
            dsimp only
            split
            · next hne =>
              refine Wp.perform fun r _ => (ih (ports ++ [port])).mono fun tr r hr => ?_
              cases r with
              | error err => trivial
              | ok result =>
                intro port' hport'
                rcases hr port' hport' with hold | ⟨key', deleted', hkey, hne', hmem⟩
                · rcases List.mem_append.mp hold with hold | hnew
                  · exact .inl hold
                  · obtain rfl := List.mem_singleton.mp hnew
                    exact .inr ⟨key, deleted, hport, hne, by simp⟩
                · exact .inr ⟨key', deleted', hkey, hne', by simp [hmem]⟩
            · exact (ih ports).mono fun tr r hr => (hr.cons _).cons _

theorem releaseByAgent_wp (fuel : Nat) :
    (releaseByAgent unmarshal fuel agentId).Wp Redis.Admits fun tr r =>
      ∀ ports, r = some (.ok ports) → ∀ port ∈ ports, ∃ key deleted, portFromKey key = .ok port ∧
        deleted ≠ 0 ∧ ⟨.del key, .ok deleted⟩ ∈ tr := by
  refine Wp.bind (.of_forall fun tr r => ?_)
  match r with
  | none => exact fun ports h => by cases h
  | some (.error err) => exact fun ports h => by cases h
  | some (.ok keys) =>
    refine Wp.bind ((releaseKeys_wp keys []).mono fun tr' r hr => ?_)
    intro ports hports port hport
    obtain rfl : r = .ok ports := Option.some.inj hports
    rcases hr port hport with hnone | ⟨key, deleted, hkey, hne, hmem⟩
    · exact absurd hnone List.not_mem_nil
    · exact ⟨key, deleted, hkey, hne, by simp [hmem]⟩

end RedisPortStore

/-! ### Runs -/

def HeldBy (unmarshal : String → Except GoError PortMapping) (store : Redis.Store)
    (agentId key : String) : Prop :=
  ∀ value, store key = some value → ownerOf unmarshal value = some agentId

theorem HeldBy.exec {unmarshal : String → Except GoError PortMapping} {store : Redis.Store}
    {agentId key : String} (h : HeldBy unmarshal store agentId key) (o : Redis.Oracle)
    {c : Redis.Cmd} (hspares : ReleasePool.Spares unmarshal (some (agentId, key)) (Redis.written? store c)) :
    HeldBy unmarshal (Redis.exec store o c).2 agentId key := by
  intro value hvalue
  rcases Redis.exec_key store o c key with hsame | ⟨-, hnone⟩ | ⟨value', hwritten, hnew⟩
  · exact h value (hsame ▸ hvalue)
  · rw [hnone] at hvalue
    cases hvalue
  · rw [hnew] at hvalue
    obtain rfl := Option.some.inj hvalue
    rw [hwritten] at hspares
    exact hspares rfl

theorem releasing?_eq_some {P : Proc ReleaseCall Redis.Reply ReleaseResult} {agentId key : String}
    (h : releasing? P = some (agentId, key)) :
    ∃ fuel k, P = ⟨.releaseByAgent fuel agentId, .call (.del key) k⟩ := by
  obtain ⟨c, prog⟩ := P
  cases c with
  | port c => cases h
  | releaseByAgent fuel agent =>
    cases prog with
    | ret a => cases h
    | call cmd k =>
      cases cmd with
      | del key' =>
        cases h
        exact ⟨fuel, k, rfl⟩
      | get | mget | setNX | setXX | scan | publish => cases h

namespace ReleasePool
variable {unmarshal : String → Except GoError PortMapping} {store : Redis.Store}

structure Inv (unmarshal : String → Except GoError PortMapping) (store : Redis.Store)
    (s : ReleasePool) : Prop where
  pool : Pool.Inv Redis.exec (ReleaseCall.body unmarshal) store s
  held : ∀ P ∈ s.procs, ∀ agentId key, releasing? P = some (agentId, key) →
    HeldBy unmarshal s.server agentId key
  owned : ∀ n i agentId key, s.Deletes n i agentId key →
    ∃ value, Pool.stateAt Redis.exec store s.log n key = some value ∧
      ownerOf unmarshal value = some agentId

variable {s : ReleasePool}

theorem releasing?_body (c : ReleaseCall) : releasing? ⟨c, c.body unmarshal⟩ = none := by
  cases c with
  | port c => rfl
  | releaseByAgent fuel agentId =>
    cases fuel with
    | zero => rfl
    | succ fuel => rfl

theorem Inv.invoke (h : Inv unmarshal store s) (c : ReleaseCall) :
    Inv unmarshal store { s with procs := s.procs ++ [⟨c, c.body unmarshal⟩] } where
  pool := h.pool.invoke c
  held := by
    intro P hP agentId key hreleasing
    rcases List.mem_append.mp hP with hold | hnew
    · exact h.held P hold agentId key hreleasing
    · rw [List.mem_singleton.mp hnew, releasing?_body] at hreleasing
      cases hreleasing
  owned := by
    rintro n i agentId key ⟨o, fuel, prog, hlog, hproc⟩
    have hlt := h.pool.started _ (List.mem_of_getElem? hlog)
    rw [List.getElem?_append_left hlt] at hproc
    exact h.owned n i agentId key ⟨o, fuel, prog, hlog, hproc⟩

/-- A `releaseByAgent` that comes to a deletion has just read the key. -/
theorem Inv.held_next (h : Inv unmarshal store s) {i : Nat} {call : ReleaseCall} {c : Redis.Cmd}
    {k : Redis.Reply c → RedisPortStore.M ReleaseResult}
    (hP : s.procs[i]? = some ⟨call, .call c k⟩) (o : Redis.Oracle) {agentId key : String}
    (hnext : releasing? ⟨call, k (Redis.exec s.server o c).1⟩ = some (agentId, key)) :
    HeldBy unmarshal (Redis.exec s.server o c).2 agentId key := by
  obtain ⟨fuel, k', hproc⟩ := releasing?_eq_some hnext
  obtain rfl : call = .releaseByAgent fuel agentId := congrArg Proc.call hproc
  have hprog : k (Redis.exec s.server o c).1 = .call (.del key) k' := congrArg Proc.prog hproc
  have hbody : (ReleaseCall.body unmarshal (.releaseByAgent fuel agentId)).Follows
      (RedisPortStore.ReadFirst unmarshal agentId) none :=
    Follows.bind (RedisPortStore.releaseByAgent_follows fuel) fun _ _ => trivial
  have hfollows := ((h.pool.traced i _ hP).follows hbody).2 (Redis.exec s.server o c).1
  rw [hprog] at hfollows
  obtain ⟨value, hread, howner⟩ := hfollows.1 key rfl
  have hexchange := Option.some.inj hread
  obtain rfl : c = .get key := congrArg Exchange.cmd hexchange
  injection hexchange with _ hreply
  have hfound : s.server key = some value := Except.ok.inj hreply
  intro value' hvalue'
  obtain rfl : value = value' := Option.some.inj (hfound.symm.trans hvalue')
  exact howner

theorem Inv.held_exec (h : Inv unmarshal store s) {i : Nat} {call : ReleaseCall} {c : Redis.Cmd}
    {k : Redis.Reply c → RedisPortStore.M ReleaseResult}
    (hP : s.procs[i]? = some ⟨call, .call c k⟩) (o : Redis.Oracle)
    (hok : s.Undisturbed unmarshal (.exec i o)) :
    ∀ P ∈ s.procs.set i ⟨call, k (Redis.exec s.server o c).1⟩, ∀ agentId key,
      releasing? P = some (agentId, key) → HeldBy unmarshal (Redis.exec s.server o c).2 agentId key := by
  intro P hmem agentId key hreleasing
  rcases List.mem_or_eq_of_mem_set hmem with hold | rfl
  · have hspares := hok P hold
    rw [hreleasing, next?, hP] at hspares
    exact (h.held P hold agentId key hreleasing).exec o hspares
  · exact h.held_next hP o hreleasing

theorem call_of_set {procs : List (Proc ReleaseCall Redis.Reply ReleaseResult)} {i j : Nat}
    {call call' : ReleaseCall} {p q r : RedisPortStore.M ReleaseResult}
    (hi : procs[i]? = some ⟨call, p⟩) (hj : (procs.set i ⟨call, q⟩)[j]? = some ⟨call', r⟩) :
    ∃ p', procs[j]? = some ⟨call', p'⟩ := by
  rcases List.getElem?_of_set hj with ⟨-, hold⟩ | ⟨rfl, heq⟩
  · exact ⟨r, hold⟩
  · obtain rfl : call' = call := congrArg Proc.call heq
    exact ⟨p, hi⟩

theorem Inv.owned_exec (h : Inv unmarshal store s) {i : Nat} {call : ReleaseCall} {c : Redis.Cmd}
    {k : Redis.Reply c → RedisPortStore.M ReleaseResult}
    (hP : s.procs[i]? = some ⟨call, .call c k⟩) (o : Redis.Oracle) {n j : Nat}
    {agentId key : String}
    (hdel : Deletes ⟨(Redis.exec s.server o c).2,
      s.procs.set i ⟨call, k (Redis.exec s.server o c).1⟩,
      s.log ++ [⟨i, o, c, (Redis.exec s.server o c).1⟩]⟩ n j agentId key) :
    ∃ value, Pool.stateAt Redis.exec store (s.log ++ [⟨i, o, c, (Redis.exec s.server o c).1⟩]) n key =
        some value ∧ ownerOf unmarshal value = some agentId := by
  obtain ⟨o', fuel, prog, hlog, hproc⟩ := hdel
  obtain ⟨prog', hproc'⟩ := call_of_set hP hproc
  rcases List.getElem?_of_concat hlog with hold | ⟨rfl, hnew⟩
  · have hlt : n < s.log.length := (List.getElem?_eq_some_iff.mp hold).1
    obtain ⟨value, hvalue, howner⟩ := h.owned n j agentId key ⟨o', fuel, prog', hold, hproc'⟩
    refine ⟨value, ?_, howner⟩
    rw [Pool.stateAt, List.take_append_of_le_length (Nat.le_of_lt hlt)]
    exact hvalue
  · -- the step is the deletion itself
    obtain rfl : j = i := congrArg LogEntry.proc hnew
    obtain rfl : Redis.Cmd.del key = c := congrArg LogEntry.cmd hnew
    injection hnew with _ _ _ hreply
    obtain rfl : call = .releaseByAgent fuel agentId :=
      congrArg Proc.call (Option.some.inj (hP.symm.trans hproc'))
    have hheld := h.held _ (List.mem_of_getElem? hP) agentId key rfl
    have hone : 1 = if (s.server key).isSome then 1 else 0 := Except.ok.inj hreply
    cases hvalue : s.server key with
    | none =>
      rw [hvalue] at hone
      cases hone
    | some value =>
      refine ⟨value, ?_, hheld value hvalue⟩
      rw [Pool.stateAt, List.take_left, ← h.pool.server]
      exact hvalue

theorem inv_of_run {ls : List (PoolLabel ReleaseCall Redis.Oracle)}
    (h : Lts.Run (Pool.step Redis.exec (ReleaseCall.body unmarshal)) (Undisturbed unmarshal)
      (Pool.init store) ls s) : Inv unmarshal store s := by
  refine h.invariant (fun s l t hi hok hs => ?_) ?_
  · obtain ⟨c, -, rfl⟩ | ⟨i, o, call, c, k, rfl, hP, rfl⟩ := Pool.step_cases hs
    · exact hi.invoke c
    · exact ⟨hi.pool.perform hP o, hi.held_exec hP o hok, fun _ _ _ _ => hi.owned_exec hP o⟩
  · refine ⟨Pool.init_inv store, fun P hP => absurd hP List.not_mem_nil, ?_⟩
    rintro n i agentId key ⟨o, fuel, prog, hlog, -⟩
    cases hlog

theorem deleted_of_returned (hi : Pool.Inv Redis.exec (ReleaseCall.body unmarshal) store s) {i fuel : Nat}
    {agentId : String} {ports : List Nat}
    (h : s.Returned i (.releaseByAgent fuel agentId) (.ports (some (.ok ports)))) {port : Nat}
    (hport : port ∈ ports) :
    ∃ n key, portFromKey key = .ok port ∧ s.Deletes n i agentId key := by
  have hwp : (ReleaseCall.body unmarshal (.releaseByAgent fuel agentId)).Wp Redis.Admits
      fun tr a => ∀ ports, a = .ports (some (.ok ports)) → ∀ port ∈ ports, ∃ key deleted,
        portFromKey key = .ok port ∧ deleted ≠ 0 ∧ ⟨.del key, .ok deleted⟩ ∈ tr := by
    refine Wp.bind ((RedisPortStore.releaseByAgent_wp fuel).mono fun tr r hr => ?_)
    intro ports hports port hport
    rw [List.append_nil]
    exact hr ports (ReleaseResult.ports.inj hports) port hport
  obtain ⟨key, deleted, hkey, hne, hmem⟩ := hi.returned h Redis.exec_admits hwp ports rfl port hport
  obtain ⟨n, e, hlog, hproc, he⟩ := Pool.exists_entry hmem
  have hanswer := hi.answered_at hlog
  obtain ⟨i', o, c, r⟩ := e
  obtain rfl : i' = i := hproc
  cases he
  refine ⟨n, key, hkey, o, fuel, _, ?_, h⟩
  have hone : deleted = if (Pool.stateAt Redis.exec store s.log n key).isSome then 1 else 0 :=
    Except.ok.inj hanswer
  split at hone
  · rw [hlog, hone]
  · exact absurd hone hne

/-- Where no port changes hands between the read and the deletion, only mappings of the agent are
deleted; what is returned was deleted in any case. -/
theorem scoped_of_run {ls : List (PoolLabel ReleaseCall Redis.Oracle)}
    (h : Lts.Run (Pool.step Redis.exec (ReleaseCall.body unmarshal)) (Undisturbed unmarshal)
      (Pool.init store) ls s) : Scoped unmarshal store s := by
  have hi := inv_of_run h
  exact ⟨hi.owned, fun i fuel agentId ports hreturned port hport =>
    deleted_of_returned hi.pool hreturned hport⟩

/-- The port of agent `a` has been read by `releaseByAgent`; it is released and given to `agentId`,
and then the deletion follows. -/
def handover (agentId : String) : List (PoolLabel ReleaseCall Redis.Oracle) :=
  let mapping : String → PortMapping := fun agent => { agentId := agent, target := "web:80" }
  [.invoke (.port (.allocate 8000 8000 (mapping "a"))), .exec 0 ([], 0), .exec 0 ([], 0),
    .exec 0 ([], 0), .invoke (.releaseByAgent 1 "a"), .exec 1 ([portKey 8000], 0), .exec 1 ([], 0),
    .invoke (.port (.release 8000)), .exec 2 ([], 0), .exec 2 ([], 0),
    .invoke (.port (.allocate 8000 8000 (mapping agentId))), .exec 3 ([], 0), .exec 3 ([], 0),
    .exec 3 ([], 0), .exec 1 ([], 0), .exec 1 ([], 0)]

theorem scoped_of_run_same_agent : ∃ s : ReleasePool,
    Lts.Run (Pool.step Redis.exec (ReleaseCall.body PortMapping.unmarshal))
      (Undisturbed PortMapping.unmarshal) (Pool.init fun _ => none) (handover "a") s ∧
    s.result? 1 = some (.ports (some (.ok [8000]))) ∧
    Scoped PortMapping.unmarshal (fun _ => none) s := by
  let s := (Lts.execOk (Pool.step Redis.exec (ReleaseCall.body PortMapping.unmarshal))
    (Undisturbed PortMapping.unmarshal) (Pool.init fun _ => none) (handover "a")).get
      (by decide +kernel)
  have hrun := Lts.run_of_execOk (t := s) (Option.some_get _).symm
  exact ⟨s, hrun, by decide +kernel, scoped_of_run hrun⟩

/-- The mapping of another agent is deleted. -/
theorem releaseByAgent_foreign : ∃ s : ReleasePool,
    Lts.AnyRun (Pool.step Redis.exec (ReleaseCall.body PortMapping.unmarshal))
      (Pool.init fun _ => none) (handover "b") s ∧
    s.result? 1 = some (.ports (some (.ok [8000]))) ∧
    ¬ Scoped PortMapping.unmarshal (fun _ => none) s := by
  let s := (Lts.exec (Pool.step Redis.exec (ReleaseCall.body PortMapping.unmarshal))
    (Pool.init fun _ => none) (handover "b")).get (by decide +kernel)
  have hrun := Lts.anyRun_of_exec (t := s) (Option.some_get _).symm
  have hi : Pool.Inv Redis.exec (ReleaseCall.body PortMapping.unmarshal) (fun _ => none) s :=
    Pool.inv_of_run hrun
  refine ⟨s, hrun, by decide +kernel, fun hscoped => ?_⟩
  have howner : (Pool.stateAt Redis.exec (fun _ => none) s.log 10 (portKey 8000)).bind
      (ownerOf PortMapping.unmarshal) = some "b" := by decide +kernel
  have hdeletes : ReleasePool.Deletes s 10 1 "a" (portKey 8000) := by
    have hentry : s.log[10]?.map (fun e => (e.proc, e.cmd)) = some (1, .del (portKey 8000)) := by
      decide +kernel
    have hcall : s.procs[1]?.map Proc.call = some (.releaseByAgent 1 "a") := by decide +kernel
    obtain ⟨⟨i, o, c, r⟩, hlog, heq⟩ := Option.map_eq_some_iff.mp hentry
    obtain ⟨⟨call, prog⟩, hproc, rfl⟩ := Option.map_eq_some_iff.mp hcall
    obtain ⟨rfl, rfl⟩ := Prod.mk.inj heq
    have hsome : (Pool.stateAt Redis.exec (fun _ => none) s.log 10 (portKey 8000)).isSome = true := by
      decide +kernel
    obtain rfl : r = .ok 1 := (hi.answered_at hlog).trans (congrArg Except.ok (if_pos hsome))
    exact ⟨o, 1, prog, hlog, hproc⟩
  obtain ⟨value, hvalue, hown⟩ := hscoped.owned 10 1 "a" (portKey 8000) hdeletes
  rw [hvalue, Option.bind_some, hown] at howner
  exact absurd howner (by decide)

end ReleasePool
end Hostlink.Controller
