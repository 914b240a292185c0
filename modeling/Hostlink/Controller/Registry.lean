import Hostlink.Lib.Run
import Hostlink.Lib.Redis

/-! The agents each pod holds, and the directory in Redis that says which pod holds an agent. A
Control stream is served by one goroutine, so its steps come in order; its change of the local map,
its Redis command and the closing of the connection it displaced are separate steps, between which
the other streams run. A connection is named by the number of its stream. -/

namespace Hostlink.Controller

def mappingKeyPrefix : String := "hostlink:agent:"

def mappingKey (agentId : String) : String := mappingKeyPrefix ++ agentId

theorem mappingKey_inj {a b : String} : mappingKey a = mappingKey b ↔ a = b := by
  constructor
  · intro h
    have hl := congrArg String.toList h
    rw [mappingKey, mappingKey, String.toList_append, String.toList_append,
      List.append_cancel_left_eq] at hl
    exact String.toList_inj.mp hl
  · rintro rfl
    rfl

def dropMappingScript (redis : RedisKeys) (key addr : String) : RedisKeys :=
  if redis.get key = some addr then redis.erase key else redis

structure Registry where
  selfAddr : String
  agents : GoMap String Nat := .empty

namespace Registry

/-- Without Redis (single-replica mode) there is no directory to write. -/
def writeMapping (r : Registry) (redis : Option RedisKeys) (agentId : String) : Option RedisKeys :=
  redis.map fun keys => keys.insert (mappingKey agentId) r.selfAddr

def dropMapping (r : Registry) (redis : Option RedisKeys) (agentId : String) : Option RedisKeys :=
  redis.map fun keys => dropMappingScript keys (mappingKey agentId) r.selfAddr

/-- The part of `add` under the lock, with the connection it displaced. -/
def addLocal (r : Registry) (agentId : String) (c : Nat) : Option Nat × Registry :=
  (r.agents.get agentId, { r with agents := r.agents.insert agentId c })

/-- The part of `remove` under the lock, and whether the entry was this connection. -/
def removeLocal (r : Registry) (agentId : String) (c : Nat) : Bool × Registry :=
  if r.agents.get agentId = some c then (true, { r with agents := r.agents.erase agentId })
  else (false, r)

@[simp] theorem selfAddr_removeLocal (r : Registry) (agentId : String) (c : Nat) :
    (r.removeLocal agentId c).2.selfAddr = r.selfAddr := by
  unfold removeLocal
  split <;> rfl

end Registry

def mapping (redis : Option RedisKeys) (agentId : String) : Option String :=
  redis.bind fun keys => keys.get (mappingKey agentId)

def locate (redis : Option RedisKeys) (agentId : String) : String := (mapping redis agentId).getD ""

section Mapping
variable {redis : Option RedisKeys} {r : Registry} {a b : String}

theorem mapping_writeMapping_self (h : redis.isSome) :
    mapping (r.writeMapping redis a) a = some r.selfAddr := by
  obtain ⟨keys, rfl⟩ := Option.isSome_iff_exists.mp h
  exact GoMap.get_insert_self ..

theorem mapping_writeMapping_of_ne (h : b ≠ a) :
    mapping (r.writeMapping redis a) b = mapping redis b := by
  cases redis with
  | none => rfl
  | some keys => exact GoMap.get_insert_of_ne keys (fun heq => h (mappingKey_inj.mp heq)) _

theorem mapping_dropMapping (h : b = a → mapping redis a ≠ some r.selfAddr) :
    mapping (r.dropMapping redis a) b = mapping redis b := by
  cases redis with
  | none => rfl
  | some keys =>
    change (dropMappingScript keys (mappingKey a) r.selfAddr).get (mappingKey b) = _
    unfold dropMappingScript
    split
    · next hk =>
      refine GoMap.get_erase_of_ne keys fun heq => ?_
      exact h (mappingKey_inj.mp heq) hk
    · rfl

end Mapping

inductive ControlPc where
  | recv
  | add (replaced : Option Nat)
  | closeReplaced (c : Nat)
  | refresh
  | remove
  | drop
  | closeAll
  | done
  deriving DecidableEq, Repr

/-- `registered` says that `conn` is not nil. -/
structure ControlStream where
  pod : Nat
  agentId : String
  registered : Bool := false
  pc : ControlPc := .recv
  deriving DecidableEq, Repr

inductive ControlLabel where
  | hello
  | heartbeat
  | recvErr
  | advance
  deriving DecidableEq, Repr

/-- What a step of stream `i` leaves behind: its pod's registry, Redis, itself, and the connection
whose `closeAll` ran. -/
structure ControlStep where
  registry : Registry
  redis : Option RedisKeys
  stream : ControlStream
  closed : Option Nat := none

namespace ControlStream

def step (r : Registry) (redis : Option RedisKeys) (i : Nat) (st : ControlStream) :
    ControlLabel → Option ControlStep
  | .hello =>
    match st.pc with
    | .recv =>
      -- a second Hello on the stream is ignored
      if st.registered then some ⟨r, redis, st, none⟩
      else
        let (replaced, r) := r.addLocal st.agentId i
        some ⟨r, redis, { st with registered := true, pc := .add replaced }, none⟩
    | _ => none
  | .heartbeat =>
    match st.pc with
    | .recv => some ⟨r, redis, if st.registered then { st with pc := .refresh } else st, none⟩
    | _ => none
  | .recvErr =>
    match st.pc with
    | .recv => some ⟨r, redis, { st with pc := if st.registered then .remove else .done }, none⟩
    | _ => none
  | .advance =>
    match st.pc with
    | .add replaced =>
      let next : ControlPc := match replaced with
        | some c => .closeReplaced c
        | none => .recv
      some ⟨r, r.writeMapping redis st.agentId, { st with pc := next }, none⟩
    | .closeReplaced c => some ⟨r, redis, { st with pc := .recv }, some c⟩
    | .refresh => some ⟨r, r.writeMapping redis st.agentId, { st with pc := .recv }, none⟩
    | .remove =>
      let (removed, r) := r.removeLocal st.agentId i
      some ⟨r, redis, { st with pc := if removed then .drop else .closeAll }, none⟩
    | .drop => some ⟨r, r.dropMapping redis st.agentId, { st with pc := .closeAll }, none⟩
    | .closeAll => some ⟨r, redis, { st with pc := .done }, some i⟩
    | .recv | .done => none

def published (st : ControlStream) : Bool :=
  st.registered && match st.pc with
    | .add _ => false
    | _ => true

def isOpen (st : ControlStream) : Bool :=
  match st.pc with
  | .recv | .add _ | .closeReplaced _ | .refresh => true
  | .remove | .drop | .closeAll | .done => false

def Inv (st : ControlStream) : Prop := st.registered = false → st.pc = .recv ∨ st.pc = .done

def sets (st : ControlStream) : Bool :=
  match st.pc with
  | .add _ | .refresh => true
  | _ => false

theorem step_cases {r : Registry} {redis : Option RedisKeys} {i : Nat} {st : ControlStream}
    {l : ControlLabel} {e : ControlStep} (hi : st.Inv) (h : st.step r redis i l = some e) :
    e.registry.selfAddr = r.selfAddr ∧ e.stream.pod = st.pod ∧ e.stream.agentId = st.agentId ∧
    e.stream.Inv ∧
      ((e.redis = redis ∧ e.stream.published = st.published ∧
          (e.stream.isOpen = true → st.isOpen = true)) ∨
        (l = .advance ∧ st.sets = true ∧ e.redis = r.writeMapping redis st.agentId ∧
          e.stream.published = true) ∨
        (l = .advance ∧ st.pc = .drop ∧ e.redis = r.dropMapping redis st.agentId ∧
          st.published = true ∧ e.stream.published = true ∧ e.stream.isOpen = false)) := by
  -- every step away from `Recv` is taken by a registered stream
  have hreg : st.pc ≠ .recv → st.pc ≠ .done → st.registered = true := by
    intro hr hd
    by_contra hn
    exact (hi (Bool.eq_false_iff.mpr hn)).elim hr hd
  cases l with
  | hello =>
    simp only [step] at h
    split at h
    · next hpc =>
      split at h
      · cases h
        exact ⟨rfl, rfl, rfl, hi, .inl ⟨rfl, rfl, id⟩⟩
      · next hn =>
        cases h
        refine ⟨rfl, rfl, rfl, fun hf => (Bool.noConfusion hf), .inl ⟨rfl, ?_, ?_⟩⟩
        · simp [published, hn]
        · simp [isOpen, hpc]
    · cases h
  | heartbeat =>
    simp only [step] at h
    split at h
    · next hpc =>
      cases h
      split
      · next hr => exact ⟨rfl, rfl, rfl, fun hf => by simp [hr] at hf,
          .inl ⟨rfl, by simp [published, hpc], by simp [isOpen, hpc]⟩⟩
      · exact ⟨rfl, rfl, rfl, hi, .inl ⟨rfl, rfl, id⟩⟩
    · cases h
  | recvErr =>
    simp only [step] at h
    split at h
    · next hpc =>
      cases h
      refine ⟨rfl, rfl, rfl, fun hf => .inr (by simp_all), .inl ⟨rfl, ?_, ?_⟩⟩
      · cases hr : st.registered <;> simp [published, hr, hpc]
      · simp [isOpen, hpc]
    · cases h
  | advance =>
    simp only [step] at h
    split at h
    · next replaced hpc =>
      cases h
      have hr := hreg (by simp [hpc]) (by simp [hpc])
      refine ⟨rfl, rfl, rfl, fun hf => by simp [hr] at hf,
        .inr (.inl ⟨rfl, by simp [sets, hpc], rfl, ?_⟩)⟩
      cases replaced <;> simp [published, hr]
    · next c hpc =>
      cases h
      have hr := hreg (by simp [hpc]) (by simp [hpc])
      exact ⟨rfl, rfl, rfl, fun hf => by simp [hr] at hf,
        .inl ⟨rfl, by simp [published, hpc], by simp [isOpen, hpc]⟩⟩
    · next hpc =>
      cases h
      have hr := hreg (by simp [hpc]) (by simp [hpc])
      exact ⟨rfl, rfl, rfl, fun hf => by simp [hr] at hf,
        .inr (.inl ⟨rfl, by simp [sets, hpc], rfl, by simp [published, hr]⟩)⟩
    · next hpc =>
      cases h
      have hr := hreg (by simp [hpc]) (by simp [hpc])
      refine ⟨Registry.selfAddr_removeLocal .., rfl, rfl, fun hf => by simp [hr] at hf,
        .inl ⟨rfl, ?_, ?_⟩⟩
      · split <;> simp [published, hpc]
      · split <;> simp [isOpen]
    · next hpc =>
      cases h
      have hr := hreg (by simp [hpc]) (by simp [hpc])
      exact ⟨rfl, rfl, rfl, fun hf => by simp [hr] at hf,
        .inr (.inr ⟨rfl, hpc, rfl, by simp [published, hr, hpc], by simp [published, hr], rfl⟩)⟩
    · next hpc =>
      cases h
      exact ⟨rfl, rfl, rfl, fun hf => .inr rfl, .inl ⟨rfl, by simp [published, hpc],
        by simp [isOpen]⟩⟩
    · cases h
    · cases h

end ControlStream
end Hostlink.Controller
