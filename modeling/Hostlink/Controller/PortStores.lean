import Mathlib.Data.List.Dedup
import Hostlink.Lib.Run
import Hostlink.Controller.Ports

/-! The in-memory port store, and calls made one at a time to it and to the store in Redis. -/

namespace Hostlink.Controller

structure MemPortStore (μ : Type := PortMapping) where
  mappings : GoMap Nat μ := .empty

namespace MemPortStore
variable {μ : Type}

/-- The loop of `allocate`; the fuel is the size of the range. -/
def firstFree (s : MemPortStore μ) (hi : Nat) : Nat → Nat → Except GoError Nat
  | 0, _ => .error errPortRangeExhausted
  | fuel + 1, port =>
    if (s.mappings.get port).isNone then .ok port
    else if port = hi then .error errPortRangeExhausted
    else firstFree s hi fuel (port + 1)

def allocate (s : MemPortStore μ) (lo hi : Nat) (mapping : μ) : Except GoError Nat × MemPortStore μ :=
  match validatePortRange lo hi with
  | .error err => (.error err, s)
  | .ok () =>
    match s.firstFree hi (hi + 1 - lo) lo with
    | .ok port => (.ok port, ⟨s.mappings.insert port mapping⟩)
    | .error err => (.error err, s)

def release (s : MemPortStore μ) (port : Nat) : Except GoError Unit × MemPortStore μ :=
  (.ok (), ⟨s.mappings.erase port⟩)

def lookup (s : MemPortStore μ) (port : Nat) : Except GoError μ :=
  match s.mappings.get port with
  | some mapping => .ok mapping
  | none => .error errPortNotFound

def update (s : MemPortStore μ) (port : Nat) (mapping : μ) : Except GoError Unit × MemPortStore μ :=
  match s.mappings.get port with
  | some _ => (.ok (), ⟨s.mappings.insert port mapping⟩)
  | none => (.error errPortNotFound, s)

def desired (s : MemPortStore μ) : Except GoError (GoMap Nat μ) := .ok s.mappings

/-- A map is ranged over in any order. -/
def releaseByAgent (s : MemPortStore) (agentId : String) : Except GoError (List Nat) × MemPortStore :=
  (.ok (s.mappings.keys.dedup.filter fun port => (s.mappings.get port).any (·.agentId = agentId)),
    ⟨s.mappings.filterMap fun _ mapping => if mapping.agentId = agentId then none else some mapping⟩)

end MemPortStore

/-- A call of a `portStore`, with what Redis answers the SCAN calls made by it. -/
inductive StoreCall where
  | allocate (lo hi : Nat) (mapping : PortMapping)
  | release (port : Nat)
  | lookup (port : Nat)
  | update (port : Nat) (mapping : PortMapping)
  | desired (pages : List Redis.Oracle)
  | releaseByAgent (agentId : String) (pages : List Redis.Oracle)
  deriving DecidableEq, Repr

/-- What a call returns; without a result it is still waiting for the end of a SCAN. -/
inductive StoreResult where
  | port (r : Except GoError Nat)
  | done (r : Except GoError Unit)
  | mapping (r : Except GoError PortMapping)
  | mappings (r : Option (Except GoError (GoMap Nat PortMapping)))
  | ports (r : Option (Except GoError (List Nat)))

def StoreResult.Agrees : StoreResult → StoreResult → Prop
  | .port r, .port r' => r = r'
  | .done r, .done r' => r = r'
  | .mapping r, .mapping r' => r = r'
  | .mappings (some (.ok m)), .mappings (some (.ok m')) => m.get = m'.get
  | .ports (some (.ok l)), .ports (some (.ok l')) => l.Perm l'
  | _, _ => False

def MemPortStore.call (s : MemPortStore) : StoreCall → StoreResult × MemPortStore
  | .allocate lo hi mapping => let r := s.allocate lo hi mapping; (.port r.1, r.2)
  | .release port => let r := s.release port; (.done r.1, r.2)
  | .lookup port => (.mapping (s.lookup port), s)
  | .update port mapping => let r := s.update port mapping; (.done r.1, r.2)
  | .desired _ => (.mappings (some s.desired), s)
  | .releaseByAgent agentId _ => let r := s.releaseByAgent agentId; (.ports (some r.1), r.2)

namespace RedisPortStore
variable (unmarshal : String → Except GoError PortMapping)

def body : StoreCall → M StoreResult
  | .allocate lo hi mapping => do
    let r ← allocate lo hi mapping
    pure (.port r)
  | .release port => do
    let r ← release port
    pure (.done r)
  | .lookup port => do
    let r ← lookup unmarshal port
    pure (.mapping r)
  | .update port mapping => do
    let r ← update port mapping
    pure (.done r)
  | .desired pages => do
    let r ← desired unmarshal pages.length
    pure (.mappings r)
  | .releaseByAgent agentId pages => do
    let r ← releaseByAgent unmarshal pages.length agentId
    pure (.ports r)

def pages : StoreCall → List Redis.Oracle
  | .desired pages | .releaseByAgent _ pages => pages
  | .allocate _ _ _ | .release _ | .lookup _ | .update _ _ => []

def call (s : Redis.Store) (c : StoreCall) : StoreResult × Redis.Store :=
  let r := (body unmarshal c).eval Redis.Server.exec ⟨s, pages c⟩
  (r.1, r.2.store)

end RedisPortStore

structure PortStores where
  mem : MemPortStore := {}
  redis : Redis.Store

namespace PortStores

def step (unmarshal : String → Except GoError PortMapping) (s : PortStores) (c : StoreCall) :
    Option PortStores :=
  some ⟨(s.mem.call c).2, (RedisPortStore.call unmarshal s.redis c).2⟩

/-- SCAN as Redis documents it, for keys that nobody else touches. -/
def Scans (s : PortStores) : StoreCall → Prop
  | .desired pages | .releaseByAgent _ pages => Redis.FullScan s.redis portKeyPrefix pages
  | .allocate _ _ _ | .release _ | .lookup _ | .update _ _ => True

end PortStores

def lowestFree (mappings : GoMap Nat PortMapping) (lo hi : Nat) : Except GoError Nat :=
  match (List.range' lo (hi + 1 - lo)).find? fun port => (mappings.get port).isNone with
  | some port => .ok port
  | none => .error errPortRangeExhausted

end Hostlink.Controller
