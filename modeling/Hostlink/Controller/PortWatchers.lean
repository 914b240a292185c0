import Hostlink.Lib.GoMap
import Hostlink.Lib.Run
import Hostlink.Lib.Slots
import Hostlink.Controller.PortStores

/-! The in-memory port store with those that watch it. A call changes the map under the store's lock
and signals the watchers after it; a signal is a token in a channel of capacity one, so signals that
are not received yet are one. A reconciler receives and then takes a snapshot of the store. -/

namespace Hostlink.Controller

/-- The channel of a watcher. `signals` counts what was put in it. -/
structure SignalChan where
  full : Bool := false
  signals : Nat := 0
  deriving DecidableEq, Repr

def SignalChan.trySend (ch : SignalChan) : SignalChan :=
  if ch.full then ch else ⟨true, ch.signals + 1⟩

/-- The `subs` map holds for each id the number of its watcher. -/
structure PortWatchers where
  next : Nat := 0
  closed : Bool := false
  subs : GoMap Nat Nat := .empty

namespace PortWatchers

/-- A watcher of a closed store has no id: its channel stays empty. -/
def watch (w : PortWatchers) (k : Nat) : Option Nat × PortWatchers :=
  if w.closed then (none, w)
  else (some w.next, { w with next := w.next + 1, subs := w.subs.insert w.next k })

def remove (w : PortWatchers) (id : Nat) : PortWatchers := { w with subs := w.subs.erase id }

def notified (w : PortWatchers) : List Nat := w.subs.keys.filterMap w.subs.get

def close (w : PortWatchers) : PortWatchers := { w with closed := true, subs := .empty }

theorem mem_notified {w : PortWatchers} {k : Nat} :
    k ∈ w.notified ↔ ∃ id, w.subs.get id = some k := by
  rw [notified, List.mem_filterMap]
  constructor
  · rintro ⟨id, -, hid⟩
    exact ⟨id, hid⟩
  · rintro ⟨id, hid⟩
    exact ⟨id, w.subs.covers id (by rw [hid]; exact Option.some_ne_none k), hid⟩

end PortWatchers

inductive WatcherPc where
  | desired
  | wait
  | stopped
  deriving DecidableEq, Repr

/-- Whoever called `watch`: `runPortReconciler`, or another that receives as it pleases. -/
structure PortWatcher where
  reconciles : Bool
  id : Option Nat
  pc : WatcherPc
  ch : SignalChan := {}
  snapshot : Option (GoMap Nat PortMapping) := none

/-- Where a call of the store is: before the lock, between the lock and `notify`, returned. -/
inductive CallStage where
  | mutate
  | notify
  | returned
  deriving DecidableEq, Repr

structure MutatorCall where
  call : StoreCall
  stage : CallStage := .mutate
  deriving DecidableEq, Repr

def MemPortStore.notifies (s : MemPortStore) : StoreCall → Bool
  | .allocate lo hi mapping =>
    match (s.allocate lo hi mapping).1 with
    | .ok _ => true
    | .error _ => false
  | .release port => (s.mappings.get port).isSome
  | .releaseByAgent agentId _ =>
    match (s.releaseByAgent agentId).1 with
    | .ok ports => !ports.isEmpty
    | .error _ => false
  | .lookup _ | .update _ _ | .desired _ => false

structure PortWatch where
  store : MemPortStore := {}
  watchers : PortWatchers := {}
  clients : List PortWatcher := []
  calls : List MutatorCall := []

inductive PortWatchLabel where
  | call (c : StoreCall)
  | mutate (j : Nat)
  | notify (j : Nat)
  | watch (reconciles : Bool)
  | desired (k : Nat)
  | receive (k : Nat)
  | tick (k : Nat)
  | stop (k : Nat)
  | close
  deriving DecidableEq, Repr

namespace PortWatch

def setCall (s : PortWatch) (j : Nat) (call : MutatorCall) : PortWatch :=
  { s with calls := s.calls.set j call }

def setClient (s : PortWatch) (k : Nat) (c : PortWatcher) : PortWatch :=
  { s with clients := s.clients.set k c }

def mutate (s : PortWatch) (j : Nat) (call : MutatorCall) : PortWatch :=
  { s.setCall j { call with stage := if s.store.notifies call.call then .notify else .returned } with
    store := (s.store.call call.call).2 }

/-- `notify` holds the lock of the watchers throughout. -/
def notify (s : PortWatch) : PortWatch :=
  { s with clients := s.clients.mapIdx fun k c =>
      if k ∈ s.watchers.notified then { c with ch := c.ch.trySend } else c }

def watch (s : PortWatch) (reconciles : Bool) : PortWatch :=
  let r := s.watchers.watch s.clients.length
  { s with
    watchers := r.2
    clients := s.clients ++
      [{ reconciles := reconciles, id := r.1, pc := if reconciles then .desired else .wait }] }

def stop (s : PortWatch) (k : Nat) (c : PortWatcher) : PortWatch :=
  { s.setClient k { c with pc := .stopped } with
    watchers := match c.id with
      | some id => s.watchers.remove id
      | none => s.watchers }

def stepClient (s : PortWatch) (k : Nat) (c : PortWatcher) : PortWatchLabel → Option PortWatch
  | .desired _ =>
    match c.pc with
    | .desired => some (s.setClient k { c with pc := .wait, snapshot := s.store.desired.toOption })
    | _ => none
  | .receive _ =>
    match c.pc with
    | .wait =>
      if c.ch.full then some (s.setClient k { c with
        pc := if c.reconciles then .desired else .wait
        ch := { c.ch with full := false } })
      else none
    | _ => none
  | .tick _ =>
    match c.pc with
    | .wait => if c.reconciles then some (s.setClient k { c with pc := .desired }) else none
    | _ => none
  | .stop _ =>
    match c.pc with
    | .wait => some (s.stop k c)
    | _ => none
  | _ => none

def step (s : PortWatch) : PortWatchLabel → Option PortWatch
  | .call c => some { s with calls := s.calls ++ [{ call := c }] }
  | .mutate j => (s.calls[j]?).bind fun call =>
      if call.stage = .mutate then some (s.mutate j call) else none
  | .notify j => (s.calls[j]?).bind fun call =>
      if call.stage = .notify then some (s.notify.setCall j { call with stage := .returned }) else none
  | .watch reconciles => some (s.watch reconciles)
  | l@(.desired k) | l@(.receive k) | l@(.tick k) | l@(.stop k) =>
    (s.clients[k]?).bind fun c => s.stepClient k c l
  | .close => some { s with watchers := s.watchers.close }

end PortWatch
end Hostlink.Controller
