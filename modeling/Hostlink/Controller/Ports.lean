import Hostlink.Lib.GoJson
import Hostlink.Lib.GoMap
import Hostlink.Lib.GoStrings
import Hostlink.Lib.Redis
import Hostlink.Lib.Strconv

/-! The Redis-backed port store: one key per public port, claimed with SETNX. -/

namespace Hostlink.Controller
open Prog

def portKeyPrefix : String := "hostlink:port:"
def portChangesChannel : String := "hostlink:ports"
def portScanBatchSize : Nat := 100
def maximumPublicPort : Nat := 65535

def errPortRangeExhausted : GoError := .new "port range exhausted"
def errPortNotFound : GoError := .new "port mapping not found"

structure PortMapping where
  agentId : String
  target : String
  containerId : String := ""
  suspended : Bool := false
  deriving DecidableEq, Repr

/-- `json.Marshal` of a mapping; empty `omitempty` fields are left out. -/
def PortMapping.marshal (m : PortMapping) : String :=
  "\x7b\"agent_id\":" ++ GoJson.quote m.agentId ++ ",\"target\":" ++ GoJson.quote m.target ++
    (if m.containerId = "" then "" else ",\"container_id\":" ++ GoJson.quote m.containerId) ++
    (if m.suspended then ",\"suspended\":true" else "") ++ "\x7d"

def validatePortRange (lo hi : Nat) : Except GoError Unit :=
  if lo = 0 ∨ hi > maximumPublicPort ∨ lo > hi then .error (.new s!"invalid port range {lo}-{hi}")
  else .ok ()

def portKey (port : Nat) : String := portKeyPrefix ++ Strconv.formatUint port

def portFromKey (key : String) : Except GoError Nat :=
  if GoStrings.hasPrefix key portKeyPrefix then
    match Strconv.parseUint (GoStrings.trimPrefix key portKeyPrefix) 16 with
    | .error err => .error (.wrap ("parse port key \"" ++ key ++ "\"") err)
    | .ok 0 => .error (.new ("invalid port key \"" ++ key ++ "\""))
    | .ok port => .ok port
  else .error (.new ("invalid port key \"" ++ key ++ "\""))

theorem portKey_injective : Function.Injective portKey := by
  intro p q h
  exact Strconv.formatUint_injective ((String.append_right_inj _).mp h)

namespace RedisPortStore

abbrev M := Prog Redis.Reply

/-- A failed publish is only logged. -/
def changed : M Unit := do
  let _ ← perform (R := Redis.Reply) (.publish portChangesChannel "1")
  pure ()

/-- The inner loop of `allocate`, over one batch of MGET values. Without a result the scan goes
on with the next batch. -/
def claimCandidates (encodedMapping : String) (start : Nat) :
    Nat → List (Option String) → M (Option (Except GoError Nat))
  | _, [] => pure none
  | index, some _ :: values => claimCandidates encodedMapping start (index + 1) values
  | index, none :: values => do
    let port := start + index
    match ← perform (R := Redis.Reply) (.setNX (portKey port) encodedMapping) with
    | .error err => pure (some (.error (.wrap s!"claim port {port} in redis" err)))
    | .ok true =>
      changed
      pure (some (.ok port))
    -- another replica was faster
    | .ok false => claimCandidates encodedMapping start (index + 1) values

/-- The outer loop of `allocate`. The fuel bounds its iterations: `start` grows with each. -/
def scanPorts (encodedMapping : String) (hi : Nat) : Nat → Nat → M (Except GoError Nat)
  | 0, _ => pure (.error errPortRangeExhausted)
  | fuel + 1, start =>
    if start ≤ hi then do
      let last := min (start + portScanBatchSize - 1) hi
      let keys := (List.range' start (last - start + 1)).map portKey
      match ← perform (R := Redis.Reply) (.mget keys) with
      | .error err => pure (.error (.wrap "find free ports in redis" err))
      | .ok values =>
        match ← claimCandidates encodedMapping start 0 values with
        | some result => pure result
        | none =>
          if last = hi then pure (.error errPortRangeExhausted)
          else scanPorts encodedMapping hi fuel (last + 1)
    else pure (.error errPortRangeExhausted)

def allocate (lo hi : Nat) (mapping : PortMapping) : M (Except GoError Nat) :=
  match validatePortRange lo hi with
  | .error err => pure (.error err)
  | .ok () => scanPorts mapping.marshal hi (hi + 1 - lo) lo

def release (port : Nat) : M (Except GoError Unit) := do
  match ← perform (R := Redis.Reply) (.del (portKey port)) with
  | .error err => pure (.error (.wrap s!"release port {port} from redis" err))
  | .ok deleted =>
    if deleted ≠ 0 then changed
    pure (.ok ())

def update (port : Nat) (mapping : PortMapping) : M (Except GoError Unit) := do
  match ← perform (R := Redis.Reply) (.setXX (portKey port) mapping.marshal) with
  | .error err => pure (.error (.wrap s!"update port {port} in redis" err))
  | .ok false => pure (.error errPortNotFound)
  | .ok true => pure (.ok ())

/-- `decodePortMapping`; `unmarshal` is `json.Unmarshal` into a mapping. -/
def decodePortMapping (unmarshal : String → Except GoError PortMapping) (value : String) :
    Except GoError PortMapping :=
  (unmarshal value).mapError (.wrap "unmarshal port mapping")

/-- The loop of `keys`. The fuel bounds the number of SCAN calls; without enough of it there is no
result. -/
def keys : Nat → Nat → List String → M (Option (Except GoError (List String)))
  | 0, _, _ => pure none
  | fuel + 1, cursor, keysSoFar => do
    match ← perform (R := Redis.Reply) (.scan cursor (portKeyPrefix ++ "*") portScanBatchSize) with
    | .error err => pure (some (.error (.wrap "scan port mappings in redis" err)))
    | .ok (batch, next) =>
      let keysSoFar := keysSoFar ++ batch
      if next = 0 then pure (some (.ok keysSoFar)) else keys fuel next keysSoFar

section Decoding
variable (unmarshal : String → Except GoError PortMapping)

def lookup (port : Nat) : M (Except GoError PortMapping) := do
  match ← perform (R := Redis.Reply) (.get (portKey port)) with
  | .error err => pure (.error (.wrap s!"lookup port {port} in redis" err))
  | .ok none => pure (.error errPortNotFound)
  | .ok (some value) => pure (decodePortMapping unmarshal value)

/-- The inner loop of `desired`, over the keys of one batch and their values. -/
def decodeBatch : List (String × Option String) → GoMap Nat PortMapping →
    Except GoError (GoMap Nat PortMapping)
  | [], mappings => .ok mappings
  | (_, none) :: batch, mappings => decodeBatch batch mappings
  | (key, some raw) :: batch, mappings =>
    match portFromKey key with
    | .error err => .error err
    | .ok port =>
      match decodePortMapping unmarshal raw with
      | .error err => .error (.wrap s!"decode port {port} mapping" err)
      | .ok mapping => decodeBatch batch (mappings.insert port mapping)

/-- The outer loop of `desired`. -/
def getBatches : List (List String) → GoMap Nat PortMapping →
    M (Except GoError (GoMap Nat PortMapping))
  | [], mappings => pure (.ok mappings)
  | batch :: batches, mappings => do
    match ← perform (R := Redis.Reply) (.mget batch) with
    | .error err => pure (.error (.wrap "get port mappings from redis" err))
    | .ok values =>
      match decodeBatch unmarshal (batch.zip values) mappings with
      | .error err => pure (.error err)
      | .ok mappings => getBatches batches mappings

def desired (fuel : Nat) : M (Option (Except GoError (GoMap Nat PortMapping))) := do
  match ← keys fuel 0 [] with
  | none => pure none
  | some (.error err) => pure (some (.error err))
  | some (.ok keys) =>
    let r ← getBatches unmarshal (keys.batches portScanBatchSize keys.length) .empty
    pure (some r)

/-- The loop of `releaseByAgent`. -/
def releaseKeys (agentId : String) : List String → List Nat → M (Except GoError (List Nat))
  | [], ports => pure (.ok ports)
  | key :: keys, ports => do
    match ← perform (R := Redis.Reply) (.get key) with
    | .error err => pure (.error (.wrap ("get port mapping \"" ++ key ++ "\" from redis") err))
    | .ok none => releaseKeys agentId keys ports
    | .ok (some value) =>
      match decodePortMapping unmarshal value with
      | .error err => pure (.error (.wrap ("decode port mapping \"" ++ key ++ "\"") err))
      | .ok mapping =>
        if mapping.agentId ≠ agentId then releaseKeys agentId keys ports
        else
          match portFromKey key with
          | .error err => pure (.error err)
          | .ok port =>
            match ← perform (R := Redis.Reply) (.del key) with
            | .error err => pure (.error (.wrap s!"release port {port} from redis" err))
            | .ok deleted =>
              if deleted ≠ 0 then
                changed
                releaseKeys agentId keys (ports ++ [port])
              else releaseKeys agentId keys ports

def releaseByAgent (fuel : Nat) (agentId : String) : M (Option (Except GoError (List Nat))) := do
  match ← keys fuel 0 [] with
  | none => pure none
  | some (.error err) => pure (some (.error err))
  | some (.ok keys) =>
    let r ← releaseKeys unmarshal agentId keys []
    pure (some r)

end Decoding

end RedisPortStore
end Hostlink.Controller
