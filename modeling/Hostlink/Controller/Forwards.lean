import Hostlink.Controller.Bindings
import Hostlink.Controller.ForwardTarget
import Hostlink.Controller.PortsAgree
import Hostlink.Lib.Utf8

/-! The REST API of the forwarded ports over either port store, and how far it is a map from ports to
mappings. -/

namespace Hostlink.Controller

/-- A `portMapping` of a handler. The agent id comes from the path of the URL and may be any bytes; the
other texts come from a JSON body. -/
structure ForwardMapping where
  agentId : List UInt8
  target : String
  containerId : String := ""
  suspended : Bool := false
  deriving DecidableEq, Repr

/-- What a JSON text has for the bytes of a Go string. -/
def jsonText (bytes : List UInt8) : List Char := GoJson.readable (Utf8.runes bytes)

def ForwardMapping.text (m : ForwardMapping) : PortMapping :=
  { agentId := .ofList (jsonText m.agentId), target := m.target, containerId := m.containerId
    suspended := m.suspended }

def PortMapping.bytes (m : PortMapping) : ForwardMapping :=
  { agentId := Utf8.encode m.agentId.toList, target := m.target, containerId := m.containerId
    suspended := m.suspended }

def texts (mappings : GoMap Nat ForwardMapping) : GoMap Nat PortMapping :=
  mappings.filterMap fun _ m => some m.text

/-- The store in memory keeps a mapping as it is, the store in Redis its JSON text. -/
inductive PortStore where
  | mem (s : MemPortStore ForwardMapping)
  | redis (s : Redis.Store)

namespace PortStore

def allocate (lo hi : Nat) (mapping : ForwardMapping) : PortStore → Except GoError Nat × PortStore
  | .mem s => let r := s.allocate lo hi mapping; (r.1, .mem r.2)
  | .redis s =>
    let r := (RedisPortStore.allocate lo hi mapping.text).eval Redis.Server.exec ⟨s, []⟩
    (r.1, .redis r.2.store)

def release (port : Nat) : PortStore → Except GoError Unit × PortStore
  | .mem s => let r := s.release port; (r.1, .mem r.2)
  | .redis s =>
    let r := (RedisPortStore.release port).eval Redis.Server.exec ⟨s, []⟩
    (r.1, .redis r.2.store)

/-- Without a result Redis has not ended its SCAN with these pages. -/
def desired (pages : List Redis.Oracle) :
    PortStore → Option (Except GoError (GoMap Nat ForwardMapping))
  | .mem s => some s.desired
  | .redis s =>
    let r := (RedisPortStore.desired PortMapping.unmarshal pages.length).eval
      Redis.Server.exec ⟨s, pages⟩
    r.1.map fun r => r.map fun mappings => mappings.filterMap fun _ m => some m.bytes

/-- What the store makes of an agent id. -/
def keptId : PortStore → List UInt8 → List UInt8
  | .mem _, id => id
  | .redis _, id => Utf8.encode (jsonText id)

end PortStore

structure CreateForwardRequest where
  target : String
  containerId : String := ""
  port : Nat := 0
  deriving DecidableEq, Repr

def CreateForwardRequest.mapping (request : CreateForwardRequest) (agentId : List UInt8) : ForwardMapping :=
  { agentId := agentId, target := request.target, containerId := request.containerId }

/-- A response as its JSON text says it. A missing state is the empty text of Go's zero value. -/
@[ext]
structure ForwardResponse where
  port : Nat
  state : Option PortState
  mapping : PortMapping
  deriving DecidableEq, Repr

inductive ForwardReply where
  | error (status : Nat) (text : String)
  | created (response : ForwardResponse)
  | listed (responses : List ForwardResponse)
  | noContent
  | waiting
  deriving DecidableEq, Repr

/-- What a list request finds outside of the store's keys: the pages of the store's SCAN and the
bindings of the ports. -/
structure ListEnv where
  pages : List Redis.Oracle := []
  bindings : BindingTracker := .absent

/-- A request as its handler gets it; a body that is no JSON object for the request is an error. -/
inductive ForwardRequest where
  | create (agentId : List UInt8) (body : Except GoError CreateForwardRequest)
  | delete (portText : String)
  | listAgent (agentId : List UInt8) (env : ListEnv)
  | listAll (env : ListEnv)

structure ForwardService where
  store : Option PortStore
  rangeFrom : Nat
  rangeTo : Nat

section Responses
variable (mappings : GoMap Nat ForwardMapping) (states : GoMap Nat PortState) (agentId : List UInt8)

/-- A turn of the loop of `forwardResponses`, with what it appends. -/
def responseFor (port : Nat) : Option ForwardResponse :=
  (mappings.get port).bind fun mapping =>
    if agentId ≠ [] ∧ mapping.agentId ≠ agentId then none
    else some ⟨port, states.get port, mapping.text⟩

def collectResponses (order : List Nat) : List ForwardResponse :=
  order.filterMap (responseFor mappings states agentId)

def sortResponses (responses : List ForwardResponse) : List ForwardResponse :=
  responses.insertionSort fun a b => a.port ≤ b.port

def forwardResponses : List ForwardResponse :=
  sortResponses (collectResponses mappings states agentId mappings.present)

end Responses

def forwardingDisabled : ForwardReply := .error 503 "port forwarding is disabled"

def writeAllocateForwardError (err : GoError) (requested : Nat) : ForwardReply :=
  if err.is errPortRangeExhausted ∧ requested ≠ 0 then .error 409 "requested port already in use"
  else if err.is errPortRangeExhausted then .error 409 "no free port in range"
  else .error 502 "allocate forward port failed"

namespace ForwardService

def bindCreateForwardRequest (svc : ForwardService) :
    Except GoError CreateForwardRequest → Except ForwardReply CreateForwardRequest
  | .error _ => .error (.error 400 "invalid JSON body")
  | .ok request =>
    if ¬validForwardTarget request.target then .error (.error 400 "invalid target")
    else if request.port ≠ 0 ∧ (request.port < svc.rangeFrom ∨ request.port > svc.rangeTo) then
      .error (.error 400 s!"port must be within {svc.rangeFrom}-{svc.rangeTo}")
    else .ok request

def allocationRange (svc : ForwardService) (requested : Nat) : Nat × Nat :=
  if requested ≠ 0 then (requested, requested) else (svc.rangeFrom, svc.rangeTo)

def createForward (svc : ForwardService) (agentId : List UInt8)
    (body : Except GoError CreateForwardRequest) : ForwardReply × ForwardService :=
  match svc.store with
  | none => (forwardingDisabled, svc)
  | some store =>
    match svc.bindCreateForwardRequest body with
    | .error reply => (reply, svc)
    | .ok request =>
      let mapping := request.mapping agentId
      let range := svc.allocationRange request.port
      let r := store.allocate range.1 range.2 mapping
      match r.1 with
      | .error err => (writeAllocateForwardError err request.port, { svc with store := some r.2 })
      | .ok port => (.created ⟨port, some .pending, mapping.text⟩, { svc with store := some r.2 })

def deleteForward (svc : ForwardService) (portText : String) : ForwardReply × ForwardService :=
  match svc.store with
  | none => (forwardingDisabled, svc)
  | some store =>
    match Strconv.parseUint portText 32 with
    | .error _ => (.error 400 "invalid port", svc)
    | .ok port =>
      if port = 0 ∨ port > 65535 then (.error 400 "invalid port", svc)
      else
        let r := store.release port
        match r.1 with
        | .error err =>
          (if err.is errPortNotFound then .error 404 "forward not found"
            else .error 502 "release forward port failed", { svc with store := some r.2 })
        | .ok () => (.noContent, { svc with store := some r.2 })

/-- `fetchForwards`, with what its caller makes of the mappings and their states. The states depend on no
agent id. -/
def fetchForwards (svc : ForwardService) (env : ListEnv)
    (respond : GoMap Nat ForwardMapping → GoMap Nat PortState → ForwardReply) : ForwardReply :=
  match svc.store with
  | none => forwardingDisabled
  | some store =>
    match store.desired env.pages with
    | none => .waiting
    | some (.error _) => .error 502 "list forwards failed"
    | some (.ok mappings) =>
      match env.bindings.states (texts mappings) with
      | .error _ => .error 502 "list forwards failed"
      | .ok states => respond mappings states

def listAgentForwards (svc : ForwardService) (agentId : List UInt8) (env : ListEnv) : ForwardReply :=
  svc.fetchForwards env fun mappings states => .listed (forwardResponses mappings states agentId)

def listAllForwards (svc : ForwardService) (env : ListEnv) : ForwardReply :=
  svc.fetchForwards env fun mappings states => .listed (forwardResponses mappings states [])

def serve (svc : ForwardService) : ForwardRequest → ForwardReply × ForwardService
  | .create agentId body => svc.createForward agentId body
  | .delete portText => svc.deleteForward portText
  | .listAgent agentId env => (svc.listAgentForwards agentId env, svc)
  | .listAll env => (svc.listAllForwards env, svc)

end ForwardService

/-! ### The map that the clients see -/

/-- What a request and its reply tell about the mappings: created with 201, deleted with 204. -/
def notedMappings (mapped : GoMap Nat ForwardMapping) :
    ForwardRequest → ForwardReply → GoMap Nat ForwardMapping
  | .create agentId (.ok request), .created response =>
    mapped.insert response.port (request.mapping agentId)
  | .delete portText, .noContent => mapped.erase (Strconv.value portText)
  | _, _ => mapped

structure ForwardApi where
  svc : ForwardService
  mapped : GoMap Nat ForwardMapping := .empty

def ForwardApi.step (s : ForwardApi) (request : ForwardRequest) : Option ForwardApi :=
  let r := s.svc.serve request
  some ⟨r.2, notedMappings s.mapped request r.1⟩

structure ListsMappings (mapped : GoMap Nat ForwardMapping) (P : ForwardMapping → Prop)
    (responses : List ForwardResponse) : Prop where
  ascending : responses.Pairwise fun a b => a.port < b.port
  mem : ∀ port text, (∃ state, ⟨port, state, text⟩ ∈ responses) ↔
    ∃ m, mapped.get port = some m ∧ P m ∧ m.text = text

def AnswersAsMap (mapped : GoMap Nat ForwardMapping) : ForwardRequest → ForwardReply → Prop
  | .create _ _, _ => True
  | .delete portText, reply => PortText portText →
    (reply = .noContent ↔ mapped.get (Strconv.value portText) ≠ none) ∧
      (reply = .error 404 "forward not found" ↔ mapped.get (Strconv.value portText) = none)
  | .listAgent agentId _, reply =>
    ∃ responses, reply = .listed responses ∧ ListsMappings mapped (·.agentId = agentId) responses
  | .listAll _, reply =>
    ∃ responses, reply = .listed responses ∧ ListsMappings mapped (fun _ => True) responses

/-- What the service makes of an agent id when it keeps a mapping. -/
def ForwardService.keptId (svc : ForwardService) (id : List UInt8) : List UInt8 :=
  (svc.store.map fun store => store.keptId id).getD id

/-- A DELETE names a mapped port. A list is asked for with an agent's name, and not with one that the store
has replaced by another or put in the place of another. -/
def NamesMapped (svc : ForwardService) (mapped : GoMap Nat ForwardMapping) : ForwardRequest → Prop
  | .create _ _ | .listAll _ => True
  | .delete portText => PortText portText → mapped.get (Strconv.value portText) ≠ none
  | .listAgent agentId _ => ∀ port m, mapped.get port = some m → (agentId = [] → m.agentId = []) ∧
    (svc.keptId m.agentId = m.agentId ∨ agentId ≠ m.agentId ∧ agentId ≠ svc.keptId m.agentId)

def PortStore.Fresh : PortStore → Prop
  | .mem s => s = {}
  | .redis s => ∀ key, GoStrings.hasPrefix key portKeyPrefix = true → s key = none

def PortStore.Scanned (pages : List Redis.Oracle) : PortStore → Prop
  | .mem _ => True
  | .redis s => Redis.FullScan s portKeyPrefix pages

def BindingTracker.Answers : BindingTracker → Prop
  | .absent | .localOnly _ => True
  | .redis scan mget => (∃ pages, scan = .ok pages) ∧ ∀ n keys, ∃ values, mget n keys = .ok values

structure ListEnv.Served (env : ListEnv) (svc : ForwardService) : Prop where
  scanned : ∀ store, svc.store = some store → store.Scanned env.pages
  answers : env.bindings.Answers

def ForwardRequest.Served (svc : ForwardService) : ForwardRequest → Prop
  | .create _ _ | .delete _ => True
  | .listAgent _ env | .listAll env => env.Served svc

/-! ### Texts -/

theorem text_bytes (m : PortMapping) : m.bytes.text = m := by
  have hid : String.ofList (jsonText (Utf8.encode m.agentId.toList)) = m.agentId := by
    rw [jsonText, Utf8.runes_encode, GoJson.readable_some, String.ofList_toList]
  unfold ForwardMapping.text PortMapping.bytes
  rw [hid]

def PortStore.kept (store : PortStore) (m : ForwardMapping) : ForwardMapping :=
  { m with agentId := store.keptId m.agentId }

theorem PortStore.redis_kept (s : Redis.Store) (m : ForwardMapping) : (redis s).kept m = m.text.bytes := by
  unfold kept keptId PortMapping.bytes ForwardMapping.text
  rw [String.toList_ofList]

theorem PortStore.keptId_nil (store : PortStore) (id : List UInt8) (h : id = []) :
    store.keptId id = [] := by
  subst h
  cases store <;> rfl

theorem PortStore.text_kept (store : PortStore) (m : ForwardMapping) : (store.kept m).text = m.text := by
  cases store with
  | mem s => rfl
  | redis s =>
    rw [redis_kept]
    exact text_bytes m.text

/-! ### Lists -/

section Responses
variable {mappings : GoMap Nat ForwardMapping} {states : GoMap Nat PortState} {agentId : List UInt8}

def Wanted (agentId : List UInt8) (m : ForwardMapping) : Prop := agentId = [] ∨ m.agentId = agentId

theorem responseFor_eq_some {port : Nat} {r : ForwardResponse} :
    responseFor mappings states agentId port = some r ↔ r.port = port ∧ r.state = states.get port ∧
      ∃ m, mappings.get port = some m ∧ Wanted agentId m ∧ m.text = r.mapping := by
  have hwanted : ∀ m : ForwardMapping, ¬(agentId ≠ [] ∧ m.agentId ≠ agentId) ↔ Wanted agentId m :=
    fun m => by rw [not_and_or, not_not, not_not, Wanted]
  constructor
  · intro hr
    obtain ⟨m, hget, hr⟩ := Option.bind_eq_some_iff.mp hr
    obtain ⟨hnot, hr⟩ := Option.ite_none_left_eq_some.mp hr
    obtain rfl := Option.some.inj hr
    exact ⟨rfl, rfl, m, hget, (hwanted m).mp hnot, rfl⟩
  · rintro ⟨rfl, hstate, m, hget, hm, htext⟩
    rw [responseFor, hget, Option.bind_some, if_neg ((hwanted m).mpr hm), ← hstate, htext]

theorem mem_collectResponses {order : List Nat} {r : ForwardResponse} :
    r ∈ collectResponses mappings states agentId order ↔
      r.port ∈ order ∧ r.state = states.get r.port ∧
        ∃ m, mappings.get r.port = some m ∧ Wanted agentId m ∧ m.text = r.mapping := by
  rw [collectResponses, List.mem_filterMap]
  constructor
  · rintro ⟨port, hport, hr⟩
    obtain ⟨rfl, hrest⟩ := responseFor_eq_some.mp hr
    exact ⟨hport, hrest⟩
  · rintro ⟨hport, hrest⟩
    exact ⟨r.port, hport, responseFor_eq_some.mpr ⟨rfl, hrest⟩⟩

theorem collectResponses_ports {order : List Nat} (h : order.Nodup) :
    (collectResponses mappings states agentId order).Pairwise fun a b => a.port ≠ b.port := by
  apply List.pairwise_filterMap.mpr
  apply h.imp
  intro port port' hne r hr r' hr'
  rw [(responseFor_eq_some.mp hr).1, (responseFor_eq_some.mp hr').1]
  exact hne

theorem sortResponses_perm (responses : List ForwardResponse) :
    (sortResponses responses).Perm responses := List.perm_insertionSort _ responses

theorem sortResponses_ascending {responses : List ForwardResponse}
    (h : responses.Pairwise fun a b => a.port ≠ b.port) :
    (sortResponses responses).Pairwise fun a b => a.port < b.port :=
  List.pairwise_lt_insertionSort ForwardResponse.port h

theorem forwardResponses_eq {order : List Nat} (h : mappings.Iteration order) :
    sortResponses (collectResponses mappings states agentId order) =
      forwardResponses mappings states agentId := by
  have horder : order.Perm mappings.present := by
    apply (List.perm_ext_iff_of_nodup h.nodup mappings.nodup_present).mpr
    intro port
    rw [h.visits port, GoMap.mem_present]
  apply List.insertionSort_eq_of_perm (horder.filterMap _)
  intro a ha b hb hab hba
  have hport : a.port = b.port := Nat.le_antisymm hab hba
  obtain ⟨-, hstate, m, hget, -, htext⟩ := mem_collectResponses.mp ha
  obtain ⟨-, hstate', m', hget', -, htext'⟩ := mem_collectResponses.mp hb
  rw [hport] at hstate hget
  obtain rfl : m = m' := Option.some.inj (hget.symm.trans hget')
  have hmapping : a.mapping = b.mapping := htext.symm.trans htext'
  exact ForwardResponse.ext hport (hstate.trans hstate'.symm) hmapping

theorem forwardResponses_lists {mapped : GoMap Nat ForwardMapping} {store : PortStore}
    (h : ∀ port, mappings.get port = (mapped.get port).map store.kept) :
    ListsMappings mapped (fun m => Wanted agentId (store.kept m))
      (forwardResponses mappings states agentId) := by
  refine ⟨sortResponses_ascending (collectResponses_ports mappings.nodup_present), ?_⟩
  intro port text
  simp only [forwardResponses, (sortResponses_perm _).mem_iff, mem_collectResponses,
    GoMap.mem_present]
  constructor
  · rintro ⟨state, -, -, m', hget, hwanted, htext⟩
    rw [h port] at hget
    obtain ⟨m, hm, rfl⟩ := Option.map_eq_some_iff.mp hget
    exact ⟨m, hm, hwanted, (store.text_kept m).symm.trans htext⟩
  · rintro ⟨m, hm, hwanted, htext⟩
    have hget : mappings.get port = some (store.kept m) := by rw [h port, hm, Option.map_some]
    exact ⟨_, hget ▸ Option.some_ne_none _, rfl, store.kept m, hget, hwanted,
      (store.text_kept m).trans htext⟩

end Responses

theorem boundBatches_ok {mget : Nat → List String → Except GoError (List (Option String))}
    (h : ∀ n keys, ∃ values, mget n keys = .ok values) (batches : List (List String)) (n : Nat)
    (bound : GoMap String Bool) : ∃ bound', boundBatches mget batches n bound = .ok bound' := by
  induction batches generalizing n bound with
  | nil => exact ⟨bound, rfl⟩
  | cons keys batches ih =>
    obtain ⟨values, hvalues⟩ := h n keys
    rw [boundBatches, hvalues]
    exact ih _ _

theorem BindingTracker.Answers.states {t : BindingTracker} (h : t.Answers)
    (mappings : GoMap Nat PortMapping) : ∃ states, t.states mappings = .ok states := by
  unfold BindingTracker.states
  dsimp only
  split
  · exact ⟨_, rfl⟩
  · match t, h with
    | .absent, _ => exact ⟨_, rfl⟩
    | .localOnly bound, _ => exact ⟨_, rfl⟩
    | .redis scan mget, h =>
      obtain ⟨⟨pages, rfl⟩, hmget⟩ := h
      dsimp only [resolveRedisStates]
      split
      · exact ⟨_, rfl⟩
      · obtain ⟨bound, hbound⟩ := boundBatches_ok hmget _ 0 .empty
        rw [boundSet, hbound]
        exact ⟨_, rfl⟩

/-! ### Either store is the map -/

namespace MemPortStore
variable {μ ν : Type}

theorem firstFree_map (f : μ → ν) (m : GoMap Nat μ) (hi fuel port : Nat) :
    (⟨m.filterMap fun _ a => some (f a)⟩ : MemPortStore ν).firstFree hi fuel port =
      (⟨m⟩ : MemPortStore μ).firstFree hi fuel port := by
  induction fuel generalizing port with
  | zero => rfl
  | succ fuel ih =>
    have hnone : ((m.filterMap fun _ a => some (f a)).get port).isNone = (m.get port).isNone := by
      rw [GoMap.get_filterMap]
      cases m.get port <;> rfl
    rw [firstFree, firstFree, ih, hnone]

theorem allocate_map (f : μ → ν) (m : GoMap Nat μ) (lo hi : Nat) (mapping : μ) :
    (⟨m.filterMap fun _ a => some (f a)⟩ : MemPortStore ν).allocate lo hi (f mapping) =
      (((⟨m⟩ : MemPortStore μ).allocate lo hi mapping).1,
        ⟨((⟨m⟩ : MemPortStore μ).allocate lo hi mapping).2.mappings.filterMap fun _ a => some (f a)⟩) := by
  unfold allocate
  rw [firstFree_map]
  cases validatePortRange lo hi with
  | error err => rfl
  | ok u =>
    cases (⟨m⟩ : MemPortStore μ).firstFree hi (hi + 1 - lo) lo with
    | error err => rfl
    | ok port =>
      dsimp only
      rw [GoMap.filterMap_insert m port mapping rfl]

theorem allocate_cases (s : MemPortStore μ) (lo hi : Nat) (mapping : μ) :
    (∃ port, s.allocate lo hi mapping = (.ok port, ⟨s.mappings.insert port mapping⟩)) ∨
      ∃ err, s.allocate lo hi mapping = (.error err, s) := by
  unfold allocate
  split
  · exact .inr ⟨_, rfl⟩
  · split
    · exact .inl ⟨_, rfl⟩
    · exact .inr ⟨_, rfl⟩

end MemPortStore

namespace PortStore
variable {store : PortStore} {m : GoMap Nat ForwardMapping}

def Holds : PortStore → GoMap Nat ForwardMapping → Prop
  | .mem s, m => s.mappings = m
  | .redis s, m => PortStores.Same ⟨⟨texts m⟩, s⟩

theorem Fresh.holds (h : store.Fresh) : store.Holds .empty := by
  cases store with
  | mem s => exact congrArg MemPortStore.mappings h
  | redis s =>
    constructor
    · exact fun port => h _ (GoStrings.hasPrefix_append _ _)
    · exact fun key hkey hne => absurd (h key hkey) hne
    · exact fun port hne => absurd rfl hne

theorem Holds.allocate (h : store.Holds m) (lo hi : Nat) (mapping : ForwardMapping) :
    (store.allocate lo hi mapping).1 = (MemPortStore.allocate ⟨m⟩ lo hi mapping).1 ∧
      (store.allocate lo hi mapping).2.Holds (MemPortStore.allocate ⟨m⟩ lo hi mapping).2.mappings := by
  cases store with
  | mem s =>
    obtain rfl : s = ⟨m⟩ := congrArg MemPortStore.mk h
    exact ⟨rfl, rfl⟩
  | redis s =>
    have hsame : PortStores.CallAgrees PortMapping.unmarshal ⟨⟨texts m⟩, s⟩
        (.allocate lo hi mapping.text) := by
      cases hrange : validatePortRange lo hi with
      | error err => exact PortStores.Same.allocate_invalid h mapping.text hrange
      | ok u => exact (PortStores.Same.allocate h mapping.text hrange).1
    have hcall : RedisPortStore.call PortMapping.unmarshal s (.allocate lo hi mapping.text) =
        (.port ((RedisPortStore.allocate lo hi mapping.text).eval Redis.Server.exec ⟨s, []⟩).1,
          ((RedisPortStore.allocate lo hi mapping.text).eval Redis.Server.exec ⟨s, []⟩).2.store) := by
      rw [RedisPortStore.call, RedisPortStore.body, Prog.eval_bind]
      rfl
    -- which port is free does not depend on what the mappings say
    have hmem := MemPortStore.allocate_map ForwardMapping.text m lo hi mapping
    rw [PortStores.CallAgrees, hcall, MemPortStore.call, texts, hmem] at hsame
    exact ⟨hsame.1.symm, hsame.2⟩

theorem Holds.release (h : store.Holds m) (port : Nat) :
    (store.release port).1 = .ok () ∧ (store.release port).2.Holds (m.erase port) := by
  cases store with
  | mem s =>
    obtain rfl : s = ⟨m⟩ := congrArg MemPortStore.mk h
    exact ⟨rfl, rfl⟩
  | redis s =>
    rw [PortStore.release, RedisPortStore.release_eval]
    refine ⟨rfl, ?_⟩
    have herase := PortStores.Same.erase h port
    rwa [texts, ← GoMap.filterMap_erase] at herase

theorem Holds.desired (h : store.Holds m) {pages : List Redis.Oracle} (hscan : store.Scanned pages) :
    ∃ mappings, store.desired pages = some (.ok mappings) ∧
      ∀ port, mappings.get port = (m.get port).map store.kept := by
  cases store with
  | mem s =>
    obtain rfl : s = ⟨m⟩ := congrArg MemPortStore.mk h
    exact ⟨m, rfl, fun port => (Option.map_id_apply (x := m.get port)).symm⟩
  | redis s =>
    have hsame : PortStores.Same ⟨⟨texts m⟩, s⟩ := h
    obtain ⟨mappings, heval, hget⟩ := RedisPortStore.desired_eval
      PortMapping.unmarshal_marshal hscan (fun key hkey hne => hsame.stored hkey hne)
      fun port hne => (hsame.ne_none_iff port).mpr hne
    refine ⟨_, by rw [PortStore.desired, heval]; rfl, fun port => ?_⟩
    rw [GoMap.get_filterMap, hget]
    show ((texts m).get port).bind _ = _
    rw [texts, GoMap.get_filterMap]
    cases m.get port with
    | none => rfl
    | some m => rw [Option.map_some, redis_kept, Option.bind_some, Option.bind_some]

theorem Holds.scanned (h : store.Holds m) : store.Scanned [(m.present.map portKey, 0)] := by
  cases store with
  | mem s => trivial
  | redis s =>
    have hsame : PortStores.Same ⟨⟨texts m⟩, s⟩ := h
    have hdomain : ∀ port, (texts m).get port ≠ none ↔ m.get port ≠ none := by
      intro port
      rw [texts, GoMap.get_filterMap]
      cases m.get port <;> simp
    refine ⟨⟨[], _, rfl, fun page hpage => by cases hpage⟩, fun key => ?_⟩
    rw [hsame.key_iff]
    show key ∈ m.present.map portKey ++ [] ↔ _
    rw [List.append_nil]
    constructor
    · intro hkey
      obtain ⟨port, hport, rfl⟩ := List.mem_map.mp hkey
      exact ⟨port, rfl, (hdomain port).mpr (GoMap.mem_present.mp hport)⟩
    · rintro ⟨port, rfl, hne⟩
      exact List.mem_map_of_mem (GoMap.mem_present.mpr ((hdomain port).mp hne))

end PortStore

/-! ### Requests -/

namespace ForwardService
variable {svc : ForwardService} {store : PortStore} {mapped : GoMap Nat ForwardMapping}

theorem notedMappings_error (request : ForwardRequest) (status : Nat) (text : String) :
    notedMappings mapped request (.error status text) = mapped := by
  cases request with
  | create agentId body => cases body <;> rfl
  | delete portText => rfl
  | listAgent agentId env => rfl
  | listAll env => rfl

theorem bindCreateForwardRequest_cases (svc : ForwardService)
    (body : Except GoError CreateForwardRequest) :
    (∃ status text, svc.bindCreateForwardRequest body = .error (.error status text)) ∨
      ∃ request, body = .ok request ∧ svc.bindCreateForwardRequest body = .ok request := by
  cases body with
  | error err => exact .inl ⟨_, _, rfl⟩
  | ok request =>
    rw [bindCreateForwardRequest]
    split
    · exact .inl ⟨_, _, rfl⟩
    · split
      · exact .inl ⟨_, _, rfl⟩
      · exact .inr ⟨request, rfl, rfl⟩

theorem writeAllocateForwardError_eq (err : GoError) (requested : Nat) :
    ∃ status text, writeAllocateForwardError err requested = .error status text := by
  unfold writeAllocateForwardError
  split
  · exact ⟨_, _, rfl⟩
  · split <;> exact ⟨_, _, rfl⟩

theorem createForward_holds (hstore : svc.store = some store) (h : store.Holds mapped)
    (agentId : List UInt8) (body : Except GoError CreateForwardRequest) :
    ∃ store', (svc.createForward agentId body).2.store = some store' ∧ store'.Holds
      (notedMappings mapped (.create agentId body) (svc.createForward agentId body).1) := by
  obtain ⟨status, text, hbind⟩ | ⟨request, rfl, hbind⟩ := svc.bindCreateForwardRequest_cases body
  · simp only [createForward, hstore, hbind, notedMappings_error]
    exact ⟨store, rfl, h⟩
  · obtain ⟨hreply, hholds⟩ := h.allocate (svc.allocationRange request.port).1
      (svc.allocationRange request.port).2 (request.mapping agentId)
    obtain ⟨port, hport⟩ | ⟨err, herr⟩ := MemPortStore.allocate_cases ⟨mapped⟩
      (svc.allocationRange request.port).1 (svc.allocationRange request.port).2
      (request.mapping agentId)
    · rw [hport] at hreply hholds
      simp only [createForward, hstore, hbind, hreply]
      exact ⟨_, rfl, hholds⟩
    · rw [herr] at hreply hholds
      obtain ⟨status, text, htext⟩ := writeAllocateForwardError_eq err request.port
      simp only [createForward, hstore, hbind, hreply, htext, notedMappings_error]
      exact ⟨_, rfl, hholds⟩

/-- Neither store tells whether there was a mapping to release. -/
theorem deleteForward_valid (hstore : svc.store = some store) (h : store.Holds mapped)
    {portText : String} (hport : PortText portText) :
    svc.deleteForward portText =
      (.noContent, { svc with store := some (store.release (Strconv.value portText)).2 }) := by
  have hbound : Strconv.value portText < 65536 := hport.bounded
  have hparse : Strconv.parseUint portText 32 = .ok (Strconv.value portText) := by
    apply Strconv.parseUint_eq_ok_iff.mpr
    exact ⟨hport.decimal, rfl, Nat.lt_trans hbound (by decide)⟩
  have hrange : ¬(Strconv.value portText = 0 ∨ Strconv.value portText > 65535) := by
    have hpos := hport.pos
    omega
  simp only [deleteForward, hstore, hparse, if_neg hrange, (h.release _).1]

theorem deleteForward_invalid (hstore : svc.store = some store) {portText : String}
    (hport : ¬PortText portText) :
    svc.deleteForward portText = (.error 400 "invalid port", svc) := by
  simp only [deleteForward, hstore]
  split
  · rfl
  · next port hparse =>
    obtain ⟨hdecimal, rfl, -⟩ := Strconv.parseUint_eq_ok_iff.mp hparse
    rw [if_pos]
    by_contra hrange
    have hbound : Strconv.value portText < 65536 := by omega
    exact hport ⟨hdecimal, fun hzero => hrange (.inl hzero), hbound⟩

theorem listAgentForwards_eq (hstore : svc.store = some store) (h : store.Holds mapped)
    {env : ListEnv} (hserved : env.Served svc) (agentId : List UInt8) :
    ∃ responses, svc.listAgentForwards agentId env = .listed responses ∧
      ListsMappings mapped (fun m => Wanted agentId (store.kept m)) responses := by
  obtain ⟨mappings, hdesired, hget⟩ := h.desired (hserved.scanned store hstore)
  obtain ⟨states, hstates⟩ := hserved.answers.states (texts mappings)
  refine ⟨forwardResponses mappings states agentId, ?_, forwardResponses_lists hget⟩
  simp only [listAgentForwards, fetchForwards, hstore, hdesired, hstates]

end ForwardService

namespace ListsMappings
variable {mapped : GoMap Nat ForwardMapping} {P Q : ForwardMapping → Prop}
  {responses : List ForwardResponse}

theorem iff_of_get (h : ListsMappings mapped P responses) {port : Nat} {m : ForwardMapping}
    (hget : mapped.get port = some m) : (∃ state, ⟨port, state, m.text⟩ ∈ responses) ↔ P m := by
  rw [h.mem]
  constructor
  · rintro ⟨m', hget', hm', -⟩
    obtain rfl : m = m' := Option.some.inj (hget.symm.trans hget')
    exact hm'
  · exact fun hm => ⟨m, hget, hm, rfl⟩

theorem listed_iff (h : ListsMappings mapped P responses) :
    (∃ responses', ForwardReply.listed responses = .listed responses' ∧
      ListsMappings mapped Q responses') ↔
    ∀ port m, mapped.get port = some m → (P m ↔ Q m) := by
  constructor
  · rintro ⟨_, ⟨⟩, h'⟩ port m hget
    exact (h.iff_of_get hget).symm.trans (h'.iff_of_get hget)
  · intro hPQ
    refine ⟨responses, rfl, h.ascending, fun port text => (h.mem port text).trans ?_⟩
    refine exists_congr fun m => and_congr_right fun hget => ?_
    rw [hPQ port m hget]

end ListsMappings

/-- Which mappings of an agent `id` are listed for an agent, if the store has `kept` in its place. -/
theorem wanted_iff {agentId id kept : List UInt8} (hempty : id = [] → kept = []) :
    ((agentId = [] ∨ kept = agentId) ↔ id = agentId) ↔
      (agentId = [] → id = []) ∧ (kept = id ∨ agentId ≠ id ∧ agentId ≠ kept) := by
  by_cases hagent : agentId = []
  · subst hagent
    by_cases hid : id = []
    · simp [hid, hempty hid]
    · simp [hid]
  · by_cases hkept : kept = id
    · simp [hagent, hkept]
    · simp only [hagent, hkept, false_or, false_implies, true_and]
      constructor
      · intro hiff
        refine ⟨?_, ?_⟩
        · rintro rfl
          exact hkept (hiff.mpr rfl)
        · rintro rfl
          exact hkept (hiff.mp rfl).symm
      · rintro ⟨hne, hne'⟩
        exact iff_of_false (Ne.symm hne') (Ne.symm hne)

namespace ForwardApi
variable {s t : ForwardApi}

def Inv (s : ForwardApi) : Prop := ∃ store, s.svc.store = some store ∧ store.Holds s.mapped

theorem Inv.step (hi : s.Inv) (request : ForwardRequest) (ht : s.step request = some t) :
    t.Inv := by
  obtain rfl := Option.some.inj ht
  obtain ⟨store, hstore, h⟩ := hi
  cases request with
  | create agentId body => exact ForwardService.createForward_holds hstore h agentId body
  | delete portText =>
    by_cases hport : PortText portText
    · have hreply := ForwardService.deleteForward_valid hstore h hport
      refine ⟨(store.release (Strconv.value portText)).2, ?_, ?_⟩
      · simp only [ForwardService.serve, hreply]
      · simp only [ForwardService.serve, hreply]
        exact (h.release _).2
    · have hreply := ForwardService.deleteForward_invalid hstore hport
      refine ⟨store, ?_, ?_⟩
      · simp only [ForwardService.serve, hreply, hstore]
      · simp only [ForwardService.serve, hreply]
        exact h
  | listAgent agentId env => exact ⟨store, hstore, h⟩
  | listAll env => exact ⟨store, hstore, h⟩

theorem inv_of_run {store : PortStore} (hfresh : store.Fresh) {lo hi : Nat}
    {requests : List ForwardRequest}
    (h : Lts.AnyRun step { svc := ⟨some store, lo, hi⟩ } requests s) : s.Inv :=
  h.invariant (fun _ request _ hi _ ht => hi.step request ht) ⟨store, rfl, hfresh.holds⟩

/-- After any requests, the next one is answered as by a map of the mappings created and not yet
deleted exactly if it is no DELETE of an unmapped port, which gets 204, no list of the agent without a
name, which gets the mappings of all agents, and no list of an agent whose name the JSON text of a mapping
in Redis has lost or gained. -/
theorem answers_as_map_iff {store : PortStore} (hfresh : store.Fresh) {lo hi : Nat}
    {requests : List ForwardRequest}
    (h : Lts.AnyRun step { svc := ⟨some store, lo, hi⟩ } requests s) {request : ForwardRequest}
    (hserved : request.Served s.svc) :
    AnswersAsMap s.mapped request (s.svc.serve request).1 ↔ NamesMapped s.svc s.mapped request := by
  obtain ⟨store, hstore, hholds⟩ := inv_of_run hfresh h
  cases request with
  | create agentId body => exact Iff.rfl
  | delete portText =>
    apply forall_congr'
    intro hport
    rw [ForwardService.serve, ForwardService.deleteForward_valid hstore hholds hport]
    constructor
    · exact fun hmap => hmap.1.mp rfl
    · intro hne
      exact ⟨iff_of_true rfl hne, iff_of_false (fun he => by cases he) hne⟩
  | listAgent agentId env =>
    obtain ⟨responses, hreply, hlists⟩ :=
      ForwardService.listAgentForwards_eq hstore hholds hserved agentId
    rw [AnswersAsMap, ForwardService.serve, hreply]
    apply hlists.listed_iff.trans
    have hkept : ∀ id, s.svc.keptId id = store.keptId id := fun id => by
      rw [ForwardService.keptId, hstore]
      rfl
    refine forall_congr' fun port => forall_congr' fun m => imp_congr_right fun _ => ?_
    rw [hkept]
    exact wanted_iff (store.keptId_nil m.agentId)
  | listAll env =>
    obtain ⟨responses, hreply, hlists⟩ :=
      ForwardService.listAgentForwards_eq hstore hholds hserved []
    have hall : s.svc.listAllForwards env = .listed responses := hreply
    rw [AnswersAsMap, ForwardService.serve, hall]
    apply hlists.listed_iff.trans
    exact iff_of_true (fun _ _ _ => iff_of_true (.inl rfl) trivial) trivial

/-- A forward created in Redis is listed for its agent, whose ports are not bound yet. -/
theorem answers_as_map_iff_created : ∃ (s : ForwardApi) (env : ListEnv),
    s.mapped.get 8000 = some { agentId := [0x61], target := "172.17.0.2:80" } ∧
      AnswersAsMap s.mapped (.listAgent [0x61] env) (s.svc.serve (.listAgent [0x61] env)).1 := by
  let svc : ForwardService := ⟨some (.redis fun _ => none), 8000, 8999⟩
  let request : ForwardRequest := .create [0x61] (.ok { target := "172.17.0.2:80" })
  have hfresh : (PortStore.redis fun _ => none).Fresh := fun _ _ => rfl
  have hreply : (svc.serve request).1 = .created ⟨8000, some .pending,
      { agentId := "a", target := "172.17.0.2:80" }⟩ := by decide +kernel
  obtain ⟨s, hs⟩ : ∃ s, step ⟨svc, .empty⟩ request = some s := ⟨_, rfl⟩
  have hrun : Lts.AnyRun step ⟨svc, .empty⟩ [request] s := .snoc .nil trivial hs
  have hmapped : s.mapped = GoMap.empty.insert 8000 { agentId := [0x61], target := "172.17.0.2:80" } := by
    rw [← Option.some.inj hs, hreply]
    rfl
  obtain ⟨store, hstore, hholds⟩ := inv_of_run hfresh hrun
  let env : ListEnv := ⟨[(s.mapped.present.map portKey, 0)],
    .redis (.ok [[controllerKey "10.0.0.1:7070"]]) fun _ keys => .ok (keys.map fun _ => none)⟩
  have henv : env.Served s.svc := by
    refine ⟨fun store' hstore' => ?_, ⟨_, rfl⟩, fun _ keys => ⟨_, rfl⟩⟩
    obtain rfl : store = store' := Option.some.inj (hstore.symm.trans hstore')
    exact hholds.scanned
  have hserved : (ForwardRequest.listAgent [0x61] env).Served s.svc := henv
  have hkept : s.svc.keptId [0x61] = [0x61] := by
    have hid : Utf8.encode (jsonText [0x61]) = [0x61] := by decide +kernel
    rw [ForwardService.keptId, hstore]
    cases store with
    | mem s => rfl
    | redis s => exact hid
  refine ⟨s, env, ?_, (answers_as_map_iff hfresh hrun hserved).mpr fun port m hget => ?_⟩
  · rw [hmapped, GoMap.get_insert_self]
  · rw [hmapped] at hget
    rcases GoMap.get_of_get_insert hget with ⟨-, rfl⟩ | hnone
    · exact ⟨fun he => absurd he (List.cons_ne_nil _ _), .inl hkept⟩
    · cases hnone

/-- Port 8000 has no mapping in either store, and a DELETE of it answers 204 all the same. -/
theorem delete_of_unmapped_succeeds :
    ((⟨some (.mem {}), 8000, 8999⟩ : ForwardService).serve (.delete "8000")).1 = .noContent ∧
      ((⟨some (.redis fun _ => none), 8000, 8999⟩ : ForwardService).serve (.delete "8000")).1 =
        .noContent ∧
      ¬AnswersAsMap .empty (.delete "8000") .noContent := by
  have hport : PortText "8000" :=
    ⟨by decide +kernel, by decide +kernel, by decide +kernel⟩
  refine ⟨by decide +kernel, by decide +kernel, fun hmap => ?_⟩
  exact (hmap hport).1.mp rfl rfl

end ForwardApi
end Hostlink.Controller
