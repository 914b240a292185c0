import Hostlink.Lib.Fifo
import Hostlink.Lib.GoMap
import Hostlink.Lib.Slots
import Hostlink.Agent.Upload

/-! The agent's side of uploads within one session: `registerInbound` and `routeChunk` in the
receive loop, and the handlers, each with a channel of its chunks. Each handler has its path to
itself. The chunks of `upload.req` are those the handler has taken from its channel. -/

namespace Hostlink.Agent

structure UploadHandler where
  requestId : String
  file : NamedFile
  upload : Upload
  ch : List UploadChunk := []
  replied : Bool := false
  done : Bool := false

inductive HandlerLabel where
  | upload (l : UploadLabel)
  | take (n : Nat) (err : Option GoError)
  deriving DecidableEq, Repr

def inboundBuffer : Nat := 8

def Upload.receive (u : Upload) (ino off : Nat) (chunk : UploadChunk) : Upload :=
  { u with
    req := { u.req with chunks := u.req.chunks ++ [chunk] }
    pc := .consume ino off [chunk] }

def UploadHandler.step (x : UploadHandler) : HandlerLabel → Option UploadHandler
  | .upload (.chunk _ _) => none
  | .upload l => (x.upload.step x.file l).map fun r => { x with file := r.1, upload := r.2 }
  | .take n err =>
    match x.ch, x.upload.pc with
    | chunk :: ch, .consume ino off [] =>
      ((x.upload.receive ino off chunk).step x.file (.chunk n err)).map fun r =>
        { x with file := r.1, upload := r.2, ch := ch }
    | _, _ => none

/-- `routing` is the chunk the receive loop is about to hand over in `routeChunk`. -/
structure Inbound where
  inbound : GoMap String Nat := .empty
  handlers : List UploadHandler := []
  routing : Option (Nat × UploadChunk) := none

inductive InboundLabel where
  | put
  | drop
  | handler (h : Nat) (l : HandlerLabel)
  | deregister (h : Nat)
  deriving DecidableEq, Repr

namespace Inbound

/-- `before` is what the path holds, if it exists. -/
def registerInbound (a : Inbound) (requestId : String) (before : Option Bytes) (exclusive : Bool) :
    Inbound :=
  { a with
    inbound := a.inbound.insert requestId a.handlers.length
    handlers := a.handlers ++ [{
      requestId := requestId
      file := .ofContent before
      upload := { req := { exclusive := exclusive, chunks := [] } } }] }

/-- `routeChunk` up to its `select`. -/
def routeChunk (a : Inbound) (requestId : String) (chunk : UploadChunk) : Inbound :=
  match a.inbound.get requestId with
  | some h => { a with routing := some (h, chunk) }
  | none => a

def setHandler (a : Inbound) (h : Nat) (x : UploadHandler) : Inbound :=
  { a with handlers := a.handlers.set h x }

/-- `deregisterInbound`, deferred until `handleWrite` has sent its result. -/
def deregister (a : Inbound) (h : Nat) (x : UploadHandler) : Inbound :=
  { a.setHandler h { x with done := true } with
    inbound := if a.inbound.get x.requestId = some h then a.inbound.erase x.requestId
      else a.inbound }

def step (a : Inbound) : InboundLabel → Option Inbound
  | .put => a.routing.bind fun r => (a.handlers[r.1]?).bind fun x =>
      if x.ch.length < inboundBuffer then
        some { a.setHandler r.1 { x with ch := x.ch ++ [r.2] } with routing := none }
      else none
  | .drop => a.routing.bind fun r => (a.handlers[r.1]?).bind fun x =>
      if x.done then some { a with routing := none } else none
  | .handler h l => (a.handlers[h]?).bind fun x => (x.step l).map (a.setHandler h)
  | .deregister h => (a.handlers[h]?).bind fun x =>
      if x.replied && !x.done then some (a.deregister h x) else none

end Inbound

/-! ### What a handler has written -/

def UploadPc.committing : UploadPc → Bool
  | .sync _ | .close true _ => true
  | .finished code => code = 201
  | _ => false

theorem Upload.step_refused {f : NamedFile} {u : Upload} {l : UploadLabel} {r : NamedFile × Upload}
    (h : u.step f l = some r) (hpc : u.pc = .prepare ∨ u.pc = .openFile) :
    r.2.pc ≠ .finished 201 := by
  have hcode : ∀ err, UploadPc.finished (fsErrorCode err) ≠ .finished 201 := fun err he =>
    fsErrorCode_ne err (UploadPc.finished.inj he)
  obtain hpc | hpc := hpc
  · cases l with
    | invalid =>
      simp only [step, hpc] at h
      cases h
      exact fun he => absurd (UploadPc.finished.inj he) (by decide)
    | prepare err =>
      simp only [step, hpc] at h
      cases h
      cases err with
      | none => exact fun he => by cases he
      | some err => exact hcode err
    | openFile err => cases err <;> simp [step, hpc] at h
    | ctxDone | idle | chunk | sync | close | remove => simp [step, hpc] at h
  · cases l with
    | openFile err =>
      cases err with
      | some err =>
        simp only [step, hpc] at h
        cases h
        exact hcode err
      | none =>
        simp only [step, hpc] at h
        split at h
        · split at h
          · cases h
            exact fun he => by cases he
          · cases h
            exact hcode errExist
        · cases h
          exact fun he => by cases he
    | invalid | prepare | ctxDone | idle | chunk | sync | close | remove => simp [step, hpc] at h

namespace UploadHandler

structure Ok (x : UploadHandler) : Prop where
  file : (x.upload.pc = .prepare ∨ x.upload.pc = .openFile) ∧ x.upload.req.chunks = [] ∨
    x.upload.Ok x.file ∨ ∃ code, x.upload.pc = .finished code ∧ code ≠ 201
  consuming : ∀ ino off chunks, x.upload.pc = .consume ino off chunks →
    chunks = [] ∧ hasLast x.upload.req.chunks = false
  committing : x.upload.pc.committing = true → hasLast x.upload.req.chunks = true

variable {x x' : UploadHandler} {l : HandlerLabel}

theorem Ok.content (hok : x.Ok) (hpc : x.upload.pc = .finished 201) :
    x.file.content = some (fullBody x.upload.req.chunks) := by
  obtain ⟨hne | hne, -⟩ | hfile | ⟨code, hcode, hne⟩ := hok.file
  · rw [hpc] at hne
    cases hne
  · rw [hpc] at hne
    cases hne
  · unfold Upload.Ok at hfile
    rw [hpc] at hfile
    exact hfile.1 rfl
  · rw [hpc] at hcode
    exact absurd (UploadPc.finished.inj hcode).symm hne

theorem Ok.setup {l : UploadLabel} {r : NamedFile × Upload}
    (hpc : x.upload.pc = .prepare ∨ x.upload.pc = .openFile) (hnil : x.upload.req.chunks = [])
    (h : x.upload.step x.file l = some r) :
    ({ x with file := r.1, upload := r.2 } : UploadHandler).Ok := by
  have hrefused := Upload.step_refused h hpc
  have hinactive : x.upload.pc.active = false := by
    obtain hpc | hpc := hpc <;> rw [hpc] <;> rfl
  cases Upload.step_cases h with
  | refused code _ =>
    have hne : code ≠ 201 := fun he => hrefused (congrArg _ he)
    exact ⟨.inr (.inr ⟨code, rfl, hne⟩), fun _ _ _ he => (by cases he),
      fun he => absurd (of_decide_eq_true he) hne⟩
  | prepared _ =>
    exact ⟨.inl ⟨.inr rfl, hnil⟩, fun _ _ _ he => (by cases he), fun he => by cases he⟩
  | opened ino f' _ hf =>
    refine ⟨.inr (.inl ⟨[], hf, rfl, rfl⟩), fun _ _ _ he => ?_, fun he => by cases he⟩
    cases he
    exact ⟨hnil, by rw [hnil]; rfl⟩
  | aborted _ _ hactive =>
    rw [hactive] at hinactive
    cases hinactive
  | wrote _ _ _ _ hpc | synced _ hpc | closed _ _ hpc | removed _ _ hpc =>
    rw [hpc] at hinactive
    cases hinactive

theorem Ok.upload {l : UploadLabel} {r : NamedFile × Upload} (hok : x.Ok)
    (h : x.upload.step x.file l = some r) :
    ({ x with file := r.1, upload := r.2 } : UploadHandler).Ok := by
  obtain ⟨hpc, hnil⟩ | hfile | ⟨code, hfinished, -⟩ := hok.file
  · exact .setup hpc hnil h
  · have hok' := Upload.step_ok hfile h
    unfold Upload.Ok at hfile
    cases Upload.step_cases h with
    | refused _ hpc => obtain hpc | hpc := hpc <;> rw [hpc] at hfile <;> exact hfile.elim
    | prepared hpc | opened _ _ hpc =>
      rw [hpc] at hfile
      exact hfile.elim
    | aborted code f' hactive hne =>
      exact ⟨.inr (.inl hok'), fun _ _ _ he => (by cases he), fun he => by cases he⟩
    | wrote ino off chunk chunks hpc => cases (hok.consuming _ _ _ hpc).1
    | synced ino hpc =>
      exact ⟨.inr (.inl hok'), fun _ _ _ he => (by cases he),
        fun _ => hok.committing (by rw [hpc]; rfl)⟩
    | closed committed code hpc =>
      cases committed with
      | true =>
        exact ⟨.inr (.inl hok'), fun _ _ _ he => (by cases he),
          fun _ => hok.committing (by rw [hpc]; rfl)⟩
      | false => exact ⟨.inr (.inl hok'), fun _ _ _ he => (by cases he), fun he => by cases he⟩
    | removed code err hpc =>
      rw [hpc] at hfile
      exact ⟨.inr (.inl hok'), fun _ _ _ he => (by cases he),
        fun he => absurd (of_decide_eq_true he) hfile⟩
  · cases Upload.step_cases h with
    | refused _ hpc => obtain hpc | hpc := hpc <;> cases hfinished.symm.trans hpc
    | prepared hpc | opened _ _ hpc | wrote _ _ _ _ hpc | synced _ hpc | closed _ _ hpc
    | removed _ _ hpc => cases hfinished.symm.trans hpc
    | aborted _ _ hactive =>
      rw [hfinished] at hactive
      cases hactive

theorem Ok.take {chunk : UploadChunk} {ch : List UploadChunk} {ino off n : Nat}
    {err : Option GoError} {r : NamedFile × Upload} (hok : x.Ok)
    (hpc : x.upload.pc = .consume ino off [])
    (h : (x.upload.receive ino off chunk).step x.file (.chunk n err) = some r) :
    ({ x with file := r.1, upload := r.2, ch := ch } : UploadHandler).Ok := by
  obtain ⟨-, hopen⟩ := hok.consuming _ _ _ hpc
  have hfile : (x.upload.receive ino off chunk).Ok x.file := by
    obtain ⟨hne | hne, -⟩ | hfile | ⟨code, hne, -⟩ := hok.file
    · cases hpc.symm.trans hne
    · cases hpc.symm.trans hne
    · unfold Upload.Ok at hfile
      rw [hpc] at hfile
      obtain ⟨d, hd, hoff, hbody⟩ := hfile
      refine ⟨d, hd, hoff, ?_⟩
      show d ++ fullBody [chunk] = fullBody (x.upload.req.chunks ++ [chunk])
      rw [fullBody_append hopen, ← hbody]
      exact congrArg (· ++ fullBody [chunk]) (List.append_nil d).symm
    · cases hpc.symm.trans hne
  have hlast : hasLast (x.upload.req.chunks ++ [chunk]) = chunk.last := by
    rw [hasLast_append, hopen]
    exact Bool.or_false _
  have hok' := Upload.step_ok hfile h
  cases Upload.step_cases h with
  | refused _ hpc' => obtain hpc' | hpc' := hpc' <;> cases hpc'
  | prepared hpc' | opened _ _ hpc' | synced _ hpc' | closed _ _ hpc' | removed _ _ hpc' => cases hpc'
  | aborted code f' hactive hne =>
    exact ⟨.inr (.inl hok'), fun _ _ _ he => (by cases he), fun he => by cases he⟩
  | wrote ino' off' chunk' chunks hpc' =>
    cases hpc'
    simp only [afterChunk] at hok' ⊢
    by_cases hl : chunk.last = true
    · simp only [hl, if_true] at hok' hlast ⊢
      exact ⟨.inr (.inl hok'), fun _ _ _ he => (by cases he), fun _ => hlast⟩
    · simp only [hl] at hok' hlast ⊢
      refine ⟨.inr (.inl hok'), fun _ _ _ he => ?_, fun he => by cases he⟩
      cases he
      exact ⟨rfl, hlast⟩

theorem Ok.step (hok : x.Ok) (h : x.step l = some x') : x'.Ok := by
  unfold UploadHandler.step at h
  split at h
  · cases h
  · obtain ⟨r, hr, rfl⟩ := Option.map_eq_some_iff.mp h
    exact hok.upload hr
  · split at h
    · next hpc =>
      obtain ⟨r, hr, rfl⟩ := Option.map_eq_some_iff.mp h
      exact hok.take hpc hr
    · cases h

theorem step_chunks (h : x.step l = some x') :
    x'.upload.req.chunks ++ x'.ch = x.upload.req.chunks ++ x.ch ∧ x'.requestId = x.requestId ∧
      x'.replied = x.replied ∧ x'.done = x.done := by
  unfold UploadHandler.step at h
  split at h
  · cases h
  · obtain ⟨r, hr, rfl⟩ := Option.map_eq_some_iff.mp h
    refine ⟨?_, rfl, rfl, rfl⟩
    show r.2.req.chunks ++ x.ch = _
    rw [Upload.step_req hr]
  · split at h
    · next chunk ch ino off hch hpc =>
      obtain ⟨r, hr, rfl⟩ := Option.map_eq_some_iff.mp h
      refine ⟨?_, rfl, rfl, rfl⟩
      show r.2.req.chunks ++ ch = _
      rw [Upload.step_req hr, hch]
      exact List.append_assoc ..
    · cases h

theorem step_ne_finished (h : x.step l = some x') (code : Nat) : x.upload.pc ≠ .finished code := by
  intro hpc
  unfold UploadHandler.step at h
  split at h
  · cases h
  · obtain ⟨r, hr, -⟩ := Option.map_eq_some_iff.mp h
    cases Upload.step_cases hr with
    | refused _ hpc' => obtain hpc' | hpc' := hpc' <;> cases hpc.symm.trans hpc'
    | prepared hpc' | opened _ _ hpc' | wrote _ _ _ _ hpc' | synced _ hpc' | closed _ _ hpc'
    | removed _ _ hpc' => cases hpc.symm.trans hpc'
    | aborted _ _ hactive =>
      rw [hpc] at hactive
      cases hactive
  · split at h
    · next hpc' => cases hpc.symm.trans hpc'
    · cases h

end UploadHandler

/-! ### What reaches a handler -/

namespace Inbound
variable {a a' : Inbound} {R : String → List UploadChunk} {h k : Nat} {x : UploadHandler}
  {id : String} {chunk : UploadChunk}

def routingTo (a : Inbound) (h : Nat) : List UploadChunk :=
  match a.routing with
  | some (k, chunk) => if k = h then [chunk] else []
  | none => []

def live (a : Inbound) (h : Nat) (x : UploadHandler) : Bool :=
  decide (a.inbound.get x.requestId = some h) || !(a.routingTo h).isEmpty

structure Routed (a : Inbound) (R : String → List UploadChunk) : Prop where
  unique : ∀ (h k : Nat) (x y : UploadHandler), a.handlers[h]? = some x → a.handlers[k]? = some y →
    x.requestId = y.requestId → h = k
  entry : ∀ (id : String) (h : Nat), a.inbound.get id = some h →
    ∃ x, a.handlers[h]? = some x ∧ x.requestId = id
  ok : ∀ (h : Nat) (x : UploadHandler), a.handlers[h]? = some x → x.Ok
  follows : ∀ (h : Nat) (x : UploadHandler), a.handlers[h]? = some x →
    (x.upload.req.chunks ++ x.ch ++ a.routingTo h).Follows (a.live h x) (R x.requestId)
  done : ∀ (h : Nat) (x : UploadHandler), a.handlers[h]? = some x → x.done = true →
    a.inbound.get x.requestId ≠ some h

theorem routingTo_none (hidle : a.routing = none) (h : Nat) : a.routingTo h = [] := by
  rw [routingTo, hidle]

theorem routingTo_self (h : a.routing = some (k, chunk)) : a.routingTo k = [chunk] := by
  rw [routingTo, h]
  exact if_pos rfl

theorem routingTo_ne (hk : a.routing = some (k, chunk)) (hne : k ≠ h) : a.routingTo h = [] := by
  rw [routingTo, hk]
  exact if_neg hne

theorem Routed.taken_isPrefix (hr : a.Routed R) (hx : a.handlers[h]? = some x) :
    x.upload.req.chunks <+: R x.requestId := by
  refine List.IsPrefix.trans ?_ (hr.follows h x hx).1
  rw [List.append_assoc]
  exact List.prefix_append _ _

theorem Routed.init : ({} : Inbound).Routed R where
  unique := fun _ _ _ _ h => by cases h
  entry := fun _ _ h => by cases h
  ok := fun _ _ h => by cases h
  follows := fun _ _ h => by cases h
  done := fun _ _ h => by cases h

theorem Routed.registerInbound (hr : a.Routed R) (hidle : a.routing = none)
    (hfresh : ∀ x ∈ a.handlers, x.requestId ≠ id) (hR : R id = []) (before : Option Bytes)
    (exclusive : Bool) : (a.registerInbound id before exclusive).Routed R := by
  have hold : ∀ {k : Nat} {y : UploadHandler}, a.handlers[k]? = some y →
      (a.inbound.insert id a.handlers.length).get y.requestId = a.inbound.get y.requestId :=
    fun hy => GoMap.get_insert_of_ne _ (hfresh _ (List.mem_of_getElem? hy)) _
  have hcases : ∀ {k : Nat} {y : UploadHandler},
      (a.registerInbound id before exclusive).handlers[k]? = some y →
      a.handlers[k]? = some y ∨ k = a.handlers.length ∧ y.requestId = id ∧ y.ch = [] ∧
        y.upload = { req := { exclusive := exclusive, chunks := [] } } ∧ y.done = false := by
    intro k y hy
    obtain hold | ⟨hk, rfl⟩ := List.getElem?_of_concat hy
    · exact .inl hold
    · exact .inr ⟨hk, rfl, rfl, rfl, rfl⟩
  constructor
  · intro k k' y y' hy hy' hid
    obtain hy | ⟨rfl, hyid, -⟩ := hcases hy
    · obtain hy' | ⟨-, hyid, -⟩ := hcases hy'
      · exact hr.unique k k' y y' hy hy' hid
      · exact absurd (hid.trans hyid) (hfresh y (List.mem_of_getElem? hy))
    · obtain hy' | ⟨rfl, -⟩ := hcases hy'
      · exact absurd (hid.symm.trans hyid) (hfresh y' (List.mem_of_getElem? hy'))
      · rfl
  · intro id' k hk
    rcases GoMap.get_of_get_insert hk with ⟨rfl, rfl⟩ | hold
    · exact ⟨_, List.getElem?_concat_length .., rfl⟩
    · obtain ⟨y, hy, hyid⟩ := hr.entry id' k hold
      exact ⟨y, (List.getElem?_append_left (List.getElem?_eq_some_iff.mp hy).1).trans hy, hyid⟩
  · intro k y hy
    obtain hy | ⟨-, -, -, hu, -⟩ := hcases hy
    · exact hr.ok k y hy
    · refine ⟨.inl ⟨.inl (by rw [hu]), by rw [hu]⟩, fun _ _ _ he => ?_, fun he => ?_⟩
      · rw [hu] at he
        cases he
      · rw [hu] at he
        cases he
  · intro k y hy
    obtain hy | ⟨-, hyid, hch, hu, -⟩ := hcases hy
    · have hf := hr.follows k y hy
      rw [live] at hf ⊢
      rwa [show (a.registerInbound id before exclusive).inbound.get y.requestId = _ from hold hy]
    · have hroute : (a.registerInbound id before exclusive).routingTo k = [] :=
        routingTo_none hidle k
      exact .of_eq (by rw [hroute, hyid, hR, hch, hu]; rfl)
  · intro k y hy hdone
    obtain hy | ⟨-, -, -, -, hd⟩ := hcases hy
    · rw [show (a.registerInbound id before exclusive).inbound.get y.requestId = _ from hold hy]
      exact hr.done k y hy hdone
    · exact absurd (hd.symm.trans hdone) Bool.false_ne_true

theorem Routed.routeChunk (hr : a.Routed R) (hidle : a.routing = none)
    {R' : String → List UploadChunk}
    (hR' : ∀ id', R' id' = R id' ++ if id' = id then [chunk] else []) :
    (a.routeChunk id chunk).Routed R' := by
  have hnone := routingTo_none hidle
  unfold Inbound.routeChunk
  split
  · next k hk =>
    refine ⟨hr.unique, hr.entry, hr.ok, fun h x hx => ?_, hr.done⟩
    obtain ⟨y, hy, rfl⟩ := hr.entry id k hk
    have hf := hr.follows h x hx
    rw [live, hnone, List.append_nil] at hf
    by_cases hkh : k = h
    · subst hkh
      obtain rfl := Option.some.inj (hy.symm.trans hx)
      have hheld : decide (a.inbound.get y.requestId = some k) = true := decide_eq_true hk
      rw [hR', if_pos rfl, routingTo_self rfl]
      exact .of_eq (congrArg (· ++ [chunk]) (hf.2 (by rw [hheld]; rfl)))
    · have hne : x.requestId ≠ y.requestId := fun he => hkh (hr.unique k h y x hy hx he.symm)
      rw [hR', if_neg hne, List.append_nil, live, routingTo_ne rfl hkh, List.append_nil]
      exact hf
  · next hnot =>
    refine ⟨hr.unique, hr.entry, hr.ok, fun h x hx => ?_, hr.done⟩
    have hf := hr.follows h x hx
    rw [hR']
    split
    · next hid =>
      refine (hf.behind List.prefix_rfl [chunk]).mono fun hl => ?_
      rw [live, hid, hnot, hnone] at hl
      cases hl
    · rwa [List.append_nil]

theorem Routed.update (hr : a.Routed R) (hx : a.handlers[h]? = some x) {x' : UploadHandler}
    {routing : Option (Nat × UploadChunk)} (hid : x'.requestId = x.requestId) (hok : x'.Ok)
    (hdone : x'.done = true → a.inbound.get x.requestId ≠ some h)
    (hothers : ∀ k, k ≠ h → ({ a with routing := routing } : Inbound).routingTo k = a.routingTo k)
    (hself : (x'.upload.req.chunks ++ x'.ch ++
      ({ a with routing := routing } : Inbound).routingTo h).Follows
        (({ a with routing := routing } : Inbound).live h x) (R x.requestId)) :
    ({ a.setHandler h x' with routing := routing } : Inbound).Routed R := by
  have hids : ∀ {k : Nat} {y : UploadHandler}, (a.handlers.set h x')[k]? = some y →
      ∃ z, a.handlers[k]? = some z ∧ y.requestId = z.requestId := fun hy => by
    obtain ⟨-, hy⟩ | ⟨rfl, rfl⟩ := List.getElem?_of_set hy
    · exact ⟨_, hy, rfl⟩
    · exact ⟨x, hx, hid⟩
  refine ⟨fun k k' y y' hy hy' he => ?_, fun id k hk => ?_, fun k y hy => ?_, fun k y hy => ?_,
    fun k y hy hd => ?_⟩
  · obtain ⟨z, hz, hzid⟩ := hids hy
    obtain ⟨z', hz', hzid'⟩ := hids hy'
    exact hr.unique k k' z z' hz hz' (hzid ▸ hzid' ▸ he)
  · obtain ⟨y, hy, hyid⟩ := hr.entry id k hk
    obtain hset | ⟨hset, rfl⟩ := List.getElem?_set_of (a := x') hx hy
    · exact ⟨y, hset, hyid⟩
    · exact ⟨x', hset, hid.trans hyid⟩
  · obtain ⟨-, hy⟩ | ⟨rfl, rfl⟩ := List.getElem?_of_set hy
    · exact hr.ok k y hy
    · exact hok
  · obtain ⟨hne, hy⟩ | ⟨rfl, rfl⟩ := List.getElem?_of_set hy
    · have hf := hr.follows k y hy
      rw [live, ← hothers k hne] at hf
      exact hf
    · rw [live, ← hid] at hself
      exact hself
  · obtain ⟨-, hy⟩ | ⟨rfl, rfl⟩ := List.getElem?_of_set hy
    · exact hr.done k y hy hd
    · rw [hid]
      exact hdone hd

theorem Routed.setHandler (hr : a.Routed R) (hx : a.handlers[h]? = some x) {x' : UploadHandler}
    (hid : x'.requestId = x.requestId) (hok : x'.Ok)
    (hchunks : x'.upload.req.chunks ++ x'.ch = x.upload.req.chunks ++ x.ch)
    (hdone : x'.done = true → a.inbound.get x.requestId ≠ some h) :
    (a.setHandler h x').Routed R :=
  hr.update hx hid hok hdone (fun _ _ => rfl) (hchunks ▸ hr.follows h x hx)

theorem Routed.erase (hr : a.Routed R) (id : String) :
    ({ a with inbound := a.inbound.erase id } : Inbound).Routed R where
  unique := hr.unique
  entry := fun id' k hk => hr.entry id' k (GoMap.get_of_get_erase hk)
  ok := hr.ok
  follows := fun k y hy => by
    refine (hr.follows k y hy).mono fun hl => ?_
    rw [live, Bool.or_eq_true] at hl ⊢
    exact hl.imp_left fun hl => decide_eq_true (GoMap.get_of_get_erase (of_decide_eq_true hl))
  done := fun k y hy hd hk => hr.done k y hy hd (GoMap.get_of_get_erase hk)

theorem Routed.deregister (hr : a.Routed R) (hx : a.handlers[h]? = some x) :
    (a.deregister h x).Routed R := by
  have hok := hr.ok h x hx
  unfold Inbound.deregister
  split
  · refine (hr.erase x.requestId).setHandler hx rfl ⟨hok.1, hok.2, hok.3⟩ rfl fun _ hk => ?_
    rw [GoMap.get_erase_self] at hk
    cases hk
  · next hne => exact hr.setHandler hx rfl ⟨hok.1, hok.2, hok.3⟩ rfl fun _ => hne

theorem Routed.put (hr : a.Routed R) (hrouting : a.routing = some (h, chunk))
    (hx : a.handlers[h]? = some x) :
    ({ a.setHandler h { x with ch := x.ch ++ [chunk] } with routing := none } : Inbound).Routed R := by
  have hok := hr.ok h x hx
  have hf := hr.follows h x hx
  have hnone : ({ a with routing := none } : Inbound).routingTo h = [] := routingTo_none rfl h
  refine hr.update hx rfl ⟨hok.1, hok.2, hok.3⟩ (hr.done h x hx) (fun k hne => ?_) (.of_eq ?_)
  · rw [routingTo_ne hrouting (Ne.symm hne)]
    exact routingTo_none rfl k
  · rw [live, routingTo_self hrouting] at hf
    rw [hnone, List.append_nil, ← hf.2 (Bool.or_true _)]
    exact (List.append_assoc ..).symm

theorem Routed.drop (hr : a.Routed R) (hrouting : a.routing = some (h, chunk))
    (hx : a.handlers[h]? = some x) (hdone : x.done = true) :
    ({ a with routing := none } : Inbound).Routed R := by
  refine ⟨hr.unique, hr.entry, hr.ok, fun k y hy => ?_, hr.done⟩
  have hf := hr.follows k y hy
  have hnone : ({ a with routing := none } : Inbound).routingTo k = [] := routingTo_none rfl k
  rw [live, hnone, List.append_nil]
  by_cases hk : k = h
  · subst hk
    obtain rfl := Option.some.inj (hx.symm.trans hy)
    refine (hf.stop (List.prefix_append _ _)).mono fun hl => ?_
    rw [decide_eq_false (hr.done k x hx hdone)] at hl
    exact hl
  · rwa [live, routingTo_ne hrouting (Ne.symm hk), List.append_nil] at hf

theorem step_routed {l : InboundLabel} (hr : a.Routed R) (hs : a.step l = some a') :
    a'.Routed R := by
  cases l with
  | put =>
    obtain ⟨⟨h, chunk⟩, hrouting, hs⟩ := Option.bind_eq_some_iff.mp hs
    obtain ⟨x, hx, hs⟩ := Option.bind_eq_some_iff.mp hs
    split at hs
    · cases hs
      exact hr.put hrouting hx
    · cases hs
  | drop =>
    obtain ⟨⟨h, chunk⟩, hrouting, hs⟩ := Option.bind_eq_some_iff.mp hs
    obtain ⟨x, hx, hs⟩ := Option.bind_eq_some_iff.mp hs
    split at hs
    · next hdone =>
      cases hs
      exact hr.drop hrouting hx hdone
    · cases hs
  | handler h l =>
    obtain ⟨x, hx, hs⟩ := Option.bind_eq_some_iff.mp hs
    obtain ⟨x', hstep, rfl⟩ := Option.map_eq_some_iff.mp hs
    obtain ⟨hchunks, hid, -, hdone⟩ := UploadHandler.step_chunks hstep
    exact hr.setHandler hx hid ((hr.ok h x hx).step hstep) hchunks fun hd =>
      hr.done h x hx (hdone ▸ hd)
  | deregister h =>
    obtain ⟨x, hx, hs⟩ := Option.bind_eq_some_iff.mp hs
    split at hs
    · cases hs
      exact hr.deregister hx
    · cases hs

/-! ### Handlers that have finished -/

def ids (a : Inbound) : List String := a.handlers.map UploadHandler.requestId

def Finished (a : Inbound) (id : String) (code : Nat) : Prop :=
  ∃ (h : Nat) (x : UploadHandler), a.handlers[h]? = some x ∧ x.requestId = id ∧
    x.upload.pc = .finished code

variable {code : Nat}

theorem ids_setHandler {x' : UploadHandler} (hx : a.handlers[h]? = some x)
    (hid : x'.requestId = x.requestId) : (a.setHandler h x').ids = a.ids :=
  List.map_set_of_eq hx hid

theorem Finished.setHandler {x' : UploadHandler} (hf : a.Finished id code)
    (hx : a.handlers[h]? = some x) (hid : x'.requestId = x.requestId)
    (hpc : x.upload.pc = .finished code → x'.upload.pc = .finished code) :
    (a.setHandler h x').Finished id code := by
  obtain ⟨k, y, hy, rfl, hypc⟩ := hf
  obtain hset | ⟨hset, rfl⟩ := List.getElem?_set_of (a := x') hx hy
  · exact ⟨k, y, hset, rfl, hypc⟩
  · exact ⟨k, x', hset, hid, hpc hypc⟩

theorem Finished.registerInbound (hf : a.Finished id code) (id' : String) (before : Option Bytes)
    (exclusive : Bool) : (a.registerInbound id' before exclusive).Finished id code := by
  obtain ⟨k, y, hy, hid, hpc⟩ := hf
  exact ⟨k, y, (List.getElem?_append_left (List.getElem?_eq_some_iff.mp hy).1).trans hy, hid, hpc⟩

theorem ids_registerInbound (a : Inbound) (id : String) (before : Option Bytes) (exclusive : Bool) :
    (a.registerInbound id before exclusive).ids = a.ids ++ [id] := List.map_append

theorem handlers_routeChunk (a : Inbound) (id : String) (chunk : UploadChunk) :
    (a.routeChunk id chunk).handlers = a.handlers := by
  unfold Inbound.routeChunk
  split <;> rfl

theorem step_handlers {l : InboundLabel} (hs : a.step l = some a') :
    a'.handlers = a.handlers ∨ ∃ h x x', a.handlers[h]? = some x ∧
      a'.handlers = (a.setHandler h x').handlers ∧ x'.requestId = x.requestId ∧
      ∀ code, x.upload.pc = .finished code → x'.upload.pc = .finished code := by
  cases l with
  | put =>
    obtain ⟨⟨h, chunk⟩, -, hs⟩ := Option.bind_eq_some_iff.mp hs
    obtain ⟨x, hx, hs⟩ := Option.bind_eq_some_iff.mp hs
    split at hs
    · cases hs
      exact .inr ⟨h, x, _, hx, rfl, rfl, fun _ hpc => hpc⟩
    · cases hs
  | drop =>
    obtain ⟨⟨h, chunk⟩, -, hs⟩ := Option.bind_eq_some_iff.mp hs
    obtain ⟨x, -, hs⟩ := Option.bind_eq_some_iff.mp hs
    split at hs
    · cases hs
      exact .inl rfl
    · cases hs
  | handler h l =>
    obtain ⟨x, hx, hs⟩ := Option.bind_eq_some_iff.mp hs
    obtain ⟨x', hstep, rfl⟩ := Option.map_eq_some_iff.mp hs
    obtain ⟨-, hid, -, -⟩ := UploadHandler.step_chunks hstep
    exact .inr ⟨h, x, x', hx, rfl, hid, fun _ hpc => absurd hpc (UploadHandler.step_ne_finished hstep _)⟩
  | deregister h =>
    obtain ⟨x, hx, hs⟩ := Option.bind_eq_some_iff.mp hs
    split at hs
    · cases hs
      exact .inr ⟨h, x, _, hx, rfl, rfl, fun _ hpc => hpc⟩
    · cases hs

theorem ids_step {l : InboundLabel} (hs : a.step l = some a') : a'.ids = a.ids := by
  obtain heq | ⟨h, x, x', hx, heq, hid, -⟩ := step_handlers hs
  · rw [ids, heq, ids]
  · rw [ids, heq]
    exact ids_setHandler hx hid

theorem Finished.step {l : InboundLabel} (hf : a.Finished id code) (hs : a.step l = some a') :
    a'.Finished id code := by
  obtain heq | ⟨h, x, x', hx, heq, hid, hpc⟩ := step_handlers hs
  · rwa [Finished, heq]
  · rw [Finished, heq]
    exact hf.setHandler hx hid (hpc code)

end Inbound
end Hostlink.Agent
