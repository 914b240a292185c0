import Hostlink.Lib.Run
import Hostlink.Controller.AgentConnCases
import Hostlink.Controller.SharedConn
import Hostlink.Controller.UploadBody

/-! How long a registration lives: an entry of `pending` or `pendingStream` belongs to a dispatcher
that still has to take it out, unless the caller of the dispatcher has gone and left it behind. -/

namespace Hostlink.Controller
variable {π : Type}

def CallPc.holds (stream : Bool) : CallPc → Bool
  | .send => true
  | .body | .wait | .unregister => !stream
  | .consume | .cancel => stream
  | .register | .cancelClose _ _ _ | .cancelSend _ | .returned => false

namespace AgentConn

def registrations (c : AgentConn π) (stream : Bool) : GoMap String Nat :=
  if stream then c.pendingStream else c.pending

structure Accounted (c : AgentConn π) (gone : Nat → Prop) : Prop where
  entry : ∀ (stream : Bool) (id : String) (d : Nat), (c.registrations stream).get id = some d →
    ¬ gone d ∧ ∃ call, c.calls[d]? = some call ∧ call.requestId = id ∧
      call.kind.isStream = stream ∧ call.pc.holds stream = true
  fresh : ∀ (d : Nat) (call : Call π), c.calls[d]? = some call → call.pc = .register → ¬ gone d
  bounded : ∀ d, gone d → d < c.calls.length

variable {c c' : AgentConn π} {gone : Nat → Prop} {d : Nat} {call call' : Call π}

theorem Accounted.congr (h : c.Accounted gone) (hcalls : c'.calls = c.calls)
    (hentry : ∀ stream id e, (c'.registrations stream).get id = some e →
      (c.registrations stream).get id = some e) : c'.Accounted gone where
  entry := by
    intro stream id e he
    rw [hcalls]
    exact h.entry stream id e (hentry stream id e he)
  fresh := by
    rw [hcalls]
    exact h.fresh
  bounded := by
    rw [hcalls]
    exact h.bounded

theorem Accounted.of_iff {gone' : Nat → Prop} (h : c.Accounted gone) (hiff : ∀ d, gone' d ↔ gone d) :
    c.Accounted gone' := by
  have heq : gone' = gone := funext fun d => propext (hiff d)
  rw [heq]
  exact h

theorem Accounted.move (h : c.Accounted gone) (hcall : c.calls[d]? = some call)
    (hcalls : c'.calls = c.calls.set d call') (hid : call'.id = call.id)
    (hkind : call'.kind = call.kind) (hreg : call'.pc = .register → call.pc = .register)
    (hentry : ∀ stream id e, (c'.registrations stream).get id = some e →
      (c.registrations stream).get id = some e ∧
        (e = d → call.pc.holds stream = true → call.kind.isStream = stream →
          call'.pc.holds stream = true)) : c'.Accounted gone where
  entry := by
    intro stream id e he
    obtain ⟨hold, hpc⟩ := hentry stream id e he
    obtain ⟨hgone, other, hother, hkey, hstream, hholds⟩ := h.entry stream id e hold
    refine ⟨hgone, ?_⟩
    by_cases hed : e = d
    · subst hed
      obtain rfl := Option.some.inj (hcall.symm.trans hother)
      have hlt : e < c.calls.length := (List.getElem?_eq_some_iff.mp hcall).1
      refine ⟨call', ?_, ?_, ?_, hpc rfl hholds hstream⟩
      · rw [hcalls, List.getElem?_set_self hlt]
      · rw [← hkey, Call.requestId, Call.requestId, hid]
      · rw [hkind, hstream]
    · refine ⟨other, ?_, hkey, hstream, hholds⟩
      rw [hcalls, List.getElem?_set_ne (Ne.symm hed)]
      exact hother
  fresh := by
    intro e other hother hpc
    rw [hcalls] at hother
    rcases List.getElem?_of_set hother with ⟨-, hold⟩ | ⟨rfl, rfl⟩
    · exact h.fresh e other hold hpc
    · exact h.fresh e call hcall (hreg hpc)
  bounded := by
    intro e he
    rw [hcalls, List.length_set]
    exact h.bounded e he

theorem Accounted.start (h : c.Accounted gone) (kind : CallKind) (id : Nat)
    (hcalls : c'.calls = c.calls ++ [{ kind := kind, id := id }])
    (hentry : ∀ stream, c'.registrations stream = c.registrations stream) : c'.Accounted gone where
  entry := by
    intro stream id e he
    rw [hentry] at he
    obtain ⟨hgone, call, hcall, hrest⟩ := h.entry stream id e he
    refine ⟨hgone, call, ?_, hrest⟩
    rw [hcalls]
    exact List.getElem?_append_of hcall _
  fresh := by
    intro e call hcall hpc hgone
    rw [hcalls] at hcall
    rcases List.getElem?_of_concat hcall with hold | ⟨rfl, -⟩
    · exact h.fresh e call hold hpc hgone
    · exact absurd (h.bounded _ hgone) (Nat.lt_irrefl _)
  bounded := by
    intro e he
    rw [hcalls, List.length_append]
    exact Nat.lt_add_right _ (h.bounded e he)

theorem Accounted.key (h : c.Accounted gone) (hcall : c.calls[d]? = some call) {stream : Bool}
    {id : String} (he : (c.registrations stream).get id = some d) :
    id = call.requestId ∧ call.kind.isStream = stream ∧ call.pc.holds stream = true := by
  obtain ⟨-, other, hother, hkey, hstream, hholds⟩ := h.entry stream id d he
  obtain rfl := Option.some.inj (hcall.symm.trans hother)
  exact ⟨hkey.symm, hstream, hholds⟩

theorem Accounted.register (h : c.Accounted gone) (hcall : c.calls[d]? = some call)
    (hpc : call.pc = .register) (hcalls : c'.calls = c.calls.set d { call with pc := .send })
    (hentry : ∀ stream id e, (c'.registrations stream).get id = some e →
      (c.registrations stream).get id = some e ∨
        e = d ∧ id = call.requestId ∧ call.kind.isStream = stream) : c'.Accounted gone where
  entry := by
    intro stream id e he
    have hlt : d < c.calls.length := (List.getElem?_eq_some_iff.mp hcall).1
    rcases hentry stream id e he with hold | ⟨rfl, rfl, hstream⟩
    · have hed : d ≠ e := by
        rintro rfl
        have hholds := (h.key hcall hold).2.2
        rw [hpc] at hholds
        cases hholds
      obtain ⟨hgone, other, hother, hrest⟩ := h.entry stream id e hold
      refine ⟨hgone, other, ?_, hrest⟩
      rw [hcalls, List.getElem?_set_ne hed]
      exact hother
    · refine ⟨h.fresh e call hcall hpc, { call with pc := .send }, ?_, rfl, hstream, rfl⟩
      rw [hcalls, List.getElem?_set_self hlt]
  fresh := by
    intro e other hother hreg
    rw [hcalls] at hother
    rcases List.getElem?_of_set hother with ⟨-, hold⟩ | ⟨-, rfl⟩
    · exact h.fresh e other hold hreg
    · cases hreg
  bounded := by
    intro e he
    rw [hcalls, List.length_set]
    exact h.bounded e he

theorem Accounted.leave (h : c.Accounted gone) (hcall : c.calls[d]? = some call)
    (hpc : call.pc ≠ .register)
    (hnone : ∀ stream id, (c.registrations stream).get id ≠ some d) :
    c.Accounted fun e => gone e ∨ e = d where
  entry := by
    intro stream id e he
    obtain ⟨hgone, hrest⟩ := h.entry stream id e he
    refine ⟨?_, hrest⟩
    rintro (hold | rfl)
    · exact hgone hold
    · exact hnone stream id he
  fresh := by
    intro e other hother hreg
    rintro (hold | rfl)
    · exact h.fresh e other hother hreg hold
    · obtain rfl := Option.some.inj (hcall.symm.trans hother)
      exact hpc hreg
  bounded := by
    rintro e (hold | rfl)
    · exact h.bounded e hold
    · exact (List.getElem?_eq_some_iff.mp hcall).1

theorem Accounted.takeOut {id : String} (h : c.Accounted gone) (stream : Bool)
    (hentry : (c.registrations stream).get id = some d) (hcalls : c'.calls = c.calls)
    (hself : c'.registrations stream = (c.registrations stream).erase id)
    (hother : c'.registrations (!stream) = c.registrations (!stream)) :
    c'.Accounted fun e => gone e ∨ e = d := by
  have hold : ∀ stream' id' e, (c'.registrations stream').get id' = some e →
      (c.registrations stream').get id' = some e := by
    intro stream' id' e he
    rcases Bool.eq_or_eq_not stream' stream with rfl | rfl
    · rw [hself] at he
      exact GoMap.get_of_get_erase he
    · rwa [hother] at he
  obtain ⟨-, call, hcall, hid, hkind, hholds⟩ := h.entry stream id d hentry
  refine (h.congr hcalls hold).leave (hcalls ▸ hcall) ?_ fun stream' id' he => ?_
  · intro hpc
    rw [hpc] at hholds
    cases hholds
  · obtain ⟨rfl, hkind', -⟩ := h.key hcall (hold stream' id' d he)
    obtain rfl := hkind.symm.trans hkind'
    rw [hself, ← hid, GoMap.get_erase_self] at he
    cases he

theorem Accounted.setCall (h : c.Accounted gone) (hcall : c.calls[d]? = some call)
    (hid : call'.id = call.id) (hkind : call'.kind = call.kind)
    (hreg : call'.pc = .register → call.pc = .register)
    (hpc : ∀ stream, call.pc.holds stream = true → call.kind.isStream = stream →
      call'.pc.holds stream = true) : (c.setCall d call').Accounted gone :=
  h.move hcall rfl hid hkind hreg fun stream _ _ he => ⟨he, fun _ => hpc stream⟩

theorem Accounted.callStep {l : CallLabel} {out : Option Command} (h : c.Accounted gone)
    (hcall : c.calls[d]? = some call) (hs : CallStep c d call l c' out) (hl : l ≠ .cancel) :
    c'.Accounted gone := by
  cases hs with
  | refused hpc =>
    refine h.setCall hcall rfl rfl (by rintro ⟨⟩) fun stream hholds => ?_
    rw [hpc] at hholds
    cases hholds
  | registered hpc hopen hkind =>
    refine h.register hcall hpc rfl fun stream id e he => ?_
    cases stream with
    | true => exact .inl he
    | false =>
      rcases GoMap.get_of_get_insert he with ⟨hid, hed⟩ | hold
      · exact .inr ⟨hed, hid, hkind⟩
      · exact .inl hold
  | registeredStream hpc hopen hkind =>
    refine h.register hcall hpc rfl fun stream id e he => ?_
    cases stream with
    | false => exact .inl he
    | true =>
      rcases GoMap.get_of_get_insert he with ⟨hid, hed⟩ | hold
      · exact .inr ⟨hed, hid, hkind⟩
      · exact .inl hold
  | sent err hpc =>
    have hnext : call.afterSend err ≠ .register ∧
        (call.afterSend err).holds call.kind.isStream = true := by
      rcases call.afterSend_cases err with ⟨hafter | hafter | hafter, hkind⟩ | ⟨hafter | hafter, hkind⟩
      all_goals
        rw [hafter, hkind]
        exact ⟨by rintro ⟨⟩, rfl⟩
    refine h.setCall hcall rfl rfl (fun hreg => absurd hreg hnext.1) fun stream _ hstream => ?_
    rw [← hstream]
    exact hnext.2
  | chunk => exact h
  | await hpc | ctxDone err hpc | tookResult r hpc | tookClosed hpc =>
    -- `body`, `wait` and `unregister` have the same entries
    refine h.setCall hcall rfl rfl (by rintro ⟨⟩) fun stream hholds _ => ?_
    rw [hpc] at hholds
    exact hholds
  | tookFrame r frames hpc hframes =>
    exact h.setCall hcall rfl rfl id fun stream hholds _ => hholds
  | unregistered hpc =>
    refine h.move hcall rfl rfl rfl (by rintro ⟨⟩) fun stream id e he => ?_
    cases stream with
    | true =>
      refine ⟨he, fun _ hholds => ?_⟩
      rw [hpc] at hholds
      cases hholds
    | false =>
      have hold : (c.registrations false).get id = some e := GoMap.get_of_get_erase he
      refine ⟨hold, ?_⟩
      rintro rfl
      rw [(h.key hcall hold).1] at he
      cases (GoMap.get_erase_self ..).symm.trans he
  | cancelLive | cancelGone => exact absurd rfl hl
  | cancelClosed live closed failed hpc =>
    refine h.setCall hcall rfl rfl ?_ fun stream hholds => ?_
    · rcases Call.afterCancel_cases failed with hafter | hafter
      all_goals
        dsimp only
        rw [hafter]
        split
        · rintro ⟨⟩
        · rintro ⟨⟩
    · rw [hpc] at hholds
      cases hholds
  | cancelSent failed err hpc =>
    refine h.move hcall rfl rfl rfl ?_ fun stream id e he => ⟨he, fun _ hholds => ?_⟩
    · rcases Call.afterCancel_cases failed with hafter | hafter
      all_goals
        dsimp only
        rw [hafter]
        rintro ⟨⟩
    · rw [hpc] at hholds
      cases hholds

theorem not_holds_of_cancel {failed : Bool} (hpc : call.pc = if failed then .cancel else .consume) :
    call.pc.holds false = false := by
  rw [hpc]
  cases failed <;> rfl

theorem Accounted.cancelStep {out : Option Command} (h : c.Accounted gone)
    (hcall : c.calls[d]? = some call) (hs : CallStep c d call .cancel c' out) :
    c'.Accounted fun e => gone e ∨ e = d := by
  have hlt : d < c.calls.length := (List.getElem?_eq_some_iff.mp hcall).1
  cases hs with
  | cancelLive failed hpc hlive =>
    have hnext : AgentConn.Accounted { c.setCall d { call with pc := .cancelClose true c.closed failed } with
        pendingStream := c.pendingStream.erase call.requestId } gone := by
      refine h.move hcall rfl rfl rfl (by rintro ⟨⟩) fun stream id e he => ?_
      cases stream with
      | false =>
        refine ⟨he, fun _ hholds => ?_⟩
        rw [not_holds_of_cancel hpc] at hholds
        cases hholds
      | true =>
        have hold : (c.registrations true).get id = some e := GoMap.get_of_get_erase he
        refine ⟨hold, ?_⟩
        rintro rfl
        rw [(h.key hcall hold).1] at he
        cases (GoMap.get_erase_self ..).symm.trans he
    have hcall' := List.getElem?_set_self (a := { call with pc := .cancelClose true c.closed failed }) hlt
    exact hnext.leave hcall' (by rintro ⟨⟩) fun stream id he => by cases (hnext.key hcall' he).2.2
  | cancelGone failed hpc hlive =>
    have hnext : (c.setCall d { call with pc := .cancelClose false c.closed failed }).Accounted gone := by
      refine h.move hcall rfl rfl rfl (by rintro ⟨⟩) fun stream id e he => ⟨he, ?_⟩
      rintro rfl hholds
      cases stream with
      | false =>
        rw [not_holds_of_cancel hpc] at hholds
        cases hholds
      | true =>
        rw [(h.key hcall he).1] at he
        exact absurd he hlive
    have hcall' := List.getElem?_set_self (a := { call with pc := .cancelClose false c.closed failed }) hlt
    exact hnext.leave hcall' (by rintro ⟨⟩) fun stream id he => by cases (hnext.key hcall' he).2.2

theorem Accounted.deliveryStep {l : ConnLabel π} (h : c.Accounted gone) (hs : DeliveryStep c l c') :
    c'.Accounted gone := by
  cases hs with
  | result id body d hidle hstream hd =>
    refine h.congr rfl fun stream key e he => ?_
    cases stream with
    | true => exact he
    | false => exact GoMap.get_of_get_erase he
  | terminal id body d hidle hd =>
    refine h.congr rfl fun stream key e he => ?_
    cases stream with
    | true => exact GoMap.get_of_get_erase he
    | false => exact he
  | progress | dropped => exact h.congr rfl fun _ _ _ he => he
  | unknown => exact h
  | putResult d r call hd hcall | putFrame d r call hd hcall =>
    exact h.move hcall rfl rfl rfl id fun _ _ _ he => ⟨he, fun _ hholds _ => hholds⟩

theorem calls_closeAll (hcall : c.closeAll.calls[d]? = some call') :
    ∃ call, c.calls[d]? = some call ∧ call'.pc = call.pc := by
  rw [closeAll, List.getElem?_mapIdx] at hcall
  obtain ⟨call, hold, rfl⟩ := Option.map_eq_some_iff.mp hcall
  refine ⟨call, hold, ?_⟩
  split
  · rfl
  · rfl

theorem Accounted.closeAll (h : c.Accounted gone) : c.closeAll.Accounted gone where
  entry := by
    intro stream id d he
    cases stream <;> cases he
  fresh := by
    intro d call' hcall' hpc
    obtain ⟨call, hcall, hsame⟩ := calls_closeAll hcall'
    exact h.fresh d call hcall (hsame.symm.trans hpc)
  bounded := by
    intro d hd
    rw [AgentConn.closeAll, List.length_mapIdx]
    exact h.bounded d hd

theorem Accounted.step {l : ConnLabel π} {out : Option Command} (h : c.Accounted gone)
    (hs : c.step l = some (c', out)) : c'.Accounted fun e => gone e ∨ l = .call e .cancel := by
  have hplain : (∀ e, l ≠ .call e .cancel) → c'.Accounted gone →
      c'.Accounted fun e => gone e ∨ l = .call e .cancel := by
    intro hl h'
    refine h'.of_iff fun e => ?_
    simp only [hl, or_false]
  cases step_cases hs with
  | start kind => exact hplain (by rintro e ⟨⟩) (h.start kind c.nextSeq rfl fun _ => rfl)
  | call d call l c' out hcall hstep =>
    by_cases hl : l = .cancel
    · subst hl
      refine (h.cancelStep hcall hstep).of_iff fun e => or_congr_right ?_
      simp only [ConnLabel.call.injEq, and_true, eq_comm]
    · refine hplain ?_ (h.callStep hcall hstep hl)
      rintro e ⟨⟩
      exact hl rfl
  | delivery l c' hstep =>
    refine hplain ?_ (h.deliveryStep hstep)
    rintro e rfl
    cases hstep
  | closeAll => exact hplain (by rintro e ⟨⟩) h.closeAll
  | closeDone d call hcall hd =>
    refine hplain (by rintro e ⟨⟩) ?_
    exact h.move hcall rfl rfl rfl id fun _ _ _ he => ⟨he, fun _ hholds _ => hholds⟩

end AgentConn

theorem SharedConn.accounted_step {s t : SharedConn π} {gone : Nat → Prop} {l : SharedLabel π}
    (h : s.conn.Accounted gone) (hs : s.step l = some t) :
    t.conn.Accounted fun e => gone e ∨ l = .conn (.call e .cancel) := by
  have hdeliver : ∀ {i : Nat} {k : ConnLabel π}, (∀ e, k ≠ .call e .cancel) →
      s.deliver i k = some t → t.conn.Accounted gone := by
    intro i k hk hdeliver
    obtain ⟨dl, -, hdeliver⟩ := Option.bind_eq_some_iff.mp hdeliver
    obtain ⟨⟨c', out⟩, hstep, rfl⟩ := Option.map_eq_some_iff.mp hdeliver
    have hdl : ({ s.conn with delivery := dl } : AgentConn π).Accounted gone :=
      h.congr rfl fun _ _ _ he => he
    refine AgentConn.Accounted.of_iff ((hdl.step hstep).congr rfl fun _ _ _ he => he) fun e => ?_
    simp only [hk, or_false]
  cases l with
  | conn k =>
    obtain ⟨⟨c', out⟩, hstep, rfl⟩ := Option.map_eq_some_iff.mp hs
    refine AgentConn.Accounted.of_iff ((h.step hstep).congr rfl fun _ _ _ he => he) fun e => ?_
    simp only [SharedLabel.conn.injEq]
  | put i | drop i =>
    refine (hdeliver (by rintro e ⟨⟩) hs).of_iff fun e => ?_
    simp only [reduceCtorEq, or_false]

/-! ### Uploads and their callers -/

/-- The loop of `peerServer.Upload` between the opening frame and `await`. -/
inductive ChunkRelay where
  | recv
  | send (last : Bool)
  | finished
  | failed
  deriving DecidableEq, Repr

/-- Who sends the chunks of an upload: `service.dispatchUpload` with `streamUploadBody`, or
`peerServer.Upload`. -/
inductive UploadSource where
  | body (u : BodySender)
  | relay (r : ChunkRelay)
  deriving DecidableEq, Repr

inductive SourceLabel where
  | read (data : Agent.Bytes) (err : Option GoError)
  | recv (frame : Except GoError Bool)
  | sent (err : Option GoError)

namespace UploadSource

def next : UploadSource → Option Bool
  | .body u => u.next.map (·.last)
  | .relay (.send last) => some last
  | .relay _ => none

def step : UploadSource → SourceLabel → Option UploadSource
  | .body u, .read data err => (u.step (.read data err)).map .body
  | .body u, .sent err => (u.step (.sent err)).map .body
  | .relay .recv, .recv (.ok last) => some (.relay (.send last))
  | .relay .recv, .recv (.error _) => some (.relay .failed)
  | .relay (.send _), .sent (some _) => some (.relay .failed)
  | .relay (.send last), .sent none => some (.relay (if last then .finished else .recv))
  | _, _ => none

def finished : UploadSource → Bool
  | .body u => u.pc = .returned none
  | .relay r => r = .finished

def failed : UploadSource → Bool
  | .body u =>
    match u.pc with
    | .returned (some _) => true
    | _ => false
  | .relay r => r = .failed

end UploadSource

structure Callers (π : Type) where
  shared : SharedConn π
  sources : Nat → UploadSource := fun _ => .body {}

inductive CallersLabel (π : Type) where
  | start (kind : CallKind) (relayed : Bool)
  | conn (l : SharedLabel π)
  | source (d : Nat) (l : SourceLabel)
  | await (d : Nat)

namespace Callers

def init (agentId : String) : Callers π := { shared := .init agentId }

/-- The steps of the connection that are made with their caller. -/
def driven : SharedLabel π → Bool
  | .conn (.start _) | .conn (.call _ (.chunk _ _)) | .conn (.call _ .await) => true
  | _ => false

def stepSource (s : Callers π) (d : Nat) (src : UploadSource) : SourceLabel → Option (Callers π)
  | .sent err =>
    (s.sources d).next.bind fun last =>
      (s.shared.step (.conn (.call d (.chunk last err)))).map fun shared =>
        { shared := shared, sources := Function.update s.sources d src }
  | .read _ _ | .recv _ => some { s with sources := Function.update s.sources d src }

def step (s : Callers π) : CallersLabel π → Option (Callers π)
  | .start kind relayed =>
    (s.shared.step (.conn (.start kind))).map fun shared =>
      { shared := shared
        sources := Function.update s.sources s.shared.conn.calls.length
          (if relayed then .relay .recv else .body {}) }
  | .conn l => if driven l then none else (s.shared.step l).map fun shared => { s with shared := shared }
  | .source d l =>
    if (s.shared.conn.calls[d]?).any (·.pc = .body) then
      ((s.sources d).step l).bind fun src => s.stepSource d src l
    else none
  | .await d =>
    if (s.sources d).finished then
      (s.shared.step (.conn (.call d .await))).map fun shared => { s with shared := shared }
    else none

def Returned (s : Callers π) (ls : List (CallersLabel π)) (d : Nat) : Prop :=
  ∃ call, s.shared.conn.calls[d]? = some call ∧ (call.pc = .returned ∨
    call.pc = .body ∧ (s.sources d).failed = true ∨
    call.pc = .consume ∧ .conn (.conn (.call d .cancel)) ∈ ls)

def registered (s : Callers π) (d : Nat) : Bool :=
  (s.shared.conn.calls[d]?).any fun call => s.shared.conn.pending.get call.requestId = some d

/-- The source of an upload fails only when the result of the agent has been delivered. -/
def careful (s : Callers π) : CallersLabel π → Bool
  | .source d l => !((s.sources d).step l).any (·.failed) || !s.registered d
  | .start _ _ | .conn _ | .await _ => true

def gone (s : Callers π) (ls : List (CallersLabel π)) (d : Nat) : Prop :=
  (s.sources d).failed = true ∨ .conn (.conn (.call d .cancel)) ∈ ls

variable {s t : Callers π} {ls : List (CallersLabel π)}

theorem gone_snoc {l : CallersLabel π} {d : Nat} (hsource : (t.sources d).failed = (s.sources d).failed) :
    t.gone (ls ++ [l]) d ↔ s.gone ls d ∨ l = .conn (.conn (.call d .cancel)) := by
  rw [gone, gone, hsource, List.mem_append, List.mem_singleton, or_assoc, eq_comm (a := l)]

theorem accounted_conn {l : CallersLabel π} {k : SharedLabel π}
    (h : s.shared.conn.Accounted (s.gone ls)) (hs : s.shared.step k = some t.shared)
    (hsource : ∀ d, (t.sources d).failed = (s.sources d).failed)
    (hlabel : ∀ d, l = .conn (.conn (.call d .cancel)) ↔ k = .conn (.call d .cancel)) :
    t.shared.conn.Accounted (t.gone (ls ++ [l])) := by
  refine (SharedConn.accounted_step h hs).of_iff fun d => ?_
  rw [gone_snoc (hsource d), hlabel]

theorem not_entry_of_careful {d : Nat} {call : Call π} (h : s.shared.conn.Accounted (s.gone ls))
    (hcall : s.shared.conn.calls[d]? = some call) (hpc : call.pc = .body)
    (hreg : s.registered d = false) (stream : Bool) (id : String) :
    (s.shared.conn.registrations stream).get id ≠ some d := by
  intro he
  obtain ⟨rfl, -, hholds⟩ := h.key hcall he
  rw [hpc] at hholds
  cases stream with
  | true => cases hholds
  | false =>
    rw [registered, hcall, Option.any_some] at hreg
    exact of_decide_eq_false hreg he

theorem failed_of_step {src src' : UploadSource} {l : SourceLabel} (h : src.step l = some src') :
    src.failed = false := by
  cases src with
  | body u =>
    unfold UploadSource.failed
    dsimp only
    split
    · next err hpc =>
      cases l with
      | read data err => simp [UploadSource.step, BodySender.step, hpc] at h
      | recv frame => cases h
      | sent err => cases err <;> simp [UploadSource.step, BodySender.step, BodySender.next, hpc] at h
    · rfl
  | relay r =>
    cases r with
    | failed => cases h
    | recv | send | finished => rfl

theorem chunk_conn {s t : SharedConn π} {d : Nat} {last : Bool} {err : Option GoError}
    (h : s.step (.conn (.call d (.chunk last err))) = some t) :
    t.conn.calls = s.conn.calls ∧ t.conn.registrations = s.conn.registrations := by
  obtain ⟨⟨c', out⟩, hstep, rfl⟩ := Option.map_eq_some_iff.mp h
  cases AgentConn.step_cases hstep with
  | call d call l c' out hcall hchunk =>
    cases hchunk
    exact ⟨rfl, rfl⟩
  | delivery l c' hdelivery => cases hdelivery

theorem source_accounted {d : Nat} {l : SourceLabel} {src : UploadSource} {call : Call π}
    (h : s.shared.conn.Accounted (s.gone ls)) (hcall : s.shared.conn.calls[d]? = some call)
    (hpc : call.pc = .body) (hsrc : (s.sources d).step l = some src)
    (hok : s.careful (.source d l) = true) (hsources : t.sources = Function.update s.sources d src)
    (hcalls : t.shared.conn.calls = s.shared.conn.calls)
    (hentry : t.shared.conn.registrations = s.shared.conn.registrations) :
    t.shared.conn.Accounted (t.gone (ls ++ [.source d l])) := by
  have hsame : ∀ gone, s.shared.conn.Accounted gone → t.shared.conn.Accounted gone :=
    fun gone h' => h'.congr hcalls fun stream id e he => by rwa [hentry] at he
  have hother : ∀ e, (t.sources e).failed = (s.sources e).failed →
      (t.gone (ls ++ [.source d l]) e ↔ s.gone ls e) := by
    intro e he
    rw [gone_snoc he]
    simp only [reduceCtorEq, or_false]
  have hnew : t.sources d = src := by rw [hsources, Function.update_self]
  by_cases hfailed : src.failed = true
  · have hreg : s.registered d = false := by
      rw [careful, hsrc, Option.any_some, hfailed] at hok
      simpa using hok
    have hleave := h.leave hcall (by rw [hpc]; rintro ⟨⟩) (not_entry_of_careful h hcall hpc hreg)
    refine (hsame _ hleave).of_iff fun e => ?_
    by_cases he : e = d
    · subst he
      have hgone : t.gone (ls ++ [.source e l]) e := .inl (hnew ▸ hfailed)
      exact ⟨fun _ => .inr rfl, fun _ => hgone⟩
    · rw [hother e (by rw [hsources, Function.update_of_ne he])]
      simp only [he, or_false]
  · refine (hsame _ h).of_iff fun e => hother e ?_
    by_cases he : e = d
    · subst he
      rw [hnew, failed_of_step hsrc]
      exact eq_false_of_ne_true hfailed
    · rw [hsources, Function.update_of_ne he]

theorem step_accounted {l : CallersLabel π} (h : s.shared.conn.Accounted (s.gone ls))
    (hok : s.careful l = true) (hs : s.step l = some t) :
    t.shared.conn.Accounted (t.gone (ls ++ [l])) := by
  cases l with
  | start kind relayed =>
    simp only [step] at hs
    obtain ⟨shared, hstep, rfl⟩ := Option.map_eq_some_iff.mp hs
    refine accounted_conn h hstep (fun d => ?_) fun d => by simp
    by_cases hd : d = s.shared.conn.calls.length
    · -- nobody has used this number yet
      have hnone : (s.sources d).failed = false := by
        refine eq_false_of_ne_true fun hfailed => ?_
        exact absurd (h.bounded d (.inl hfailed)) (hd ▸ Nat.lt_irrefl _)
      dsimp only
      rw [hnone, hd, Function.update_self]
      cases relayed <;> rfl
    · dsimp only
      rw [Function.update_of_ne hd]
  | conn k =>
    simp only [step] at hs
    split at hs
    · cases hs
    · obtain ⟨shared, hstep, rfl⟩ := Option.map_eq_some_iff.mp hs
      exact accounted_conn h hstep (fun _ => rfl) fun d => by simp only [CallersLabel.conn.injEq]
  | source d k =>
    simp only [step] at hs
    split at hs
    · next hbody =>
      obtain ⟨call, hcall, hpc⟩ := (Option.any_eq_true ..).mp hbody
      obtain ⟨src, hsrc, hs⟩ := Option.bind_eq_some_iff.mp hs
      have hpc : call.pc = .body := of_decide_eq_true hpc
      cases k with
      | sent err =>
        obtain ⟨last, -, hs⟩ := Option.bind_eq_some_iff.mp hs
        obtain ⟨shared, hstep, rfl⟩ := Option.map_eq_some_iff.mp hs
        obtain ⟨hcalls, hentry⟩ := chunk_conn hstep
        exact source_accounted h hcall hpc hsrc hok rfl hcalls hentry
      | read | recv =>
        obtain rfl := Option.some.inj hs
        exact source_accounted h hcall hpc hsrc hok rfl rfl rfl
    · cases hs
  | await d =>
    simp only [step] at hs
    split at hs
    · obtain ⟨shared, hstep, rfl⟩ := Option.map_eq_some_iff.mp hs
      exact accounted_conn h hstep (fun _ => rfl) fun e => by simp
    · cases hs

theorem accounted_of_run {agentId : String}
    (h : Lts.Run step (fun s l => careful s l = true) (init agentId) ls s) :
    s.shared.conn.Accounted (s.gone ls) := by
  refine h.history (I := fun ls s => s.shared.conn.Accounted (s.gone ls))
    (fun _ _ _ _ hi hok hs => step_accounted hi hok hs) ⟨?_, ?_, ?_⟩
  · intro stream id d he
    cases stream <;> cases he
  · rintro d call ⟨⟩
  · rintro d (⟨⟨⟩⟩ | hmem)
    exact absurd hmem List.not_mem_nil

/-- As long as no upload is given up while it is registered, a caller that has returned has no
registration, and when all have returned there is none. -/
theorem registrations_end_of_run {agentId : String}
    (h : Lts.Run step (fun s l => careful s l = true) (init agentId) ls s) :
    (∀ d, s.Returned ls d → ∀ id, s.shared.conn.pending.get id ≠ some d ∧
      s.shared.conn.pendingStream.get id ≠ some d) ∧
    ((∀ d, d < s.shared.conn.calls.length → s.Returned ls d) → ∀ id,
      s.shared.conn.pending.get id = none ∧ s.shared.conn.pendingStream.get id = none) := by
  have hi := accounted_of_run h
  have hnone : ∀ d, s.Returned ls d → ∀ stream id,
      (s.shared.conn.registrations stream).get id ≠ some d := by
    rintro d ⟨call, hcall, hreturned⟩ stream id he
    have hgone := (hi.entry stream id d he).1
    have hholds := (hi.key hcall he).2.2
    rcases hreturned with hpc | ⟨-, hfailed⟩ | ⟨-, hcancelled⟩
    · rw [hpc] at hholds
      cases hholds
    · exact hgone (.inl hfailed)
    · exact hgone (.inr hcancelled)
  refine ⟨fun d hd id => ⟨hnone d hd false id, hnone d hd true id⟩, fun hall id => ?_⟩
  have hempty : ∀ stream, (s.shared.conn.registrations stream).get id = none := by
    intro stream
    refine Option.eq_none_iff_forall_ne_some.mpr fun d he => ?_
    obtain ⟨-, call, hcall, -⟩ := hi.entry stream id d he
    exact hnone d (hall d (List.getElem?_eq_some_iff.mp hcall).1) stream id he
  exact ⟨hempty false, hempty true⟩

def settled : List (CallersLabel Nat) :=
  [.start .unary false, .start (.stream true) false, .start .upload false,
    .conn (.conn (.call 0 .register)), .conn (.conn (.call 1 .register)),
    .conn (.conn (.call 2 .register)), .conn (.conn (.call 0 (.send none))),
    .conn (.conn (.call 1 (.send none))), .conn (.conn (.call 2 (.send none))),
    .conn (.conn (.receive (.result "1" 0))), .conn (.put 0), .conn (.conn (.call 0 .take)),
    .conn (.conn (.call 0 .unregister)), .conn (.conn (.call 1 .cancel)),
    .conn (.conn (.call 1 .cancelClose)), .conn (.conn (.call 1 (.cancelSend none))),
    .conn (.conn (.receive (.result "3" 413))), .conn (.put 1),
    .source 2 (.read [] (some (.new "unexpected EOF")))]

theorem registrations_end_of_run_settled : ∃ s : Callers Nat,
    Lts.Run step (fun s l => careful s l = true) (init "node-1") settled s ∧
      (∀ d, d < s.shared.conn.calls.length → s.Returned settled d) ∧
      ∀ id, s.shared.conn.pending.get id = none ∧ s.shared.conn.pendingStream.get id = none := by
  let s := (Lts.execOk step (fun s l => careful s l = true) (init "node-1") settled).get
    (by decide +kernel)
  have hrun := Lts.run_of_execOk (t := s) (Option.some_get _).symm
  have hpcs : s.shared.conn.calls.map Call.pc = [.returned, .consume, .body] := by decide +kernel
  have hfailed : (s.sources 2).failed = true := by decide +kernel
  have hpc : ∀ {d : Nat} {pc}, [CallPc.returned, .consume, .body][d]? = some pc →
      ∃ call : Call Nat, s.shared.conn.calls[d]? = some call ∧ call.pc = pc := by
    intro d pc hd
    rw [← hpcs, List.getElem?_map] at hd
    exact Option.map_eq_some_iff.mp hd
  have hreturned : ∀ d, d < s.shared.conn.calls.length → s.Returned settled d := by
    intro d hd
    have hlen : s.shared.conn.calls.length = 3 := by rw [← List.length_map Call.pc, hpcs]; rfl
    rw [hlen] at hd
    obtain rfl | rfl | rfl : d = 0 ∨ d = 1 ∨ d = 2 := by omega
    · obtain ⟨call, hcall, hpc⟩ := hpc (d := 0) rfl
      exact ⟨call, hcall, .inl hpc⟩
    · obtain ⟨call, hcall, hpc⟩ := hpc (d := 1) rfl
      exact ⟨call, hcall, .inr (.inr ⟨hpc, by simp [settled]⟩)⟩
    · obtain ⟨call, hcall, hpc⟩ := hpc (d := 2) rfl
      exact ⟨call, hcall, .inr (.inl ⟨hpc, hfailed⟩)⟩
  exact ⟨s, hrun, hreturned, (registrations_end_of_run hrun).2 hreturned⟩

/-- The client of an upload goes away: `service.dispatchUpload` returns the error of the body, and
its registration stays. -/
theorem registration_left_behind : ∃ (ls : List (CallersLabel Nat)) (s : Callers Nat),
    Lts.AnyRun step (init "node-1") ls s ∧
      (∀ d, d < s.shared.conn.calls.length → s.Returned ls d) ∧ s.shared.conn.closed = false ∧
      s.shared.conn.pending.get "1" = some 0 := by
  let ls : List (CallersLabel Nat) := [.start .upload false, .conn (.conn (.call 0 .register)),
    .conn (.conn (.call 0 (.send none))), .source 0 (.read [] (some (.new "unexpected EOF")))]
  let s := (Lts.exec step (init "node-1") ls).get (by decide +kernel)
  have hrun := Lts.anyRun_of_exec (t := s) (Option.some_get _).symm
  have hcalls : s.shared.conn.calls = [{ kind := .upload, id := 1, pc := .body }] := by decide +kernel
  refine ⟨ls, s, hrun, ?_, by decide +kernel, by decide +kernel⟩
  intro d hd
  rw [hcalls] at hd
  obtain rfl : d = 0 := Nat.lt_one_iff.mp hd
  refine ⟨{ kind := .upload, id := 1, pc := .body }, ?_, .inr (.inl ⟨rfl, by decide +kernel⟩)⟩
  rw [hcalls]
  rfl

end Callers
end Hostlink.Controller
