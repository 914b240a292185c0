import Hostlink.Lib.Run
import Hostlink.Controller.AgentConnCases
import Hostlink.Controller.Streaming

/-! The receive loop of a Control stream and a consumer that has stopped reading. A progress frame of
a stream that is not reliable is dropped when the stream's buffer is full; its terminal frame goes
through `deliver`, which waits for room whatever the method. -/

namespace Hostlink.Controller

def ConnLabel.delivers {π : Type} : ConnLabel π → Bool
  | .put | .drop => true
  | _ => false

def ConnLabel.isOf {π : Type} (d : Nat) : ConnLabel π → Bool
  | .call e _ => e = d
  | _ => false

namespace AgentConn
variable {π : Type} {c c' : AgentConn π} {d : Nat} {call : Call π} {r : Reply π} {l : ConnLabel π}
  {out : Option Command}

def next (c : AgentConn π) (l : ConnLabel π) : Option (AgentConn π) := (c.step l).map Prod.fst

def ready (c : AgentConn π) : Bool :=
  c.delivery.target.isNone || c.put.isSome || c.drop.isSome

/-- The loop gets through with `r` whatever the others do meanwhile or leave undone. -/
def NeverWaits (c : AgentConn π) (r : Reply π) : Prop :=
  ∀ ms c', Lts.Run next (fun _ l => l.delivers = false) (c.receive r) ms c' → c'.ready = true

/-! ### The others' steps -/

theorem step_frames (h : c.step l = some (c', out)) (hl : l.delivers = false)
    (hbusy : c.delivery ≠ .idle) (hcall : c.calls[d]? = some call) :
    c'.delivery = c.delivery ∧ ∃ call', c'.calls[d]? = some call' ∧
      call'.frames.length ≤ call.frames.length ∧ (call.done = true → call'.done = true) := by
  have hlt := (List.getElem?_eq_some_iff.mp hcall).1
  cases step_cases h with
  | start kind => exact ⟨rfl, call, List.getElem?_append_of hcall _, Nat.le_refl _, id⟩
  | call e other k c'' out hother hstep =>
    obtain ⟨hdelivery, other', hcalls, -, hlen, hdone⟩ := hstep.set hother
    refine ⟨hdelivery, ?_⟩
    rw [hcalls]
    rcases List.getElem?_set_of hother hcall with hkept | ⟨hset, rfl⟩
    · exact ⟨call, hkept, Nat.le_refl _, id⟩
    · exact ⟨other', hset, hlen, hdone⟩
  | delivery l c'' hdelivery =>
    cases hdelivery with
    | result _ _ _ hidle | terminal _ _ _ hidle | progress _ _ _ _ hidle | unknown _ hidle =>
      exact absurd hidle hbusy
    | putResult | putFrame | dropped => cases hl
  | closeAll =>
    have hget : c.closeAll.calls[d]? =
        some (if d ∈ c.pending.keys.filterMap c.pending.get then { call with chanClosed := true }
          else call) := by
      rw [closeAll, List.getElem?_mapIdx, hcall, Option.map_some]
    refine ⟨rfl, _, hget, ?_⟩
    split <;> exact ⟨Nat.le_refl _, id⟩
  | closeDone e other hother hmem =>
    refine ⟨rfl, ?_⟩
    rcases List.getElem?_set_of hother hcall with hkept | ⟨hset, rfl⟩
    · exact ⟨call, hkept, Nat.le_refl _, id⟩
    · exact ⟨_, hset, Nat.le_refl _, fun _ => rfl⟩

/-! ### The loop -/

theorem put_isSome_of_room (hd : c.delivery = .stream d r ∨ c.delivery = .advisory d r)
    (hcall : c.calls[d]? = some call) (hroom : call.frames.length < streamBuffer) :
    c.put.isSome = true := by
  rcases hd with hd | hd
  · rw [put, hd]
    simp only [hcall, Option.bind_some, putFrame, if_pos hroom, Option.isSome_some]
  · rw [put, hd]
    simp only [hcall, Option.bind_some, putFrame, if_pos hroom, Option.isSome_some]

theorem drop_isSome_of_done (hd : c.delivery = .stream d r) (hcall : c.calls[d]? = some call)
    (hdone : call.done = true) : c.drop.isSome = true := by
  rw [drop, hd]
  simp only [hcall, Option.bind_some, if_pos hdone, Option.isSome_some]

theorem drop_isSome_of_full (hd : c.delivery = .advisory d r) (hcall : c.calls[d]? = some call)
    (hfull : ¬call.frames.length < streamBuffer) : c.drop.isSome = true := by
  rw [drop, hd]
  simp only [hcall, Option.bind_some, decide_eq_false hfull, Bool.not_false, Bool.or_true, if_true,
    Option.isSome_some]

theorem ready_of_advisory (hd : c.delivery = .advisory d r) (hcall : c.calls[d]? = some call) :
    c.ready = true := by
  by_cases hroom : call.frames.length < streamBuffer
  · rw [ready, put_isSome_of_room (.inr hd) hcall hroom, Bool.or_true, Bool.true_or]
  · rw [ready, drop_isSome_of_full hd hcall hroom, Bool.or_true]

theorem ready_of_stream_iff (hd : c.delivery = .stream d r) (hcall : c.calls[d]? = some call) :
    c.ready = true ↔ call.frames.length < streamBuffer ∨ call.done = true := by
  constructor
  · intro hready
    by_contra hn
    rw [not_or, Bool.not_eq_true] at hn
    obtain ⟨hfull, hopen⟩ := hn
    simp [ready, put, drop, hd, hcall, putFrame, hfull, hopen, Delivery.target] at hready
  · rintro (hroom | hdone)
    · rw [ready, put_isSome_of_room (.inl hd) hcall hroom, Bool.or_true, Bool.true_or]
    · rw [ready, drop_isSome_of_done hd hcall hdone, Bool.or_true]

theorem receive_delivery (hreg : c.pendingStream.get r.requestId = some d)
    (hcall : c.calls[d]? = some call) (hkind : call.kind = .stream false) :
    (c.receive r).calls = c.calls ∧
      (c.receive r).delivery = if r.isResult then .stream d r else .advisory d r := by
  cases r with
  | result id body =>
    have hget : c.pendingStream.get id = some d := hreg
    have hreceive : c.receive (.result id body) = { c with
        pendingStream := c.pendingStream.erase id, delivery := .stream d (.result id body) } := by
      simp only [receive, hget]
    rw [hreceive]
    exact ⟨rfl, rfl⟩
  | progress id body =>
    have hget : c.pendingStream.get id = some d := hreg
    have hreceive : c.receive (.progress id body) =
        { c with delivery := .advisory d (.progress id body) } := by
      simp only [receive, hget, hcall, Option.any_some, hkind]
      rfl
    rw [hreceive]
    exact ⟨rfl, rfl⟩

theorem run_frames {ms : List (ConnLabel π)}
    (h : Lts.Run next (fun _ l => l.delivers = false) c ms c') (hbusy : c.delivery ≠ .idle)
    (hcall : c.calls[d]? = some call) :
    c'.delivery = c.delivery ∧ ∃ call', c'.calls[d]? = some call' ∧
      call'.frames.length ≤ call.frames.length ∧ (call.done = true → call'.done = true) := by
  induction h with
  | nil => exact ⟨rfl, call, hcall, Nat.le_refl _, id⟩
  | snoc _ hl hs ih =>
    obtain ⟨hdelivery, call₁, hcall₁, hlen₁, hdone₁⟩ := ih
    obtain ⟨⟨_, out⟩, hstep, rfl⟩ := Option.map_eq_some_iff.mp hs
    obtain ⟨hdelivery₂, call₂, hcall₂, hlen₂, hdone₂⟩ :=
      step_frames hstep hl (hdelivery ▸ hbusy) hcall₁
    exact ⟨hdelivery₂.trans hdelivery, call₂, hcall₂, hlen₂.trans hlen₁, fun h => hdone₂ (hdone₁ h)⟩

/-- A reply to a stream that is not reliable is handled without waiting for its consumer unless it
is the terminal one and finds the buffer full. -/
theorem neverWaits_iff {method : String} (hreg : c.pendingStream.get r.requestId = some d)
    (hcall : c.calls[d]? = some call) (hkind : call.kind = .stream (streamReliable method))
    (hmethod : streamReliable method = false) :
    c.NeverWaits r ↔
      r.isResult = false ∨ call.frames.length < streamBuffer ∨ call.done = true := by
  rw [hmethod] at hkind
  obtain ⟨hcalls, hdelivery⟩ := receive_delivery hreg hcall hkind
  have hcall₀ : (c.receive r).calls[d]? = some call := by rw [hcalls, hcall]
  cases hr : r.isResult with
  | false =>
    rw [hr, if_neg Bool.false_ne_true] at hdelivery
    refine iff_of_true (fun ms c' hrun => ?_) (.inl rfl)
    have hbusy : (c.receive r).delivery ≠ .idle := by rw [hdelivery]; rintro ⟨⟩
    obtain ⟨hdelivery', call', hcall', -, -⟩ := run_frames hrun hbusy hcall₀
    exact ready_of_advisory (hdelivery'.trans hdelivery) hcall'
  | true =>
    rw [hr, if_pos rfl] at hdelivery
    have hbusy : (c.receive r).delivery ≠ .idle := by rw [hdelivery]; rintro ⟨⟩
    rw [eq_false Bool.true_eq_false.mp, false_or]
    constructor
    · intro hnever
      exact (ready_of_stream_iff hdelivery hcall₀).mp (hnever [] _ .nil)
    · intro hroom ms c' hrun
      obtain ⟨hdelivery', call', hcall', hlen, hdone⟩ := run_frames hrun hbusy hcall₀
      refine (ready_of_stream_iff (hdelivery'.trans hdelivery) hcall').mpr ?_
      exact hroom.imp (Nat.lt_of_le_of_lt hlen) hdone

def startedPull : List (ConnLabel Unit) :=
  [.start (.stream (streamReliable "images.pull")), .call 0 .register, .call 0 (.send none)]

theorem neverWaits_iff_pull : ∃ c,
    Lts.AnyRun next (newAgentConn "web-1") startedPull c ∧ c.NeverWaits (.result "1" ()) := by
  let c := (Lts.exec next (newAgentConn "web-1") startedPull).get (by decide +kernel)
  have hrun := Lts.anyRun_of_exec (t := c) (Option.some_get _).symm
  have hreg : c.pendingStream.get (Reply.result "1" ()).requestId = some 0 := by decide +kernel
  let call := (c.calls[0]?).get (by decide +kernel)
  have hcall : c.calls[0]? = some call := (Option.some_get _).symm
  have hkind : call.kind = .stream (streamReliable "images.pull") := by decide +kernel
  have hroom : call.frames.length < streamBuffer := by decide +kernel
  exact ⟨c, hrun, (neverWaits_iff hreg hcall hkind (by decide)).mpr (.inr (.inl hroom))⟩

/-! ### A consumer that has stopped -/

structure Stuck (c : AgentConn π) (d : Nat) (r : Reply π) : Prop where
  delivery : c.delivery = .stream d r
  full : ∃ call, c.calls[d]? = some call ∧ ¬call.frames.length < streamBuffer ∧ call.done = false
  gone : ∀ id, c.pendingStream.get id ≠ some d
  kept : d ∉ c.closing

def isStuck [DecidableEq π] (c : AgentConn π) (d : Nat) (r : Reply π) : Bool :=
  c.delivery = .stream d r &&
    (c.calls[d]?).any (fun call => !decide (call.frames.length < streamBuffer) && !call.done) &&
    c.pendingStream.keys.all (fun id => c.pendingStream.get id ≠ some d) && d ∉ c.closing

theorem stuck_of_isStuck [DecidableEq π] (h : c.isStuck d r = true) : c.Stuck d r := by
  simp only [isStuck, Bool.and_eq_true, decide_eq_true_eq, List.all_eq_true, Option.any_eq_true,
    Bool.not_eq_true'] at h
  obtain ⟨⟨⟨hdelivery, call, hcall, hfull, hopen⟩, hkeys⟩, hkept⟩ := h
  refine ⟨hdelivery, ⟨call, hcall, of_decide_eq_false hfull, hopen⟩, fun id hid => ?_, hkept⟩
  have hmem : id ∈ c.pendingStream.keys :=
    c.pendingStream.covers id (by rw [hid]; exact Option.some_ne_none d)
  exact hkeys id hmem hid

theorem Stuck.not_ready (h : c.Stuck d r) : c.ready = false := by
  obtain ⟨call, hcall, hfull, hopen⟩ := h.full
  refine eq_false_of_ne_true fun hready => ?_
  rcases (ready_of_stream_iff h.delivery hcall).mp hready with hroom | hdone
  · exact hfull hroom
  · rw [hopen] at hdone
    cases hdone

theorem Stuck.callStep {e : Nat} {other : Call π} {k : CallLabel} (h : c.Stuck d r) (he : e ≠ d)
    (hother : c.calls[e]? = some other) (hstep : CallStep c e other k c' out) : c'.Stuck d r := by
  obtain ⟨call, hcall, hfull, hopen⟩ := h.full
  obtain ⟨hdelivery, other', hcalls, -⟩ := hstep.set hother
  have hcall' : c'.calls[d]? = some call := by
    rw [hcalls, List.getElem?_set_ne he, hcall]
  have htables : (∀ id, c'.pendingStream.get id ≠ some d) ∧ c'.closing = c.closing := by
    cases hstep with
    | registeredStream =>
      refine ⟨fun id hid => ?_, rfl⟩
      rcases GoMap.get_of_get_insert hid with ⟨-, hnew⟩ | hold
      · exact he hnew.symm
      · exact h.gone id hold
    | cancelLive => exact ⟨fun id hid => h.gone id (GoMap.get_of_get_erase hid), rfl⟩
    | refused | registered | sent | chunk | await | ctxDone | tookResult | tookClosed | tookFrame
    | unregistered | cancelGone | cancelClosed | cancelSent => exact ⟨h.gone, rfl⟩
  exact ⟨hdelivery.trans h.delivery, ⟨call, hcall', hfull, hopen⟩, htables.1,
    htables.2 ▸ h.kept⟩

theorem Stuck.closeAll (h : c.Stuck d r) : c.closeAll.Stuck d r := by
  obtain ⟨call, hcall, hfull, hopen⟩ := h.full
  have hget : c.closeAll.calls[d]? =
      some (if d ∈ c.pending.keys.filterMap c.pending.get then { call with chanClosed := true }
        else call) := by
    rw [AgentConn.closeAll, List.getElem?_mapIdx, hcall, Option.map_some]
  refine ⟨h.delivery, ⟨_, hget, ?_⟩, fun id hid => (by cases hid), fun hmem => ?_⟩
  · split <;> exact ⟨hfull, hopen⟩
  · rcases mem_closeAll_closing.mp hmem with hold | ⟨id, hid⟩
    · exact h.kept hold
    · exact h.gone id hid

theorem Stuck.step (h : c.Stuck d r) (hl : l.isOf d = false) (hstep : c.step l = some (c', out)) :
    c'.Stuck d r := by
  obtain ⟨call, hcall, hfull, hopen⟩ := h.full
  have hbusy : c.delivery ≠ .idle := by rw [h.delivery]; rintro ⟨⟩
  have hready := h.not_ready
  rw [ready, Bool.or_eq_false_iff, Bool.or_eq_false_iff, Option.isSome_eq_false_iff,
    Option.isSome_eq_false_iff, Option.isNone_iff_eq_none, Option.isNone_iff_eq_none] at hready
  cases step_cases hstep with
  | start kind =>
    exact ⟨h.delivery, ⟨call, List.getElem?_append_of hcall _, hfull, hopen⟩, h.gone, h.kept⟩
  | call e other k c'' out hother hcallStep =>
    exact h.callStep (of_decide_eq_false hl) hother hcallStep
  | delivery l c'' hdelivery =>
    cases hdelivery with
    | result _ _ _ hidle | terminal _ _ _ hidle | progress _ _ _ _ hidle | unknown _ hidle =>
      exact absurd hidle hbusy
    | putResult | putFrame =>
      rw [AgentConn.step, hready.1.2] at hstep
      cases hstep
    | dropped =>
      rw [AgentConn.step, hready.2] at hstep
      cases hstep
  | closeAll => exact h.closeAll
  | closeDone e other hother hmem =>
    have he : e ≠ d := fun heq => h.kept (heq ▸ hmem)
    refine ⟨h.delivery, ⟨call, ?_, hfull, hopen⟩, h.gone, fun hd => h.kept (List.mem_of_mem_erase hd)⟩
    exact (List.getElem?_set_ne he).trans hcall

/-- A loop that is stuck takes no further reply until dispatcher `d` moves. -/
theorem Stuck.run {ms : List (ConnLabel π)} (h : c.Stuck d r)
    (hrun : Lts.Run next (fun _ l => l.isOf d = false) c ms c') : c'.Stuck d r := by
  refine hrun.invariant (I := fun c => c.Stuck d r) (fun _ _ _ hi hl hs => ?_) h
  obtain ⟨⟨_, out⟩, hstep, rfl⟩ := Option.map_eq_some_iff.mp hs
  exact hi.step hl hstep

def finishedPull : List (ConnLabel Unit) :=
  startedPull ++ (List.replicate streamBuffer [.receive (.progress "1" ()), .put]).flatten ++
    [.receive (.progress "1" ()), .drop]

/-- Its result blocks the Control stream until the consumer reads or cancels: no reply to another
request is taken, and closing the connection does not help. -/
theorem pull_stalls_control : ∃ c : AgentConn Unit,
    Lts.AnyRun next (newAgentConn "web-1") finishedPull c ∧
      c.delivery = .idle ∧ ¬c.NeverWaits (.result "1" ()) ∧
      ∀ ms c', Lts.Run next (fun _ l => l.isOf 0 = false) (c.receive (.result "1" ())) ms c' →
        c'.ready = false ∧ ∀ r, c'.next (.receive r) = none := by
  obtain ⟨c, hc⟩ := Option.isSome_iff_exists.mp
    (show (Lts.exec next (newAgentConn "web-1") finishedPull).isSome = true by decide +kernel)
  have hstate : (Lts.exec next (newAgentConn "web-1") finishedPull).all (fun c =>
      c.delivery = .idle && (c.receive (.result "1" ())).isStuck 0 (.result "1" ())) = true := by
    decide +kernel
  rw [hc, Option.all_some, Bool.and_eq_true] at hstate
  have hstuck : (c.receive (.result "1" ())).Stuck 0 (.result "1" ()) := stuck_of_isStuck hstate.2
  refine ⟨c, Lts.anyRun_of_exec hc, of_decide_eq_true hstate.1, fun hnever => ?_, fun ms c' hms => ?_⟩
  · have hready := hnever [] _ .nil
    rw [hstuck.not_ready] at hready
    cases hready
  · have hstuck' := hstuck.run hms
    refine ⟨hstuck'.not_ready, fun r => ?_⟩
    rw [next, AgentConn.step, hstuck'.delivery]
    rfl

end AgentConn
end Hostlink.Controller
