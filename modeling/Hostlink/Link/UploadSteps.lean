import Hostlink.Link.UploadStages

/-! The steps of an upload on the controllers: what goes down the Control stream for it, and where
the result it returns comes from. -/

namespace Hostlink
open Controller (AgentConn Reply Command Call CallPc CallKind ConnLabel CallLabel BodySender
  BodyLabel View ViewStep CallMove)
open Agent (Bytes UploadChunk Inbound InboundLabel UploadHandler HandlerLabel fullBody hasLast)

/-! ### Results come from the agent -/

section Taken
variable {π : Type} {d : Nat} {v v' : View π} {o : Option CallLabel} {l : CallLabel}

def Controller.View.TookPut (v : View π) : Prop :=
  v.call.frames = [] ∧ ∀ r ∈ v.call.taken, r ∈ v.put

theorem Controller.CallMove.tookPut {call : Call π} (hok : v.Ok) (ht : v.TookPut)
    (h : CallMove v l call) : ({ v with call := call } : View π).TookPut := by
  cases h with
  | tookResult r hpc hinbox =>
    refine ⟨ht.1, fun r' hr' => ?_⟩
    rw [List.mem_singleton.mp hr']
    exact (hok.inbox r hinbox).1
  | tookFrame r frames hpc hframes => cases ht.1.symm.trans hframes
  | refused | sent | await | ctxDone | tookClosed | cancelGone | cancelClosed | cancelSent =>
    exact ht

theorem Controller.ViewStep.tookPut (hok : v.Ok) (hkind : v.call.kind.isStream = false)
    (ht : v.TookPut) (h : ViewStep d v o v') : v'.TookPut := by
  cases h with
  | move l call h => exact h.tookPut hok ht
  | putResult => exact ⟨ht.1, fun r hr => List.mem_append_left _ (ht.2 r hr)⟩
  | putFrame r dl flight hflight hdl =>
    have hsuits := hok.suits dl (View.head_mem hflight)
    have hstream : v.call.kind.isStream = true := by
      obtain rfl | rfl := hdl
      · exact hsuits
      · exact hsuits.1
    exact absurd (hkind.symm.trans hstream) Bool.false_ne_true
  | registered | registeredStream | unregistered | cancelLive | result | terminal | progress
  | dropped | closeAll | closeDone => exact ht

end Taken

namespace Controller.AgentConn
variable {π : Type} {c c' : AgentConn π} {up up' : Fifo (Reply π)} {d : Nat} {call : Call π}

structure Sourced (c : AgentConn π) (up : Fifo (Reply π)) : Prop where
  allOk : c.AllOk c.own
  numbered : c.Numbered
  carries : ∀ r, c.Carries r → r ∈ up.sent
  took : ∀ d v, c.view c.own d = some v → v.call.kind.isStream = false → v.TookPut

theorem Sourced.step {l : ConnLabel π} {out : Option Command} (h : c.Sourced up)
    (hin : ∀ r, incoming l = some r → r ∈ up.sent)
    (hseq : Counts l = true → c.seq + 1 < UInt64.size) (hs : c.step l = some (c', out)) :
    c'.Sourced up := by
  refine ⟨h.allOk.step h.numbered hs, step_numbered h.numbered hseq hs, fun r hr => ?_,
    fun e v' hv' hkind => ?_⟩
  · obtain hr | hr := (step_change hs).1.carries hr
    · exact h.carries r hr
    · exact hin r hr
  · obtain hsame | ⟨v, w, o, hv, hw, hstep, -⟩ | ⟨kind, -, hnew⟩ :=
      step_view h.allOk.known h.numbered (step_cases hs) e
    · exact h.took e v' (hsame.symm.trans hv') hkind
    · obtain rfl := Option.some.inj (hw.symm.trans hv')
      have hkind' : v.call.kind.isStream = false := hstep.kind_eq ▸ hkind
      exact hstep.tookPut (h.allOk.views e v hv) hkind' (h.took e v hv hkind')
    · obtain rfl := Option.some.inj (hnew.symm.trans hv')
      exact ⟨rfl, fun _ hr => by cases hr⟩

theorem Sourced.mono (h : c.Sourced up) (hup : up.sent ⊆ up'.sent) : c.Sourced up' :=
  ⟨h.allOk, h.numbered, fun r hr => hup (h.carries r hr), h.took⟩

theorem Sourced.taken {r : Reply π} (h : c.Sourced up) (hcall : c.calls[d]? = some call)
    (hkind : call.kind.isStream = false) (hr : r ∈ call.taken) :
    r ∈ up.sent ∧ r.requestId = call.requestId := by
  have hv : c.view c.own d = some _ := view_eq hcall
  have hput : r ∈ c.putTo d := (h.took d _ hv hkind).2 r hr
  refine ⟨h.carries r (.inr ⟨d, ?_⟩), (h.allOk.views d _ hv).ownPut r hput⟩
  obtain ⟨⟨e, r'⟩, hmem, rfl⟩ := List.mem_map.mp hput
  obtain ⟨hmem, he⟩ := List.mem_filter.mp hmem
  exact of_decide_eq_true he ▸ hmem

end Controller.AgentConn

/-! ### The steps of an upload -/

namespace UploadLink
variable {s t : UploadLink} {d : Nat} {u : UploadSender} {call : Call Nat}

def pushChunk (down : Fifo UploadCommand) (id : String) : Option UploadChunk → Fifo UploadCommand
  | some chunk => down.push (.chunk id chunk)
  | none => down

theorem sendChunk_eq_some {chunk : UploadChunk} {err : Option GoError}
    (hcall : s.conn.calls[d]? = some call) (h : s.sendChunk d chunk err = some t) :
    call.pc = .body ∧ t = { s with
      down := pushChunk s.down call.requestId (if err.isNone then some chunk else none) } := by
  obtain ⟨⟨c', out⟩, hstep, ht⟩ := Option.map_eq_some_iff.mp h
  cases AgentConn.step_cases hstep with
  | call _ call' _ _ _ hcall' h =>
    obtain rfl := Option.some.inj (hcall.symm.trans hcall')
    cases h with
    | chunk _ _ hpc =>
      refine ⟨hpc, ht.symm.trans ?_⟩
      cases err <;> rfl
  | delivery _ _ h => cases h

/-- A step of an upload on the controllers; `chunk?` is what it sends down the Control stream. -/
structure Moved (s t : UploadLink) (d : Nat) (u u' : UploadSender) (call : Call Nat)
    (chunk? : Option UploadChunk) : Prop where
  before : s.senders[d]? = some (some u)
  atCall : s.conn.calls[d]? = some call
  sends : chunk?.isSome = true → call.pc = .body
  after : t = { s with
    senders := s.senders.set d (some u')
    down := pushChunk s.down call.requestId chunk? }
  ok : ∀ down live, u.Ok down live →
    u'.Ok (down ++ if live then chunk?.toList else []) live
  holds : ∀ r, u'.Holds r → u.Holds r ∨ awaited call = some r

theorem ok_append_nil {v : UploadSender} {down : List UploadChunk} {live : Bool}
    (h : v.Ok down live) : v.Ok (down ++ if live then (none : Option UploadChunk).toList else [])
      live := by
  cases live <;> exact (List.append_nil down).symm ▸ h

theorem read_moved {data : Bytes} {err : Option GoError} {body : BodySender}
    (hu : s.senders[d]? = some (some u)) (hcall : s.conn.calls[d]? = some call)
    (hbody : u.body.step (.read data err) = some body) :
    s.Moved { s with senders := s.senders.set d (some { u with body := body }) } d u
      { u with body := body } call none := by
  refine ⟨hu, hcall, fun hf => (by cases hf), rfl,
    fun down live hok => ok_append_nil ⟨BodySender.step_ok hok.body hbody, ?_⟩,
    fun r hr => .inl hr⟩
  obtain ⟨hl, -⟩ | ⟨-, hsent⟩ := BodySender.step_sent hbody
  · cases hl
  · have hs := hok.sourced
    rw [UploadSender.Sourced] at hs ⊢
    exact hsent ▸ hs

theorem bodyLocal_moved {l : BodyLabel} (hu : s.senders[d]? = some (some u))
    (hcall : s.conn.calls[d]? = some call) (hrelay : u.relay = none)
    (h : s.bodyLocal d u call l = some t) : ∃ u' chunk?, s.Moved t d u u' call chunk? := by
  cases l with
  | read data err =>
    simp only [bodyLocal] at h
    split at h
    · next hpc =>
      obtain ⟨body, hbody, rfl⟩ := Option.map_eq_some_iff.mp h
      exact ⟨_, none, read_moved hu hcall hbody⟩
    · cases h
  | sent err =>
    obtain ⟨chunk, hnext, h⟩ := Option.bind_eq_some_iff.mp h
    obtain ⟨s', hsend, h⟩ := Option.bind_eq_some_iff.mp h
    obtain ⟨body, hbody, h⟩ := Option.bind_eq_some_iff.mp h
    cases h
    obtain ⟨hpc, rfl⟩ := sendChunk_eq_some hcall hsend
    refine ⟨{ u with body := body }, _, hu, hcall, fun _ => hpc, rfl, fun down live hok =>
      ⟨BodySender.step_ok hok.body hbody, ?_⟩, fun r hr => .inl hr⟩
    have hs := hok.sourced
    rw [UploadSender.Sourced, hrelay] at hs ⊢
    obtain ⟨hl, chunk', hnext', hsent⟩ | ⟨hl, hsent⟩ := BodySender.step_sent hbody
    · obtain rfl := Option.some.inj (hnext.symm.trans hnext')
      cases hl
      show List.Follows live _ body.sent
      rw [hsent]
      cases live with
      | true => exact hs.append [chunk]
      | false => exact (List.append_nil down).symm ▸ hs.behind List.prefix_rfl [chunk]
    · cases err with
      | none => exact absurd rfl hl
      | some err =>
        show List.Follows live _ body.sent
        rw [hsent]
        cases live <;> exact (List.append_nil down).symm ▸ hs

theorem bodyRelayed_moved {l : BodyLabel} {relay : UploadRelay}
    (hu : s.senders[d]? = some (some u)) (hcall : s.conn.calls[d]? = some call)
    (hrelay : u.relay = some relay) (h : s.bodyRelayed d u relay l = some t) :
    ∃ u' chunk?, s.Moved t d u u' call chunk? := by
  cases l with
  | read data err =>
    obtain ⟨body, hbody, rfl⟩ := Option.map_eq_some_iff.mp h
    exact ⟨_, none, read_moved hu hcall hbody⟩
  | sent err =>
    obtain ⟨chunk, hnext, h⟩ := Option.bind_eq_some_iff.mp h
    obtain ⟨body, hbody, h⟩ := Option.bind_eq_some_iff.mp h
    cases h
    refine ⟨_, none, hu, hcall, fun hf => (by cases hf), rfl, fun down live hok =>
      ok_append_nil ⟨BodySender.step_ok hok.body hbody, ?_⟩, fun r hr => ?_⟩
    · have hs := hok.sourced
      rw [UploadSender.Sourced, hrelay] at hs
      show UploadRelay.Ok _ body.sent down live
      obtain ⟨hl, chunk', hnext', hsent⟩ | ⟨hl, hsent⟩ := BodySender.step_sent hbody
      · obtain rfl := Option.some.inj (hnext.symm.trans hnext')
        cases hl
        exact hsent ▸ UploadRelay.Ok.push hs chunk
      · cases err with
        | none => exact absurd rfl hl
        | some err => exact hsent ▸ hs
    · obtain hr | ⟨relay', hrelay', hr⟩ := hr
      · exact .inl (.inl hr)
      · cases hrelay'
        exact .inl (.inr ⟨relay, hrelay, hr⟩)

theorem setRelay_moved {relay relay' : UploadRelay} (hu : s.senders[d]? = some (some u))
    (hcall : s.conn.calls[d]? = some call) (hrelay : u.relay = some relay)
    (hresult : ∀ r, relay'.result = some r → relay.result = some r ∨ awaited call = some r)
    (hok : ∀ sent down live, relay.Ok sent down live → relay'.Ok sent down live) :
    ∃ u' chunk?, s.Moved (s.setRelay d u relay') d u u' call chunk? := by
  refine ⟨{ u with relay := some relay' }, none, hu, hcall, fun hf => (by cases hf), rfl,
    fun down live h => ok_append_nil ⟨h.body, ?_⟩, fun r hr => ?_⟩
  · have hs := h.sourced
    rw [UploadSender.Sourced, hrelay] at hs
    exact hok _ _ _ hs
  · obtain hr | ⟨_, hrelay', hr⟩ := hr
    · exact .inl (.inl hr)
    · cases hrelay'
      exact (hresult r hr).imp_left fun hr => .inr ⟨relay, hrelay, hr⟩

theorem serverStep_moved {l : UploadServerLabel} {relay : UploadRelay}
    (hu : s.senders[d]? = some (some u)) (hcall : s.conn.calls[d]? = some call)
    (hrelay : u.relay = some relay) (h : s.serverStep d u relay call l = some t) :
    ∃ u' chunk?, s.Moved t d u u' call chunk? := by
  cases l with
  | recv =>
    simp only [serverStep] at h
    split at h
    · next hpc =>
      obtain ⟨⟨chunk, hop⟩, hpop, rfl⟩ := Option.map_eq_some_iff.mp h
      exact setRelay_moved hu hcall hrelay (fun _ hr => .inl hr) fun _ _ _ hok => hok.recv hpc hpop
    · cases h
  | recvErr =>
    simp only [serverStep] at h
    split at h
    · cases h
      exact setRelay_moved hu hcall hrelay (fun _ hr => .inl hr) fun _ _ _ hok => hok.stop
    · cases h
  | sendAndClose =>
    simp only [serverStep] at h
    split at h
    · next hpc =>
      obtain ⟨r, hr, rfl⟩ := Option.map_eq_some_iff.mp h
      refine setRelay_moved hu hcall hrelay (fun r' hr' => .inr ?_) fun _ _ _ hok =>
        hok.setServer (by rw [hpc]; rfl) (by rw [hpc]; rfl) rfl
      exact Option.some.inj hr' ▸ hr
    · cases h
  | sent err =>
    simp only [serverStep] at h
    split at h
    · next chunk hpc =>
      obtain ⟨s', hsend, rfl⟩ := Option.map_eq_some_iff.mp h
      obtain ⟨hbody, rfl⟩ := sendChunk_eq_some hcall hsend
      refine ⟨_, _, hu, hcall, fun _ => hbody, rfl, fun down live hok => ⟨hok.body, ?_⟩,
        fun r hr => ?_⟩
      · have hs := hok.sourced
        rw [UploadSender.Sourced, hrelay] at hs
        cases err with
        | some err => exact (ok_append_nil (v := { u with relay := some _ }) ⟨hok.body, hs.stop⟩).sourced
        | none => exact hs.sendDown hpc (by cases chunk.last <;> rfl)
      · obtain hr | ⟨_, hrelay', hr⟩ := hr
        · exact .inl (.inl hr)
        · cases hrelay'
          exact .inl (.inr ⟨relay, hrelay, hr⟩)
    · cases h

theorem result_moved {r : Reply Nat} (hu : s.senders[d]? = some (some u))
    (hcall : s.conn.calls[d]? = some call) (h : returns u call = some r) :
    s.Moved (s.setSender d { u with result := some r }) d u { u with result := some r } call none := by
  refine ⟨hu, hcall, fun hf => (by cases hf), rfl,
    fun down live hok => ok_append_nil ⟨hok.body, hok.sourced⟩, fun r' hr' => ?_⟩
  obtain hr' | hr' := hr'
  · cases hr'
    unfold returns at h
    split at h
    · split at h
      · exact .inr h
      · next relay hrelay => exact .inl (.inr ⟨relay, hrelay, h⟩)
    · cases h
  · exact .inl (.inr hr')

end UploadLink
end Hostlink
