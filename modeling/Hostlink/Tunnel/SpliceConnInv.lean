import Hostlink.Tunnel.SpliceConn

/-! What holds of one `SpliceConn` endpoint after any steps: the histories of its socket and
its stream, how the socket gets closed, and what it returns. -/

namespace Hostlink.Tunnel

theorem ConnToStream.output_cases {pc : ConnToStream} {frame : Frame}
    (h : pc.output = some frame) :
    (∃ data err, pc = .sendData data err ∧ frame = .ofData data) ∨
      (pc = .sendHalfClose ∧ frame = .halfClose) ∨
        ∃ cause, pc = .reset cause ∧ frame = .reset := by
  cases pc with
  | sendData data err => exact .inl ⟨data, err, rfl, (Option.some.inj h).symm⟩
  | sendHalfClose => exact .inr (.inl ⟨rfl, (Option.some.inj h).symm⟩)
  | reset cause => exact .inr (.inr ⟨cause, rfl, (Option.some.inj h).symm⟩)
  | read | fail | done => cases h

theorem afterRead_cases (err : Option GoError) :
    afterRead err = .read ∨ afterRead err = .sendHalfClose ∨
      ∃ cause, afterRead err = .reset cause := by
  cases err with
  | none => exact .inl rfl
  | some err =>
    by_cases hx : err.is .eof = true
    · exact .inr (.inl (by simp [afterRead, hx]))
    · exact .inr (.inr ⟨_, by simp only [afterRead, hx]; rfl⟩)

theorem onFrame_ne_done (frame : Frame) : onFrame frame ≠ .done := by
  cases ht : frame.type <;> by_cases hb : frame.data = [] <;> simp [onFrame, ht, hb]

theorem afterWrite_ne_done (data : Bytes) (n : Nat) (err : Option GoError) :
    afterWrite data n err ≠ .done := by
  unfold afterWrite
  split
  · nofun
  · split
    · nofun
    · split <;> nofun

namespace Endpoint

section Close
variable (e : Endpoint) (abort : Bool) (err : GoError) (linger close : Option GoError)

theorem close_eq : ∃ c n, e.close abort linger close = { e with closer := c, closes := n } := by
  unfold Endpoint.close
  split
  · exact ⟨e.closer, e.closes, rfl⟩
  · exact ⟨_, _, rfl⟩

theorem fail_eq : ∃ n, e.fail err linger close = { e with
    firstErr := (e.fail err linger close).firstErr
    closer := (e.fail err linger close).closer
    closes := n } := by
  unfold Endpoint.fail
  split
  · exact ⟨e.closes, rfl⟩
  · obtain ⟨c, n, hc⟩ := close_eq e true linger close
    rw [hc]
    exact ⟨n, rfl⟩

theorem fail_firstErr : (e.fail err linger close).firstErr ≠ none := by
  unfold Endpoint.fail
  split
  · next hf => simp [hf]
  · simp

variable {e}

theorem close_of_closed (h : e.closer ≠ none) : e.close abort linger close = e := by
  obtain ⟨c, hc⟩ := Option.ne_none_iff_exists'.mp h
  simp [Endpoint.close, hc]

theorem fail_closer (h : e.closer ≠ none) : (e.fail err linger close).closer = e.closer := by
  unfold Endpoint.fail
  split
  · rfl
  · rw [close_of_closed true linger close h]

theorem readable_closed {data : Bytes} {err : Option GoError} (hc : e.closer ≠ none)
    (h : e.readable data err = true) : data = [] ∧ ∃ err', err = some err' ∧ err'.is .eof = false := by
  obtain ⟨c, hcl⟩ := Option.ne_none_iff_exists'.mp hc
  cases err with
  | none => simp [readable, hcl] at h
  | some err => simp_all [readable]

end Close

/-! ### What a step can do -/

section Cases
variable {e e' : Endpoint} {l : ConnLabel}

theorem stepUp_cases (h : e.stepUp l = some e') :
    (∃ data err, l = .read data err ∧ e.up = .read ∧ e.readable data err = true ∧
      e' = { e with
        up := if data = [] then afterRead err else .sendData data err
        read := e.read ++ data
        eof := e.eof || err.any (·.is .eof) }) ∨
    (∃ frame err, l = .sendUp err ∧ e.up.output = some frame ∧
      e' = { e with
        up := e.up.afterSend err
        sent := if err.isNone then e.sent ++ [frame] else e.sent }) ∨
    ∃ err linger close n, l = .failUp linger close ∧ e.up = .fail err ∧
      e' = { e with
        up := .done
        firstErr := (e.fail err linger close).firstErr
        closer := (e.fail err linger close).closer
        closes := n } := by
  unfold stepUp at h
  split at h
  · next data err =>
    split at h
    · next hu =>
      split at h
      · next hr => exact .inl ⟨data, err, rfl, hu, hr, (Option.some.inj h).symm⟩
      · cases h
    · cases h
  · next err =>
    split at h
    · next frame hf => exact .inr (.inl ⟨frame, err, rfl, hf, (Option.some.inj h).symm⟩)
    · cases h
  · next linger close =>
    split at h
    · next err hu =>
      obtain ⟨n, hn⟩ := fail_eq e err linger close
      refine .inr (.inr ⟨err, linger, close, n, rfl, hu, (Option.some.inj h).symm.trans ?_⟩)
      rw [hn]
    · cases h
  · cases h

theorem stepDown_cases (h : e.stepDown l = some e') :
    (∃ frame, l = .recv frame ∧ e.down = .recv ∧
      e' = { e with down := onFrame frame, rcvd := e.rcvd ++ [frame] }) ∨
    (∃ err, l = .recvErr err ∧ e.down = .recv ∧
      e' = { e with down := .reset (.wrap "receive frame" err) }) ∨
    (∃ data n err, l = .write n err ∧ e.down = .write data ∧ e.writable data n err = true ∧
      e' = { e with down := afterWrite data n err, wrote := e.wrote ++ data.take n }) ∨
    (∃ err, l = .closeWrite err ∧ e.down = .closeWrite ∧
      (e.closer.isNone || err.isSome) = true ∧
      e' = { e with down := afterCloseWrite err, closeWrites := e.closeWrites + 1 }) ∨
    (∃ cause err, l = .sendDown err ∧ e.down = .reset cause ∧
      e' = { e with
        down := .fail (resetErr cause err)
        sent := if err.isNone then e.sent ++ [.reset] else e.sent }) ∨
    ∃ err linger close n, l = .failDown linger close ∧ e.down = .fail err ∧
      e' = { e with
        down := .done
        firstErr := (e.fail err linger close).firstErr
        closer := (e.fail err linger close).closer
        closes := n } := by
  unfold stepDown at h
  split at h
  · next frame =>
    split at h
    · next hd => exact .inl ⟨frame, rfl, hd, (Option.some.inj h).symm⟩
    · cases h
  · next err =>
    split at h
    · next hd => exact .inr (.inl ⟨err, rfl, hd, (Option.some.inj h).symm⟩)
    · cases h
  · next n err =>
    split at h
    · next data hd =>
      split at h
      · next hw =>
        exact .inr (.inr (.inl ⟨data, n, err, rfl, hd, hw, (Option.some.inj h).symm⟩))
      · cases h
    · cases h
  · next err =>
    split at h
    · next hd =>
      split at h
      · next hc =>
        exact .inr (.inr (.inr (.inl ⟨err, rfl, hd, hc, (Option.some.inj h).symm⟩)))
      · cases h
    · cases h
  · next err =>
    split at h
    · next cause hd =>
      exact .inr (.inr (.inr (.inr (.inl ⟨cause, err, rfl, hd, (Option.some.inj h).symm⟩))))
    · cases h
  · next linger close =>
    split at h
    · next err hd =>
      obtain ⟨n, hn⟩ := fail_eq e err linger close
      refine .inr (.inr (.inr (.inr (.inr ⟨err, linger, close, n, rfl, hd,
        (Option.some.inj h).symm.trans ?_⟩))))
      rw [hn]
    · cases h
  · cases h

theorem stepReturn_cases {close : Option GoError} (h : e.stepReturn close = some e') :
    e.up = .done ∧ e.down = .done ∧ e.result = none ∧
      ∃ c n r, e' = { e with closer := c, closes := n, result := some r } ∧
        (e.firstErr ≠ none → r = e.firstErr ∧ c = e.closer) ∧
        (e.firstErr = none → e.closer = none → c.map Closed.abort = some false) := by
  unfold stepReturn at h
  split at h
  · next hc =>
    refine ⟨hc.1, hc.2.1, hc.2.2, ?_⟩
    by_cases hf : e.firstErr = none
    · simp only [hf] at h
      obtain ⟨c, n, hcl⟩ := close_eq e false none close
      have hcc : (e.close false none close).closer = c := by rw [hcl]
      rw [hcl] at h
      cases h
      refine ⟨c, n, c.bind Closed.err, by rw [hf], fun hx => absurd hf hx, fun _ hn => ?_⟩
      rw [← hcc]
      simp [Endpoint.close, hn]
    · obtain ⟨err, herr⟩ := Option.ne_none_iff_exists'.mp hf
      simp only [herr] at h
      cases h
      exact ⟨e.closer, e.closes, some err, by rw [herr], fun _ => ⟨herr.symm, rfl⟩,
        fun hx => absurd hx hf⟩
  · cases h

theorem step_cases (h : e.step l = some e') :
    e.stepUp l = some e' ∨ e.stepDown l = some e' ∨
      ∃ close, l = .ret close ∧ e.stepReturn close = some e' := by
  cases l with
  | read | sendUp | failUp => exact .inl h
  | ret close => exact .inr (.inr ⟨close, rfl, h⟩)
  | recv | recvErr | write | closeWrite | sendDown | failDown => exact .inr (.inl h)

theorem stepUp_frame (h : e.stepUp l = some e') :
    e'.down = e.down ∧ e'.wrote = e.wrote ∧ e'.closeWrites = e.closeWrites ∧
      e'.rcvd = e.rcvd ∧ e'.result = e.result := by
  obtain ⟨_, _, -, -, -, rfl⟩ | ⟨_, _, -, -, rfl⟩ | ⟨_, _, _, _, -, -, rfl⟩ := stepUp_cases h <;>
    exact ⟨rfl, rfl, rfl, rfl, rfl⟩

/-- `spliceStreamToConn` sends nothing but RESET, which conveys no byte and seals nothing. -/
theorem stepDown_frame (h : e.stepDown l = some e') :
    e'.up = e.up ∧ e'.read = e.read ∧ e'.eof = e.eof ∧ payload e'.sent = payload e.sent ∧
      sealedBytes e'.sent = sealedBytes e.sent ∧ e'.result = e.result := by
  obtain ⟨_, -, -, rfl⟩ | ⟨_, -, -, rfl⟩ | ⟨_, _, _, -, -, -, rfl⟩ | ⟨_, -, -, -, rfl⟩ |
    ⟨_, err, -, -, rfl⟩ | ⟨_, _, _, _, -, -, rfl⟩ := stepDown_cases h
  · exact ⟨rfl, rfl, rfl, rfl, rfl, rfl⟩
  · exact ⟨rfl, rfl, rfl, rfl, rfl, rfl⟩
  · exact ⟨rfl, rfl, rfl, rfl, rfl, rfl⟩
  · exact ⟨rfl, rfl, rfl, rfl, rfl, rfl⟩
  · refine ⟨rfl, rfl, rfl, ?_, ?_, rfl⟩
    · cases err <;> simp
    · cases err
      · exact sealedBytes_snoc_of_ne (by simp [Frame.reset])
      · rfl
  · exact ⟨rfl, rfl, rfl, rfl, rfl, rfl⟩

theorem stepUp_sent (h : e.stepUp l = some e') : e.sent <+: e'.sent := by
  obtain ⟨_, _, -, -, -, rfl⟩ | ⟨_, err, -, -, rfl⟩ | ⟨_, _, _, _, -, -, rfl⟩ := stepUp_cases h
  · exact List.prefix_rfl
  · cases err
    · exact List.prefix_append _ _
    · exact List.prefix_rfl
  · exact List.prefix_rfl

theorem stepUp_gained (h : e.stepUp l = some e') : gained l.incoming = [] := by
  obtain ⟨_, _, rfl, -⟩ | ⟨_, _, rfl, -⟩ | ⟨_, _, _, _, rfl, -⟩ := stepUp_cases h <;> rfl

theorem stepDown_hist (h : e.stepDown l = some e') :
    e.sent <+: e'.sent ∧ e'.rcvd = e.rcvd ++ gained l.incoming := by
  obtain ⟨_, rfl, -, rfl⟩ | ⟨_, rfl, -, rfl⟩ | ⟨_, _, _, rfl, -, -, rfl⟩ | ⟨_, rfl, -, -, rfl⟩ |
    ⟨_, err, rfl, -, rfl⟩ | ⟨_, _, _, _, rfl, -, rfl⟩ := stepDown_cases h
  · exact ⟨List.prefix_rfl, rfl⟩
  · exact ⟨List.prefix_rfl, (List.append_nil _).symm⟩
  · exact ⟨List.prefix_rfl, (List.append_nil _).symm⟩
  · exact ⟨List.prefix_rfl, (List.append_nil _).symm⟩
  · refine ⟨?_, (List.append_nil _).symm⟩
    cases err
    · exact List.prefix_append _ _
    · exact List.prefix_rfl
  · exact ⟨List.prefix_rfl, (List.append_nil _).symm⟩

theorem step_hist (h : e.step l = some e') :
    e.sent <+: e'.sent ∧ e'.rcvd = e.rcvd ++ gained l.incoming := by
  rcases step_cases h with h | h | ⟨close, rfl, h⟩
  · obtain ⟨-, -, -, hr, -⟩ := stepUp_frame h
    exact ⟨stepUp_sent h, by rw [hr, stepUp_gained h, List.append_nil]⟩
  · exact stepDown_hist h
  · obtain ⟨-, -, -, c, n, r, rfl, -⟩ := stepReturn_cases h
    exact ⟨List.prefix_rfl, (List.append_nil _).symm⟩

theorem stepDown_ne_done (h : e.stepDown l = some e') : e.down ≠ .done := by
  obtain ⟨_, -, hd, -⟩ | ⟨_, -, hd, -⟩ | ⟨_, _, _, -, hd, -⟩ | ⟨_, -, hd, -⟩ | ⟨_, _, -, hd, -⟩ |
    ⟨_, _, _, _, -, hd, -⟩ := stepDown_cases h <;> simp [hd]

theorem step_closer (h : e.step l = some e') (hc : e.closer ≠ none) : e'.closer = e.closer := by
  rcases step_cases h with hm | hm | ⟨close, rfl, hm⟩
  · obtain ⟨_, _, -, -, -, rfl⟩ | ⟨_, _, -, -, rfl⟩ | ⟨err, linger, close, _, -, -, rfl⟩ :=
      stepUp_cases hm
    · rfl
    · rfl
    · exact fail_closer err linger close hc
  · obtain ⟨_, -, -, rfl⟩ | ⟨_, -, -, rfl⟩ | ⟨_, _, _, -, -, -, rfl⟩ | ⟨_, -, -, -, rfl⟩ |
      ⟨_, _, -, -, rfl⟩ | ⟨err, linger, close, _, -, -, rfl⟩ := stepDown_cases hm
    · rfl
    · rfl
    · rfl
    · rfl
    · rfl
    · exact fail_closer err linger close hc
  · unfold stepReturn at hm
    split at hm
    · split at hm
      · cases hm
        rfl
      · cases hm
        rw [close_of_closed false none close hc]
    · cases hm

end Cases

/-! ### What the workers' positions say about the histories -/

def UpInv (e : Endpoint) : Prop :=
  match e.up with
  | .read => payload e.sent = e.read ∧ sealedBytes e.sent = none ∧ e.eof = false
  | .sendData data err =>
    payload e.sent ++ data = e.read ∧ sealedBytes e.sent = none ∧ e.eof = err.any (·.is .eof)
  | .sendHalfClose => payload e.sent = e.read ∧ sealedBytes e.sent = none ∧ e.eof = true
  | .reset _ | .fail _ => payload e.sent <+: e.read ∧ sealedBytes e.sent = none
  | .done => payload e.sent <+: e.read ∧ ∀ b, sealedBytes e.sent = some b → b = e.read ∧ e.eof = true

def DownInv (e : Endpoint) : Prop :=
  match e.down with
  | .recv => e.wrote = payload e.rcvd ∧ sealedBytes e.rcvd = none ∧ e.closeWrites = 0
  | .write data => e.wrote ++ data = payload e.rcvd ∧ sealedBytes e.rcvd = none ∧ e.closeWrites = 0
  | .closeWrite =>
    e.wrote = payload e.rcvd ∧ sealedBytes e.rcvd = some e.wrote ∧ e.closeWrites = 0
  | .reset _ | .fail _ | .done =>
    e.wrote <+: payload e.rcvd ∧ e.closeWrites ≤ 1 ∧
      (e.closeWrites = 1 → sealedBytes e.rcvd = some e.wrote)

theorem UpInv.sent {e : Endpoint} (h : e.UpInv) :
    payload e.sent <+: e.read ∧ ∀ b, sealedBytes e.sent = some b → b = e.read ∧ e.eof = true := by
  unfold UpInv at h
  split at h
  · exact ⟨h.1 ▸ List.prefix_rfl, fun b hb => by simp [h.2.1] at hb⟩
  · exact ⟨h.1 ▸ List.prefix_append _ _, fun b hb => by simp [h.2.1] at hb⟩
  · exact ⟨h.1 ▸ List.prefix_rfl, fun b hb => by simp [h.2.1] at hb⟩
  · exact ⟨h.1, fun b hb => by simp [h.2] at hb⟩
  · exact ⟨h.1, fun b hb => by simp [h.2] at hb⟩
  · exact h

theorem DownInv.wrote {e : Endpoint} (h : e.DownInv) :
    e.wrote <+: payload e.rcvd ∧ e.closeWrites ≤ 1 ∧
      (e.closeWrites = 1 → sealedBytes e.rcvd = some e.wrote) := by
  unfold DownInv at h
  split at h
  · exact ⟨h.1 ▸ List.prefix_rfl, by omega, by omega⟩
  · exact ⟨h.1 ▸ List.prefix_append _ _, by omega, by omega⟩
  · exact ⟨h.1 ▸ List.prefix_rfl, by omega, by omega⟩
  · exact h
  · exact h
  · exact h

theorem UpInv.congr {e e' : Endpoint} (h : e.UpInv) (hu : e'.up = e.up) (hr : e'.read = e.read)
    (he : e'.eof = e.eof) (hp : payload e'.sent = payload e.sent)
    (hs : sealedBytes e'.sent = sealedBytes e.sent) : e'.UpInv := by
  unfold UpInv at h ⊢
  rw [hu, hr, he, hp, hs]
  exact h

theorem DownInv.congr {e e' : Endpoint} (h : e.DownInv) (hd : e'.down = e.down)
    (hw : e'.wrote = e.wrote) (hc : e'.closeWrites = e.closeWrites) (hr : e'.rcvd = e.rcvd) :
    e'.DownInv := by
  unfold DownInv at h ⊢
  rw [hd, hw, hc, hr]
  exact h

theorem upInv_afterRead {e : Endpoint} {err : Option GoError} (hu : e.up = afterRead err)
    (hp : payload e.sent = e.read) (hs : sealedBytes e.sent = none)
    (he : e.eof = err.any (·.is .eof)) : e.UpInv := by
  unfold UpInv
  rw [hu]
  cases err with
  | none => exact ⟨hp, hs, by simpa using he⟩
  | some err =>
    by_cases hx : err.is .eof = true
    · simp only [afterRead, hx, if_true]
      exact ⟨hp, hs, by simpa [hx] using he⟩
    · simp only [afterRead, hx]
      exact ⟨hp ▸ List.prefix_rfl, hs⟩

theorem stepUp_upInv {e e' : Endpoint} {l : ConnLabel} (hi : e.UpInv)
    (h : e.stepUp l = some e') : e'.UpInv := by
  obtain ⟨data, err, -, hu, -, rfl⟩ | ⟨frame, err, -, ho, rfl⟩ | ⟨_, _, _, _, -, hu, rfl⟩ :=
    stepUp_cases h
  · simp only [UpInv, hu] at hi
    obtain ⟨hp, hs, he⟩ := hi
    by_cases hd : data = []
    · subst hd
      exact upInv_afterRead rfl (by simpa using hp) hs (by simp [he])
    · simp only [UpInv, if_neg hd]
      exact ⟨by rw [hp], hs, by simp [he]⟩
  · obtain ⟨data, readErr, hu, rfl⟩ | ⟨hu, rfl⟩ | ⟨cause, hu, rfl⟩ := ConnToStream.output_cases ho <;>
      simp only [UpInv, hu] at hi <;> rw [hu]
    · cases err with
      | none =>
        exact upInv_afterRead rfl (by simpa using hi.1)
          ((sealedBytes_snoc_of_ne (by simp [Frame.ofData])).trans hi.2.1) hi.2.2
      | some err => exact ⟨hi.1 ▸ List.prefix_append _ _, hi.2.1⟩
    · cases err with
      | none =>
        refine ⟨by simpa using hi.1 ▸ List.prefix_rfl, fun b hb => ?_⟩
        simp only [Option.isNone_none, if_true, Option.some.injEq,
          sealedBytes_snoc_halfClose hi.2.1 (f := Frame.halfClose) rfl] at hb
        exact ⟨hb.symm.trans hi.1, hi.2.2⟩
      | some err => exact ⟨hi.1 ▸ List.prefix_rfl, hi.2.1⟩
    · cases err with
      | none =>
        exact ⟨by simpa using hi.1, (sealedBytes_snoc_of_ne (by simp [Frame.reset])).trans hi.2⟩
      | some err => exact hi
  · simp only [UpInv, hu] at hi
    exact ⟨hi.1, fun b hb => by simp [hi.2] at hb⟩

theorem downInv_onFrame {e : Endpoint} {fs : List Frame} {f : Frame} (hd : e.down = onFrame f)
    (hr : e.rcvd = fs ++ [f]) (hw : e.wrote = payload fs) (hs : sealedBytes fs = none)
    (hc : e.closeWrites = 0) : e.DownInv := by
  have hpay : payload e.rcvd = e.wrote ++ f.bytes := by
    rw [hr, hw, payload_append, payload_singleton]
  have hsame : f.type ≠ .halfClose → sealedBytes e.rcvd = none := fun hf => by
    rw [hr, sealedBytes_snoc_of_ne hf, hs]
  have hnone : f.type ≠ .data → payload e.rcvd = e.wrote := fun hf => by
    rw [hpay, Frame.bytes_of_ne hf, List.append_nil]
  unfold DownInv
  rw [hd]
  cases ht : f.type with
  | data =>
    rw [Frame.bytes, if_pos ht] at hpay
    by_cases hnil : f.data = []
    · simp only [onFrame, ht, if_pos hnil]
      exact ⟨by simpa [hnil] using hpay.symm, hsame (by simp [ht]), hc⟩
    · simp only [onFrame, ht, if_neg hnil]
      exact ⟨hpay.symm, hsame (by simp [ht]), hc⟩
  | halfClose =>
    simp only [onFrame, ht]
    exact ⟨(hnone (by simp [ht])).symm, by rw [hr, sealedBytes_snoc_halfClose hs ht, hw], hc⟩
  | reset =>
    simp only [onFrame, ht]
    exact ⟨hpay ▸ List.prefix_append _ _, by omega, by omega⟩
  | «open» =>
    simp only [onFrame, ht]
    exact ⟨(hnone (by simp [ht])).symm, hsame (by simp [ht]), hc⟩
  | ready =>
    simp only [onFrame, ht]
    exact ⟨(hnone (by simp [ht])).symm, hsame (by simp [ht]), hc⟩
  | unknown code =>
    simp only [onFrame, ht]
    exact ⟨hpay ▸ List.prefix_append _ _, by omega, by omega⟩

theorem downInv_afterWrite {e : Endpoint} {data : Bytes} {n : Nat} {err : Option GoError}
    (hd : e.down = afterWrite data n err) (hw : e.wrote ++ data.drop n = payload e.rcvd)
    (hs : sealedBytes e.rcvd = none) (hc : e.closeWrites = 0) : e.DownInv := by
  have hpre : e.wrote <+: payload e.rcvd := hw ▸ List.prefix_append _ _
  unfold DownInv
  rw [hd]
  cases err with
  | some err => exact ⟨hpre, by simp [hc], by simp [hc]⟩
  | none =>
    by_cases hn : n = 0
    · simp only [afterWrite, if_pos hn]
      exact ⟨hpre, by omega, by omega⟩
    · by_cases hnil : data.drop n = []
      · simp only [afterWrite, if_neg hn, if_pos hnil]
        exact ⟨by rw [← hw, hnil, List.append_nil], hs, hc⟩
      · simp only [afterWrite, if_neg hn, if_neg hnil]
        exact ⟨hw, hs, hc⟩

theorem stepDown_downInv {e e' : Endpoint} {l : ConnLabel} (hi : e.DownInv)
    (h : e.stepDown l = some e') : e'.DownInv := by
  obtain ⟨_, -, hd, rfl⟩ | ⟨_, -, hd, rfl⟩ | ⟨data, n, _, -, hd, -, rfl⟩ | ⟨err, -, hd, -, rfl⟩ |
    ⟨_, _, -, hd, rfl⟩ | ⟨_, _, _, _, -, hd, rfl⟩ := stepDown_cases h <;>
    simp only [DownInv, hd] at hi
  · exact downInv_onFrame rfl rfl hi.1 hi.2.1 hi.2.2
  · exact ⟨hi.1 ▸ List.prefix_rfl, by simp [hi.2.2], by simp [hi.2.2]⟩
  · refine downInv_afterWrite rfl ?_ hi.2.1 hi.2.2
    rw [List.append_assoc, List.take_append_drop, hi.1]
  · obtain ⟨hw, hs, hc⟩ := hi
    cases err <;> exact ⟨hw ▸ List.prefix_rfl, by simp [hc], fun _ => hs⟩
  · exact hi
  · exact hi

/-! ### How the socket gets closed and what `SpliceConn` returns -/

structure CloseInv (e : Endpoint) : Prop where
  upDone : e.up = .done → e.firstErr = none → sealedBytes e.sent ≠ none
  downDone : e.down = .done → e.firstErr = none → e.closeWrites = 1
  closed : e.closer.map Closed.abort =
    if e.firstErr.isSome then some true else e.result.map fun _ => false
  returned : e.result ≠ none → e.up = .done ∧ e.down = .done
  failed : ∀ r, e.result = some r → e.firstErr ≠ none → r ≠ none

theorem CloseInv.aborted {e : Endpoint} (hi : e.CloseInv) (h : e.firstErr ≠ none) :
    e.closer.map Closed.abort = some true := by
  rw [hi.closed, if_pos (Option.isSome_iff_ne_none.mpr h)]

theorem CloseInv.running {e : Endpoint} (hi : e.CloseInv) (h : e.up ≠ .done ∨ e.down ≠ .done) :
    e.result = none := by
  by_contra hr
  obtain ⟨hu, hd⟩ := hi.returned hr
  exact h.elim (absurd hu) (absurd hd)

theorem fail_abort {e : Endpoint} (hi : e.CloseInv) (hr : e.result = none) (err : GoError)
    (linger close : Option GoError) :
    (e.fail err linger close).closer.map Closed.abort = some true := by
  have hc := hi.closed
  unfold Endpoint.fail
  split
  · next hf => simpa [hf] using hc
  · next hf =>
    have hn : e.closer = none := by simpa [hf, hr] using hc
    simp [Endpoint.close, hn]

theorem CloseInv.fail {e e' : Endpoint} (hi : e.CloseInv) (hr : e.result = none) (err : GoError)
    (linger close : Option GoError) (hf : e'.firstErr = (e.fail err linger close).firstErr)
    (hc : e'.closer = (e.fail err linger close).closer) (hr' : e'.result = e.result) :
    e'.CloseInv := by
  have hne : e'.firstErr ≠ none := hf ▸ fail_firstErr e err linger close
  refine ⟨fun _ h => absurd h hne, fun _ h => absurd h hne, ?_, fun h => absurd (hr'.trans hr) h,
    fun r h => by simp [hr', hr] at h⟩
  rw [hc, fail_abort hi hr, if_pos (Option.isSome_iff_ne_none.mpr hne)]

theorem CloseInv.work {e e' : Endpoint} (hi : e.CloseInv) (hr : e.result = none)
    (hu : e'.up = .done → e.firstErr = none → sealedBytes e'.sent ≠ none)
    (hd : e'.down = .done → e.firstErr = none → e'.closeWrites = 1)
    (hf : e'.firstErr = e.firstErr) (hc : e'.closer = e.closer) (hr' : e'.result = e.result) :
    e'.CloseInv := by
  refine ⟨hf ▸ hu, hf ▸ hd, ?_, fun h => absurd (hr'.trans hr) h, fun r h => by simp [hr', hr] at h⟩
  rw [hc, hf, hr', hi.closed]

theorem stepUp_closeInv {e e' : Endpoint} {l : ConnLabel} (hu : e.UpInv) (hi : e.CloseInv)
    (h : e.stepUp l = some e') : e'.CloseInv := by
  obtain ⟨data, err, -, hup, -, rfl⟩ | ⟨frame, err, -, ho, rfl⟩ |
    ⟨err, linger, close, _, -, hup, rfl⟩ := stepUp_cases h
  · refine hi.work (hi.running (.inl (by simp [hup]))) (fun hd => ?_) hi.downDone rfl rfl rfl
    by_cases hx : data = []
    · rcases afterRead_cases err with ha | ha | ⟨_, ha⟩ <;> simp [hx, ha] at hd
    · simp [hx] at hd
  · obtain ⟨data, readErr, hup, rfl⟩ | ⟨hup, rfl⟩ | ⟨cause, hup, rfl⟩ :=
      ConnToStream.output_cases ho <;>
      refine hi.work (hi.running (.inl (by simp [hup]))) (fun hd _ => ?_) hi.downDone rfl rfl rfl <;>
      cases err <;> simp only [hup, ConnToStream.afterSend, reduceCtorEq] at hd
    · rcases afterRead_cases readErr with ha | ha | ⟨_, ha⟩ <;> simp [ha] at hd
    · simp only [UpInv, hup] at hu
      simp [sealedBytes_snoc_halfClose hu.2.1 (f := Frame.halfClose) rfl]
  · exact hi.fail (hi.running (.inl (by simp [hup]))) err linger close rfl rfl rfl

theorem stepDown_closeInv {e e' : Endpoint} {l : ConnLabel} (hd : e.DownInv) (hi : e.CloseInv)
    (h : e.stepDown l = some e') : e'.CloseInv := by
  have hup : e'.up = .done → e.firstErr = none → sealedBytes e'.sent ≠ none := fun hu hf => by
    obtain ⟨hup, -, -, -, hs, -⟩ := stepDown_frame h
    exact hs ▸ hi.upDone (hup ▸ hu) hf
  obtain ⟨frame, -, hdn, rfl⟩ | ⟨_, -, hdn, rfl⟩ | ⟨data, n, err, -, hdn, -, rfl⟩ |
    ⟨err, -, hdn, -, rfl⟩ | ⟨_, _, -, hdn, rfl⟩ | ⟨err, linger, close, _, -, hdn, rfl⟩ :=
    stepDown_cases h <;> have hr := hi.running (.inr (by simp [hdn]))
  · exact hi.work hr hup (fun hx => absurd hx (onFrame_ne_done frame)) rfl rfl rfl
  · exact hi.work hr hup nofun rfl rfl rfl
  · exact hi.work hr hup (fun hx => absurd hx (afterWrite_ne_done data n err)) rfl rfl rfl
  · simp only [DownInv, hdn] at hd
    exact hi.work hr hup (fun _ _ => by simp [hd.2.2]) rfl rfl rfl
  · exact hi.work hr hup nofun rfl rfl rfl
  · exact hi.fail hr err linger close rfl rfl rfl

theorem stepReturn_closeInv {e e' : Endpoint} {close : Option GoError} (hi : e.CloseInv)
    (h : e.stepReturn close = some e') : e'.CloseInv := by
  obtain ⟨hu, hd, hr, c, n, r, rfl, herr, hok⟩ := stepReturn_cases h
  refine ⟨hi.upDone, hi.downDone, ?_, fun _ => ⟨hu, hd⟩, ?_⟩
  · have hc := hi.closed
    by_cases hf : e.firstErr = none
    · simp only [hf, hr, Option.isSome_none, Bool.false_eq_true, if_false, Option.map_none,
        Option.map_eq_none_iff] at hc
      simpa [hf] using hok hf hc
    · rw [if_pos (Option.isSome_iff_ne_none.mpr hf)] at hc ⊢
      rw [← hc, (herr hf).2]
  · intro r' hr' hf
    obtain rfl : r = r' := by simpa using hr'
    exact (herr hf).1 ▸ hf

/-! ### One endpoint, whatever its socket and its stream do -/

structure Inv (e : Endpoint) : Prop where
  up : e.UpInv
  down : e.DownInv
  close : e.CloseInv

theorem step_inv {e e' : Endpoint} {l : ConnLabel} (hi : e.Inv) (h : e.step l = some e') :
    e'.Inv := by
  rcases step_cases h with h | h | ⟨close, -, h⟩
  · obtain ⟨hd, hw, hc, hr, -⟩ := stepUp_frame h
    exact ⟨stepUp_upInv hi.up h, hi.down.congr hd hw hc hr, stepUp_closeInv hi.up hi.close h⟩
  · obtain ⟨hu, hr, he, hp, hs, -⟩ := stepDown_frame h
    exact ⟨hi.up.congr hu hr he hp hs, stepDown_downInv hi.down h,
      stepDown_closeInv hi.down hi.close h⟩
  · have hc := stepReturn_closeInv hi.close h
    obtain ⟨-, -, -, c, n, r, rfl, -⟩ := stepReturn_cases h
    exact ⟨hi.up.congr rfl rfl rfl rfl rfl, hi.down.congr rfl rfl rfl rfl, hc⟩

theorem init_inv (tcp : Bool) {pre : List Frame} (hpre : ∀ f ∈ pre, IsSetup f) :
    (init tcp pre).Inv where
  up := ⟨payload_setup hpre, sealedBytes_setup hpre, rfl⟩
  down := ⟨rfl, rfl, rfl⟩
  close := ⟨nofun, nofun, rfl, fun h => absurd rfl h, nofun⟩

theorem Inv.returned_nil {e : Endpoint} (hi : e.Inv) (h : e.result = some none) :
    e.closeWrites = 1 := by
  have hne : e.result ≠ none := by simp [h]
  refine hi.close.downDone (hi.close.returned hne).2 ?_
  by_contra hf
  exact hi.close.failed none h hf rfl

end Endpoint
end Hostlink.Tunnel
