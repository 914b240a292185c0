import Hostlink.Tunnel.SpliceConnInv

/-! What a call of `SpliceConn` leaves behind when it returns: how often and how the socket was closed,
what is returned, and what the stream was given to send. The outcome of every call into the socket and the
stream is arbitrary, also after the socket was closed. -/

namespace Hostlink.Tunnel

def FrameType.fails : FrameType → Bool
  | .reset | .unknown _ => true
  | .data | .halfClose | .open | .ready => false

def ConnLabel.fails : ConnLabel → Bool
  | .read _ err => err.any fun err => !err.is .eof
  | .sendUp err | .sendDown err => err.isSome
  | .recv frame => frame.type.fails
  | .recvErr _ => true
  | .write n err => n = 0 || err.isSome
  | .closeWrite err => err.isSome
  | .failUp .. | .failDown .. | .ret _ => false

def ConnToStream.fails : ConnToStream → Bool
  | .sendData _ err => err.any fun err => !err.is .eof
  | .reset _ | .fail _ => true
  | .read | .sendHalfClose | .done => false

def StreamToConn.fails : StreamToConn → Bool
  | .reset _ | .fail _ => true
  | .recv | .write _ | .closeWrite | .done => false

def ConnToStream.ended : ConnToStream → Nat
  | .fail _ | .done => 1
  | .read | .sendData .. | .sendHalfClose | .reset _ => 0

def StreamToConn.ended : StreamToConn → Nat
  | .fail _ | .done => 1
  | .recv | .write _ | .closeWrite | .reset _ => 0

theorem ConnToStream.ended_le (pc : ConnToStream) : pc.ended ≤ 1 := by
  cases pc with
  | fail | done => exact Nat.le_refl 1
  | read | sendData | sendHalfClose | reset => exact Nat.zero_le 1

theorem StreamToConn.ended_le (pc : StreamToConn) : pc.ended ≤ 1 := by
  cases pc with
  | fail | done => exact Nat.le_refl 1
  | recv | write | closeWrite | reset => exact Nat.zero_le 1

structure Disciplined (fs : List Frame) : Prop where
  halfClose : fs.countP (fun f => f.type = .halfClose) ≤ 1
  order : fs.Pairwise fun f g => f.type = .halfClose → g.type ≠ .data
  data : ∀ f ∈ fs, f.type = .data → f.data ≠ [] ∧ f.data.length ≤ chunkSize
  resets : fs.countP (fun f => f.type = .reset) ≤ 2

theorem Disciplined.sublist {fs gs : List Frame} (h : Disciplined gs) (hsub : fs.Sublist gs) :
    Disciplined fs where
  halfClose := Nat.le_trans hsub.countP_le h.halfClose
  order := h.order.sublist hsub
  data := fun f hf => h.data f (hsub.subset hf)
  resets := Nat.le_trans hsub.countP_le h.resets

namespace Endpoint

/-- A step where the socket may answer after `Close` as if it were still open. -/
def stepAny (e : Endpoint) : ConnLabel → Option Endpoint
  | l@(.read ..) | l@(.write ..) | l@(.closeWrite ..) =>
    (({ e with closer := none } : Endpoint).step l).map fun e' => { e' with closer := e.closer }
  | l => e.step l

def offers (e : Endpoint) : ConnLabel → List Frame
  | .sendUp _ => e.up.output.toList
  | .sendDown _ => [.reset]
  | _ => []

def lingered (e : Endpoint) : Bool := e.tcp && e.closer.any Closed.abort

def fails (e : Endpoint) : Bool := e.firstErr.isSome || e.up.fails || e.down.fails

inductive AnyStep (e : Endpoint) : ConnLabel → Endpoint → Prop
  | read (data : Bytes) (err : Option GoError) (hup : e.up = .read) (hlen : data.length ≤ chunkSize) :
      AnyStep e (.read data err) { e with
        up := if data = [] then afterRead err else .sendData data err
        read := e.read ++ data
        eof := e.eof || err.any (·.is .eof) }
  | sendUp (frame : Frame) (err : Option GoError) (hout : e.up.output = some frame) :
      AnyStep e (.sendUp err) { e with
        up := e.up.afterSend err
        sent := if err.isNone then e.sent ++ [frame] else e.sent }
  | failUp (err : GoError) (linger close : Option GoError) (hup : e.up = .fail err) :
      AnyStep e (.failUp linger close) { e.fail err linger close with up := .done }
  | recv (frame : Frame) (hdown : e.down = .recv) :
      AnyStep e (.recv frame) { e with down := onFrame frame, rcvd := e.rcvd ++ [frame] }
  | recvErr (err : GoError) (hdown : e.down = .recv) :
      AnyStep e (.recvErr err) { e with down := .reset (.wrap "receive frame" err) }
  | write (data : Bytes) (n : Nat) (err : Option GoError) (hdown : e.down = .write data) :
      AnyStep e (.write n err) { e with
        down := afterWrite data n err
        wrote := e.wrote ++ data.take n }
  | closeWrite (err : Option GoError) (hdown : e.down = .closeWrite) :
      AnyStep e (.closeWrite err) { e with
        down := afterCloseWrite err
        closeWrites := e.closeWrites + 1 }
  | sendDown (cause : GoError) (err : Option GoError) (hdown : e.down = .reset cause) :
      AnyStep e (.sendDown err) { e with
        down := .fail (resetErr cause err)
        sent := if err.isNone then e.sent ++ [.reset] else e.sent }
  | failDown (err : GoError) (linger close : Option GoError) (hdown : e.down = .fail err) :
      AnyStep e (.failDown linger close) { e.fail err linger close with down := .done }
  | retErr (err : GoError) (close : Option GoError) (hup : e.up = .done) (hdown : e.down = .done)
      (hresult : e.result = none) (hfirst : e.firstErr = some err) :
      AnyStep e (.ret close) { e with result := some (some err) }
  | retClose (close : Option GoError) (hup : e.up = .done) (hdown : e.down = .done)
      (hresult : e.result = none) (hfirst : e.firstErr = none) :
      AnyStep e (.ret close) { e.close false none close with
        result := some ((e.close false none close).closer.bind Closed.err) }

variable {e e' : Endpoint} {l : ConnLabel}

theorem anyStep_of_stepUp (h : e.stepUp l = some e') : AnyStep e l e' := by
  unfold stepUp at h
  split at h
  · next data err =>
    split at h
    · next hup =>
      split at h
      · next hread =>
        obtain rfl := Option.some.inj h
        exact .read data err hup (of_decide_eq_true (Bool.and_eq_true_iff.mp hread).1)
      · cases h
    · cases h
  · next err =>
    split at h
    · next frame hout =>
      obtain rfl := Option.some.inj h
      exact .sendUp frame err hout
    · cases h
  · next linger close =>
    split at h
    · next err hup =>
      obtain rfl := Option.some.inj h
      exact .failUp err linger close hup
    · cases h
  · cases h

theorem anyStep_of_stepDown (h : e.stepDown l = some e') : AnyStep e l e' := by
  unfold stepDown at h
  split at h
  · next frame =>
    split at h
    · next hdown =>
      obtain rfl := Option.some.inj h
      exact .recv frame hdown
    · cases h
  · next err =>
    split at h
    · next hdown =>
      obtain rfl := Option.some.inj h
      exact .recvErr err hdown
    · cases h
  · next n err =>
    split at h
    · next data hdown =>
      split at h
      · obtain rfl := Option.some.inj h
        exact .write data n err hdown
      · cases h
    · cases h
  · next err =>
    split at h
    · next hdown =>
      split at h
      · obtain rfl := Option.some.inj h
        exact .closeWrite err hdown
      · cases h
    · cases h
  · next err =>
    split at h
    · next cause hdown =>
      obtain rfl := Option.some.inj h
      exact .sendDown cause err hdown
    · cases h
  · next linger close =>
    split at h
    · next err hdown =>
      obtain rfl := Option.some.inj h
      exact .failDown err linger close hdown
    · cases h
  · cases h

theorem anyStep_of_stepReturn {close : Option GoError} (h : e.stepReturn close = some e') :
    AnyStep e (.ret close) e' := by
  unfold stepReturn at h
  split at h
  · next hdone =>
    split at h
    · next err hfirst =>
      obtain rfl := Option.some.inj h
      exact .retErr err close hdone.1 hdone.2.1 hdone.2.2 hfirst
    · next hfirst =>
      obtain rfl := Option.some.inj h
      exact .retClose close hdone.1 hdone.2.1 hdone.2.2 hfirst
  · cases h

theorem anyStep_of_step (h : e.step l = some e') : AnyStep e l e' := by
  rcases step_cases h with hup | hdown | ⟨close, rfl, hret⟩
  · exact anyStep_of_stepUp hup
  · exact anyStep_of_stepDown hdown
  · exact anyStep_of_stepReturn hret

theorem AnyStep.reopen {c : Option Closed} (h : AnyStep { e with closer := c } l e')
    (hl : (∃ data err, l = .read data err) ∨ (∃ n err, l = .write n err) ∨ ∃ err, l = .closeWrite err) :
    AnyStep e l { e' with closer := e.closer } := by
  cases h with
  | read data err hup hlen => exact .read data err hup hlen
  | write data n err hdown => exact .write data n err hdown
  | closeWrite err hdown => exact .closeWrite err hdown
  | _ => simp at hl

theorem stepAny_cases (h : e.stepAny l = some e') : AnyStep e l e' := by
  cases l with
  | read data err =>
    obtain ⟨e₁, hstep, rfl⟩ := Option.map_eq_some_iff.mp h
    exact (anyStep_of_step hstep).reopen (.inl ⟨data, err, rfl⟩)
  | write n err =>
    obtain ⟨e₁, hstep, rfl⟩ := Option.map_eq_some_iff.mp h
    exact (anyStep_of_step hstep).reopen (.inr (.inl ⟨n, err, rfl⟩))
  | closeWrite err =>
    obtain ⟨e₁, hstep, rfl⟩ := Option.map_eq_some_iff.mp h
    exact (anyStep_of_step hstep).reopen (.inr (.inr ⟨err, rfl⟩))
  | sendUp | failUp | recv | recvErr | sendDown | failDown | ret => exact anyStep_of_step h

/-- A socket that keeps to its `Close` is one case of a socket that may not. -/
theorem stepAny_of_step (h : e.step l = some e') : e.stepAny l = some e' := by
  cases l with
  | read data err =>
    simp only [step, stepUp] at h
    split at h
    · next hup =>
      split at h
      · next hread =>
        obtain rfl := Option.some.inj h
        have hlen := (Bool.and_eq_true_iff.mp hread).1
        simp only [stepAny, step, stepUp, hup, readable, hlen, Option.isNone_none, Bool.true_or,
          Bool.and_true, if_true, Option.map_some]
      · cases h
    · cases h
  | write n err =>
    simp only [step, stepDown] at h
    split at h
    · next data hdown =>
      split at h
      · next hwrite =>
        obtain rfl := Option.some.inj h
        have hlen := (Bool.and_eq_true_iff.mp hwrite).1
        simp only [stepAny, step, stepDown, hdown, writable, hlen, Option.isNone_none, Bool.true_or,
          Bool.and_true, if_true, Option.map_some]
      · cases h
    · cases h
  | closeWrite err =>
    simp only [step, stepDown] at h
    split at h
    · next hdown =>
      split at h
      · obtain rfl := Option.some.inj h
        simp only [stepAny, step, stepDown, hdown, Option.isNone_none, Bool.true_or, if_true,
          Option.map_some]
      · cases h
    · cases h
  | sendUp | failUp | recv | recvErr | sendDown | failDown | ret => exact h

/-! ### Failures -/

theorem fails_afterRead (err : Option GoError) :
    (afterRead err).fails = err.any fun err => !err.is .eof := by
  cases err with
  | none => rfl
  | some err =>
    rw [afterRead, Option.any_some]
    cases err.is .eof <;> rfl

theorem fails_afterSend {pc : ConnToStream} {frame : Frame} (h : pc.output = some frame)
    (err : Option GoError) : (pc.afterSend err).fails = (pc.fails || err.isSome) := by
  obtain ⟨data, readErr, rfl, -⟩ | ⟨rfl, -⟩ | ⟨cause, rfl, -⟩ := ConnToStream.output_cases h
  · cases err with
    | none => exact (fails_afterRead readErr).trans (Bool.or_false _).symm
    | some err => exact (Bool.or_true _).symm
  · cases err <;> rfl
  · rfl

theorem fails_onFrame (frame : Frame) : (onFrame frame).fails = frame.type.fails := by
  unfold onFrame
  cases frame.type with
  | data =>
    dsimp only
    split <;> rfl
  | halfClose | reset | «open» | ready | unknown code => rfl

theorem fails_afterWrite (data : Bytes) (n : Nat) (err : Option GoError) :
    (afterWrite data n err).fails = (ConnLabel.write n err).fails := by
  cases err with
  | some err => exact (Bool.or_true _).symm
  | none =>
    rw [afterWrite, ConnLabel.fails, Option.isSome_none, Bool.or_false]
    by_cases hn : n = 0
    · rw [if_pos hn, decide_eq_true hn]
      rfl
    · rw [if_neg hn, decide_eq_false hn]
      split <;> rfl

theorem fails_of_fail (e : Endpoint) (err : GoError) (linger close : Option GoError) :
    (e.fail err linger close).firstErr.isSome = true :=
  Option.isSome_iff_ne_none.mpr (fail_firstErr e err linger close)

theorem fails_of_up {b : Bool} (hfirst : e'.firstErr = e.firstErr) (hdown : e'.down = e.down)
    (hup : e'.up.fails = (e.up.fails || b)) : e'.fails = (e.fails || b) := by
  rw [Endpoint.fails, hfirst, hdown, hup, ← Bool.or_assoc, Bool.or_right_comm]
  rfl

theorem fails_of_down {b : Bool} (hfirst : e'.firstErr = e.firstErr) (hup : e'.up = e.up)
    (hdown : e'.down.fails = (e.down.fails || b)) : e'.fails = (e.fails || b) := by
  rw [Endpoint.fails, hfirst, hup, hdown, ← Bool.or_assoc]
  rfl

theorem AnyStep.fails (h : AnyStep e l e') : e'.fails = (e.fails || l.fails) := by
  cases h with
  | read data err hup hlen =>
    refine fails_of_up rfl rfl ?_
    rw [hup]
    dsimp only
    split
    · exact fails_afterRead err
    · rfl
  | sendUp frame err hout => exact fails_of_up rfl rfl (fails_afterSend hout err)
  | failUp err linger close hup =>
    simp only [Endpoint.fails, fails_of_fail, hup, ConnToStream.fails, Bool.true_or, Bool.or_true]
  | recv frame hdown =>
    refine fails_of_down rfl rfl ?_
    rw [hdown]
    exact fails_onFrame frame
  | recvErr err hdown => exact fails_of_down rfl rfl (Bool.or_true _).symm
  | write data n err hdown =>
    refine fails_of_down rfl rfl ?_
    rw [hdown]
    exact fails_afterWrite data n err
  | closeWrite err hdown =>
    refine fails_of_down rfl rfl ?_
    rw [hdown]
    cases err <;> rfl
  | sendDown cause err hdown =>
    refine fails_of_down rfl rfl ?_
    rw [hdown]
    rfl
  | failDown err linger close hdown =>
    simp only [Endpoint.fails, fails_of_fail, hdown, StreamToConn.fails, Bool.true_or, Bool.or_true]
  | retErr err close hup hdown hresult hfirst => exact (Bool.or_false _).symm
  | retClose close hup hdown hresult hfirst =>
    obtain ⟨c, n, hclose⟩ := close_eq e false none close
    rw [hclose]
    exact (Bool.or_false _).symm

/-! ### Closing -/

structure Closes (e : Endpoint) : Prop where
  count : e.closes = if e.closer.isSome then 1 else 0
  closed : e.closer.map Closed.abort =
    if e.firstErr.isSome then some true else e.result.map fun _ => false
  returned : e.result ≠ none → e.up = .done ∧ e.down = .done

theorem Closes.open (h : e.Closes) (hfirst : e.firstErr = none) (hresult : e.result = none) :
    e.closer = none := by
  have hclosed := h.closed
  rw [hfirst, hresult] at hclosed
  exact Option.map_eq_none_iff.mp hclosed

theorem Closes.fail (h : e.Closes) (hresult : e.result = none) (err : GoError)
    (linger close : Option GoError) : (e.fail err linger close).Closes := by
  cases hfirst : e.firstErr with
  | some first =>
    have hsame : e.fail err linger close = e := by rw [Endpoint.fail, hfirst]
    rwa [hsame]
  | none =>
    have hopen := h.open hfirst hresult
    have hcount := h.count
    rw [hopen] at hcount
    rw [Endpoint.fail, hfirst, Endpoint.close, hopen]
    refine ⟨?_, rfl, fun hne => absurd hresult hne⟩
    show e.closes + 1 = 1
    rw [hcount]
    rfl

theorem Closes.work (h : e.Closes) (hresult : e.result = none) (hfirst : e'.firstErr = e.firstErr)
    (hcloser : e'.closer = e.closer) (hcloses : e'.closes = e.closes) (hsame : e'.result = e.result) :
    e'.Closes := by
  refine ⟨?_, ?_, fun hne => absurd (hsame.trans hresult) hne⟩
  · rw [hcloses, hcloser, h.count]
  · rw [hcloser, hfirst, hsame, h.closed]

theorem AnyStep.running (h : AnyStep e l e') (hi : e.Closes) : e.result = none := by
  by_contra hne
  obtain ⟨hup, hdown⟩ := hi.returned hne
  cases h with
  | read _ _ hpc | failUp _ _ _ hpc =>
    rw [hup] at hpc
    cases hpc
  | sendUp _ _ hout =>
    rw [hup] at hout
    cases hout
  | recv _ hpc | recvErr _ hpc | write _ _ _ hpc | closeWrite _ hpc | sendDown _ _ hpc
  | failDown _ _ _ hpc =>
    rw [hdown] at hpc
    cases hpc
  | retErr _ _ _ _ hresult | retClose _ _ _ hresult => exact hne hresult

theorem AnyStep.closes (h : AnyStep e l e') (hi : e.Closes) : e'.Closes := by
  have hrun := h.running hi
  cases h with
  | read | sendUp | recv | recvErr | write | closeWrite | sendDown =>
    exact hi.work hrun rfl rfl rfl rfl
  | failUp err linger close hup | failDown err linger close hdown =>
    have hfail := hi.fail hrun err linger close
    refine ⟨hfail.count, hfail.closed, fun hne => absurd ?_ hne⟩
    obtain ⟨n, heq⟩ := fail_eq e err linger close
    rw [heq]
    exact hrun
  | retErr err close hup hdown hresult hfirst =>
    refine ⟨hi.count, ?_, fun _ => ⟨hup, hdown⟩⟩
    have hclosed := hi.closed
    rw [hfirst] at hclosed ⊢
    exact hclosed
  | retClose close hup hdown hresult hfirst =>
    have hopen := hi.open hfirst hresult
    have hcount := hi.count
    rw [hopen] at hcount
    rw [Endpoint.close, hopen]
    refine ⟨?_, ?_, fun _ => ⟨hup, hdown⟩⟩
    · show e.closes + 1 = 1
      rw [hcount]
      rfl
    · rw [hfirst]
      rfl

theorem AnyStep.result (h : AnyStep e l e') (hi : e.Closes) :
    (e'.result = none ∧ ∀ close, l ≠ .ret close) ∨ ∃ close, l = .ret close ∧
      e'.result = some (e'.firstErr.or (close.map (GoError.wrap "close local connection"))) := by
  have hrun := h.running hi
  cases h with
  | read | sendUp | recv | recvErr | write | closeWrite | sendDown =>
    refine .inl ⟨hrun, fun close hl => ?_⟩
    cases hl
  | failUp err linger close | failDown err linger close =>
    obtain ⟨n, heq⟩ := fail_eq e err linger close
    refine .inl ⟨?_, fun close hl => ?_⟩
    · rw [heq]
      exact hrun
    · cases hl
  | retErr err close hup hdown hresult hfirst =>
    refine .inr ⟨close, rfl, ?_⟩
    rw [hfirst]
    rfl
  | retClose close hup hdown hresult hfirst =>
    refine .inr ⟨close, rfl, ?_⟩
    rw [Endpoint.close, hi.open hfirst hresult, hfirst]
    rfl

/-! ### Frames -/

structure Frames (e : Endpoint) (fs : List Frame) : Prop where
  next : ∀ data err, e.up = .sendData data err → data ≠ [] ∧ data.length ≤ chunkSize
  data : ∀ f ∈ fs, f.type = .data → f.data ≠ [] ∧ f.data.length ≤ chunkSize
  halfClose : fs.countP (fun f => f.type = .halfClose) ≤ e.up.ended
  order : fs.Pairwise fun f g => f.type = .halfClose → g.type ≠ .data
  resets : fs.countP (fun f => f.type = .reset) ≤ e.up.ended + e.down.ended
  sent : e.sent.Sublist fs

variable {fs : List Frame} {f : Frame}

theorem Frames.quiet (h : e.Frames fs)
    (hnext : ∀ data err, e'.up = .sendData data err → data ≠ [] ∧ data.length ≤ chunkSize)
    (hup : e.up.ended ≤ e'.up.ended) (hdown : e.down.ended ≤ e'.down.ended) (hsent : e'.sent = e.sent) :
    e'.Frames fs where
  next := hnext
  data := h.data
  halfClose := Nat.le_trans h.halfClose hup
  order := h.order
  resets := Nat.le_trans h.resets (Nat.add_le_add hup hdown)
  sent := hsent ▸ h.sent

theorem Frames.offer (h : e.Frames fs)
    (hnext : ∀ data err, e'.up = .sendData data err → data ≠ [] ∧ data.length ≤ chunkSize)
    (hdata : f.type = .data → (f.data ≠ [] ∧ f.data.length ≤ chunkSize) ∧ e.up.ended = 0)
    (hup : e.up.ended ≤ e'.up.ended) (hdown : e.down.ended ≤ e'.down.ended)
    (hhalf : f.type = .halfClose → e.up.ended < e'.up.ended)
    (hreset : f.type = .reset → e.up.ended + e.down.ended < e'.up.ended + e'.down.ended)
    (err : Option GoError) (hsent : e'.sent = if err.isNone then e.sent ++ [f] else e.sent) :
    e'.Frames (fs ++ [f]) where
  next := hnext
  data := by
    intro g hg htype
    rcases List.mem_append.mp hg with hold | hnew
    · exact h.data g hold htype
    · obtain rfl := List.mem_singleton.mp hnew
      exact (hdata htype).1
  halfClose := by
    have hold := h.halfClose
    rw [List.countP_append, List.countP_singleton]
    split
    · next htype => exact Nat.lt_of_le_of_lt hold (hhalf (of_decide_eq_true htype))
    · exact Nat.le_trans hold hup
  order := by
    rw [List.pairwise_append]
    refine ⟨h.order, List.pairwise_singleton _ _, fun g hg f' hf' hhalfClose htype => ?_⟩
    obtain rfl := List.mem_singleton.mp hf'
    -- the HALF_CLOSE would be one too many
    have hcount := h.halfClose
    rw [(hdata htype).2] at hcount
    have hnone := List.countP_eq_zero.mp (Nat.le_zero.mp hcount) g hg
    exact hnone (decide_eq_true hhalfClose)
  resets := by
    have hold := h.resets
    rw [List.countP_append, List.countP_singleton]
    split
    · next htype => exact Nat.lt_of_le_of_lt hold (hreset (of_decide_eq_true htype))
    · exact Nat.le_trans hold (Nat.add_le_add hup hdown)
  sent := by
    rw [hsent]
    cases err with
    | none => exact h.sent.append (List.Sublist.refl _)
    | some err => exact h.sent.trans (List.sublist_append_left fs [f])

theorem not_sendData_afterRead {err : Option GoError} {data : Bytes} {readErr : Option GoError} :
    afterRead err ≠ .sendData data readErr := by
  intro heq
  rcases afterRead_cases err with h | h | ⟨cause, h⟩
  · rw [h] at heq
    cases heq
  · rw [h] at heq
    cases heq
  · rw [h] at heq
    cases heq

theorem Frames.sendUp (h : e.Frames fs) (hout : e.up.output = some f) (err : Option GoError) :
    Frames { e with
      up := e.up.afterSend err
      sent := if err.isNone then e.sent ++ [f] else e.sent } (fs ++ [f]) := by
  obtain ⟨data, readErr, hup, rfl⟩ | ⟨hup, rfl⟩ | ⟨cause, hup, rfl⟩ := ConnToStream.output_cases hout
  · refine h.offer ?_ (fun _ => ⟨h.next data readErr hup, ?_⟩) ?_ (Nat.le_refl _) ?_ ?_ err rfl
    · intro data' readErr' hpc
      rw [hup] at hpc
      cases err with
      | none => exact absurd hpc not_sendData_afterRead
      | some err => cases hpc
    · rw [hup]
      rfl
    · rw [hup]
      exact Nat.zero_le _
    · rintro ⟨⟩
    · rintro ⟨⟩
  · refine h.offer ?_ ?_ ?_ (Nat.le_refl _) (fun _ => ?_) ?_ err rfl
    · intro data' readErr' hpc
      rw [hup] at hpc
      cases err <;> cases hpc
    · rintro ⟨⟩
    · rw [hup]
      exact Nat.zero_le _
    · rw [hup]
      cases err <;> exact Nat.one_pos
    · rintro ⟨⟩
  · refine h.offer ?_ ?_ ?_ (Nat.le_refl _) ?_ (fun _ => ?_) err rfl
    · intro data' readErr' hpc
      rw [hup] at hpc
      cases hpc
    · rintro ⟨⟩
    · rw [hup]
      exact Nat.zero_le _
    · rintro ⟨⟩
    · rw [hup]
      exact Nat.add_lt_add_right Nat.one_pos _

theorem AnyStep.frames (h : AnyStep e l e') (hi : e.Frames fs) : e'.Frames (fs ++ e.offers l) := by
  cases h with
  | sendUp frame err hout =>
    rw [offers, hout]
    exact hi.sendUp hout err
  | sendDown cause err hdown =>
    refine hi.offer hi.next ?_ (Nat.le_refl _) ?_ ?_ (fun _ => ?_) err rfl
    · rintro ⟨⟩
    · rw [hdown]
      exact Nat.zero_le _
    · rintro ⟨⟩
    · rw [hdown]
      exact Nat.add_lt_add_left Nat.one_pos _
  | read data err hup hlen =>
    rw [← List.append_nil fs] at hi
    refine hi.quiet (fun data' err' hpc => ?_) ?_ (Nat.le_refl _) rfl
    · dsimp only at hpc
      split at hpc
      · exact absurd hpc not_sendData_afterRead
      · next hne =>
        obtain ⟨rfl, rfl⟩ := ConnToStream.sendData.inj hpc
        exact ⟨hne, hlen⟩
    · rw [hup]
      exact Nat.zero_le _
  | recv frame hdown | recvErr err hdown | write data n err hdown | closeWrite err hdown =>
    rw [← List.append_nil fs] at hi
    refine hi.quiet hi.next (Nat.le_refl _) ?_ rfl
    rw [hdown]
    exact Nat.zero_le _
  | failUp err linger close hup =>
    rw [← List.append_nil fs] at hi
    obtain ⟨n, heq⟩ := fail_eq e err linger close
    rw [heq]
    refine hi.quiet ?_ ?_ (Nat.le_refl _) rfl
    · rintro _ _ ⟨⟩
    · rw [hup]
      exact Nat.le_refl _
  | failDown err linger close hdown =>
    rw [← List.append_nil fs] at hi
    obtain ⟨n, heq⟩ := fail_eq e err linger close
    rw [heq]
    refine hi.quiet hi.next (Nat.le_refl _) ?_ rfl
    rw [hdown]
    exact Nat.le_refl _
  | retErr err close hup hdown hresult hfirst =>
    rw [← List.append_nil fs] at hi
    exact hi.quiet hi.next (Nat.le_refl _) (Nat.le_refl _) rfl
  | retClose close hup hdown hresult hfirst =>
    rw [← List.append_nil fs] at hi
    obtain ⟨c, n, heq⟩ := close_eq e false none close
    rw [heq]
    exact hi.quiet hi.next (Nat.le_refl _) (Nat.le_refl _) rfl

theorem Frames.disciplined (h : e.Frames fs) : Disciplined fs where
  halfClose := Nat.le_trans h.halfClose (ConnToStream.ended_le _)
  order := h.order
  data := h.data
  resets := Nat.le_trans h.resets (Nat.add_le_add (ConnToStream.ended_le _) (StreamToConn.ended_le _))

theorem AnyStep.tcp (h : AnyStep e l e') : e'.tcp = e.tcp := by
  cases h with
  | failUp err linger close | failDown err linger close =>
    obtain ⟨n, heq⟩ := fail_eq e err linger close
    rw [heq]
  | retClose close =>
    obtain ⟨c, n, heq⟩ := close_eq e false none close
    rw [heq]
  | read | sendUp | recv | recvErr | write | closeWrite | sendDown | retErr => rfl

end Endpoint

/-! ### Whole calls -/

/-- A call of `SpliceConn` with all frames that it gave to `Send`, whether they were sent or not. -/
structure SpliceCall where
  endpoint : Endpoint
  offered : List Frame := []

namespace SpliceCall

def step (s : SpliceCall) (l : ConnLabel) : Option SpliceCall :=
  (s.endpoint.stepAny l).map fun e => ⟨e, s.offered ++ s.endpoint.offers l⟩

def init (tcp : Bool) : SpliceCall := ⟨Endpoint.init tcp [], []⟩

structure Inv (tcp : Bool) (ls : List ConnLabel) (s : SpliceCall) : Prop where
  tcp : s.endpoint.tcp = tcp
  fails : s.endpoint.fails = ls.any ConnLabel.fails
  closes : s.endpoint.Closes
  frames : s.endpoint.Frames s.offered
  running : s.endpoint.result = none → ∀ close, ConnLabel.ret close ∉ ls
  returned : ∀ r, s.endpoint.result = some r → ∃ close, (∀ c, ConnLabel.ret c ∈ ls ↔ c = close) ∧
    r = s.endpoint.firstErr.or (close.map (GoError.wrap "close local connection"))

theorem init_inv (tcp : Bool) : Inv tcp [] (init tcp) where
  tcp := rfl
  fails := rfl
  closes := ⟨rfl, rfl, fun h => absurd rfl h⟩
  frames := by
    refine ⟨?_, ?_, Nat.le_refl _, List.Pairwise.nil, Nat.le_refl _, List.Sublist.refl _⟩
    · rintro data err ⟨⟩
    · intro f hf
      exact absurd hf List.not_mem_nil
  running := fun _ _ => List.not_mem_nil
  returned := by rintro r ⟨⟩

theorem Inv.step {tcp : Bool} {ls : List ConnLabel} {s s' : SpliceCall} {l : ConnLabel}
    (hi : Inv tcp ls s) (h : s.step l = some s') : Inv tcp (ls ++ [l]) s' := by
  obtain ⟨e', hstep, rfl⟩ := Option.map_eq_some_iff.mp h
  have hany := Endpoint.stepAny_cases hstep
  have hbefore := hi.running (hany.running hi.closes)
  refine ⟨hany.tcp.trans hi.tcp, ?_, hany.closes hi.closes, hany.frames hi.frames, ?_, ?_⟩
  · rw [hany.fails, hi.fails, List.any_append, List.any_cons, List.any_nil, Bool.or_false]
  · intro hnone close hmem
    rcases hany.result hi.closes with ⟨-, hne⟩ | ⟨close', -, hresult⟩
    · rcases List.mem_append.mp hmem with hold | hlast
      · exact hbefore close hold
      · exact hne close (List.mem_singleton.mp hlast).symm
    · rw [hnone] at hresult
      cases hresult
  · intro r hr
    rcases hany.result hi.closes with ⟨hnone, -⟩ | ⟨close, rfl, hresult⟩
    · rw [hnone] at hr
      cases hr
    · rw [hr] at hresult
      refine ⟨close, fun c => ?_, Option.some.inj hresult⟩
      rw [List.mem_append, List.mem_singleton]
      refine ⟨?_, fun hc => .inr (congrArg _ hc)⟩
      rintro (hold | hlast)
      · exact absurd hold (hbefore c)
      · exact ConnLabel.ret.inj hlast

theorem inv_of_run {tcp : Bool} {ls : List ConnLabel} {s : SpliceCall}
    (h : Lts.AnyRun step (init tcp) ls s) : Inv tcp ls s :=
  h.history (fun _ _ _ _ hi _ hs => hi.step hs) (init_inv tcp)

theorem Inv.firstErr {tcp : Bool} {ls : List ConnLabel} {s : SpliceCall} (hi : Inv tcp ls s)
    (h : s.endpoint.result ≠ none) : s.endpoint.firstErr.isSome = ls.any ConnLabel.fails := by
  obtain ⟨hup, hdown⟩ := hi.closes.returned h
  have hfails := hi.fails
  rw [Endpoint.fails, hup, hdown] at hfails
  simpa only [ConnToStream.fails, StreamToConn.fails, Bool.or_false] using hfails

/-- When `SpliceConn` returns, the socket was closed once, by abort exactly if a worker failed, nil means that
none did and that `Close` succeeded, and the frames are in order. -/
theorem discipline_of_run {tcp : Bool} {ls : List ConnLabel} {s : SpliceCall} {r : Option GoError}
    (h : Lts.AnyRun step (init tcp) ls s) (hr : s.endpoint.result = some r) :
    s.endpoint.closes = 1 ∧
      s.endpoint.closer.map Closed.abort = some (ls.any ConnLabel.fails) ∧
      s.endpoint.lingered = (tcp && ls.any ConnLabel.fails) ∧
      (r = none ↔ ls.any ConnLabel.fails = false ∧ ConnLabel.ret none ∈ ls) ∧
      Disciplined s.endpoint.sent ∧ Disciplined s.offered := by
  have hi := inv_of_run h
  have hne : s.endpoint.result ≠ none := by
    rw [hr]
    exact Option.some_ne_none _
  have hfirst := hi.firstErr hne
  have habort : s.endpoint.closer.map Closed.abort = some (ls.any ConnLabel.fails) := by
    rw [hi.closes.closed, hr, hfirst]
    cases ls.any ConnLabel.fails <;> rfl
  obtain ⟨c, hcloser, hc⟩ := Option.map_eq_some_iff.mp habort
  refine ⟨?_, habort, ?_, ?_, hi.frames.disciplined.sublist hi.frames.sent, hi.frames.disciplined⟩
  · rw [hi.closes.count, hcloser]
    rfl
  · rw [Endpoint.lingered, hi.tcp, hcloser, Option.any_some, hc]
  · obtain ⟨close, hret, rfl⟩ := hi.returned r hr
    rw [← hfirst, hret]
    cases s.endpoint.firstErr with
    | some err => simp
    | none => cases close <;> simp

/-- The local side ends in order, and the reset of the peer makes the other worker fail. -/
theorem discipline_of_run_reset : ∃ s : SpliceCall, s.endpoint.result = some (some errReset) ∧
    s.endpoint.closes = 1 ∧ s.endpoint.lingered = true ∧
    s.offered = [.ofData [1], .halfClose] ∧ Disciplined s.offered := by
  let s := (Lts.exec step (init true) [.read [1] (some .eof), .sendUp none, .recv .reset, .sendUp none,
    .failDown none none, .ret none]).get (by decide +kernel)
  have hrun := Lts.anyRun_of_exec (t := s) (Option.some_get _).symm
  have hresult : s.endpoint.result = some (some errReset) := by decide +kernel
  obtain ⟨hcloses, -, hlinger, -, -, hframes⟩ := discipline_of_run hrun hresult
  exact ⟨s, hresult, hcloses, hlinger, by decide +kernel, hframes⟩

end SpliceCall
end Hostlink.Tunnel
