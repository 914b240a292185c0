import Hostlink.Tunnel.SpliceConn

/-! One direction of the relay hop `SpliceStream`: the loop of `spliceStreamDirection`, with
each `Recv` and each `Send` one step. -/

namespace Hostlink.Tunnel

inductive DirectionPc where
  | recv (halfClosed : Bool)
  | forwardData (data : Bytes)
  | forwardHalfClose
  | forwardReset
  | sendReset (cause : GoError)
  | done (err : Option GoError)
  deriving DecidableEq, Repr

structure Direction where
  pc : DirectionPc := .recv false
  sent : List Frame := []
  rcvd : List Frame := []
  deriving DecidableEq, Repr

inductive DirectionLabel where
  | recv (frame : Frame)
  | recvErr (err : GoError)
  | send (err : Option GoError)
  deriving DecidableEq, Repr

def DirectionLabel.incoming : DirectionLabel → Option (Except GoError Frame)
  | .recv frame => some (.ok frame)
  | .recvErr err => some (.error err)
  | .send _ => none

namespace Direction

def onFrame (halfClosed : Bool) (frame : Frame) : DirectionPc :=
  -- only a RESET may follow HALF_CLOSE
  if halfClosed ∧ frame.type ≠ .reset then
    .sendReset (.new s!"frame type {frame.type.code} after half-close")
  else
    match frame.type with
    | .data => .forwardData frame.data
    | .halfClose => .forwardHalfClose
    | .reset => .forwardReset
    | .open => .recv halfClosed
    | .ready => .recv halfClosed
    | .unknown code => .sendReset (.new s!"unknown frame type {code}")

def onRecvErr (halfClosed : Bool) (err : GoError) : DirectionPc :=
  if halfClosed && err.is .eof then .done none else .sendReset (.wrap "receive frame" err)

def output : DirectionPc → Option Frame
  | .forwardData data => some (.ofData data)
  | .forwardHalfClose => some .halfClose
  | .forwardReset => some .reset
  | .sendReset _ => some .reset
  | _ => none

def afterSend : DirectionPc → Option GoError → DirectionPc
  | .forwardData _, none => .recv false
  | .forwardData _, some err => .done (some (.wrap "forward frame data" err))
  | .forwardHalfClose, none => .recv true
  | .forwardHalfClose, some err => .done (some (.wrap "forward half-close" err))
  | .forwardReset, none => .done (some errReset)
  | .forwardReset, some err => .done (some (.join errReset (.wrap "forward reset" err)))
  | .sendReset cause, err => .done (some (resetErr cause err))
  | pc, _ => pc

def step (d : Direction) : DirectionLabel → Option Direction
  | .recv frame =>
    match d.pc with
    | .recv halfClosed => some { d with pc := onFrame halfClosed frame, rcvd := d.rcvd ++ [frame] }
    | _ => none
  | .recvErr err =>
    match d.pc with
    | .recv halfClosed => some { d with pc := onRecvErr halfClosed err }
    | _ => none
  | .send err =>
    match output d.pc with
    | some frame => some { d with
        pc := afterSend d.pc err
        sent := if err.isNone then d.sent ++ [frame] else d.sent }
    | none => none

def init (pre : List Frame) : Direction := { sent := pre }

theorem step_cases {d d' : Direction} {l : DirectionLabel} (h : d.step l = some d') :
    (∃ frame halfClosed, l = .recv frame ∧ d.pc = .recv halfClosed ∧
      d' = { d with pc := onFrame halfClosed frame, rcvd := d.rcvd ++ [frame] }) ∨
    (∃ err halfClosed, l = .recvErr err ∧ d.pc = .recv halfClosed ∧
      d' = { d with pc := onRecvErr halfClosed err }) ∨
    ∃ err frame, l = .send err ∧ output d.pc = some frame ∧
      d' = { d with
        pc := afterSend d.pc err
        sent := if err.isNone then d.sent ++ [frame] else d.sent } := by
  unfold step at h
  split at h
  · next frame =>
    split at h
    · next halfClosed hpc => exact .inl ⟨frame, halfClosed, rfl, hpc, (Option.some.inj h).symm⟩
    · cases h
  · next err =>
    split at h
    · next halfClosed hpc => exact .inr (.inl ⟨err, halfClosed, rfl, hpc, (Option.some.inj h).symm⟩)
    · cases h
  · next err =>
    split at h
    · next frame hout => exact .inr (.inr ⟨err, frame, rfl, hout, (Option.some.inj h).symm⟩)
    · cases h

def Inv (d : Direction) : Prop :=
  match d.pc with
  | .recv halfClosed => payload d.sent = payload d.rcvd ∧
      sealedBytes d.sent = sealedBytes d.rcvd ∧ halfClosed = (sealedBytes d.rcvd).isSome
  | .forwardData data => payload d.sent ++ data = payload d.rcvd ∧ sealedBytes d.sent = none ∧
      sealedBytes d.rcvd = none
  | .forwardHalfClose => payload d.sent = payload d.rcvd ∧ sealedBytes d.sent = none ∧
      sealedBytes d.rcvd = some (payload d.sent)
  | .forwardReset | .sendReset _ | .done _ => Conveys d.sent d.rcvd

theorem Inv.conveys {d : Direction} (hi : d.Inv) : Conveys d.sent d.rcvd := by
  unfold Inv at hi
  split at hi
  · exact ⟨hi.1 ▸ List.prefix_rfl, fun b hb => hi.2.1 ▸ hb⟩
  · exact ⟨hi.1 ▸ List.prefix_append _ _, fun b hb => by simp [hi.2.1] at hb⟩
  · exact ⟨hi.1 ▸ List.prefix_rfl, fun b hb => by simp [hi.2.1] at hb⟩
  · exact hi
  · exact hi
  · exact hi

theorem init_inv {pre : List Frame} (hpre : ∀ f ∈ pre, IsSetup f) : (init pre).Inv :=
  ⟨payload_setup hpre, sealedBytes_setup hpre, rfl⟩

theorem inv_onFrame {d : Direction} {fs : List Frame} {f : Frame} {halfClosed : Bool}
    (hpc : d.pc = onFrame halfClosed f) (hr : d.rcvd = fs ++ [f]) (hp : payload d.sent = payload fs)
    (hs : sealedBytes d.sent = sealedBytes fs) (hh : halfClosed = (sealedBytes fs).isSome) :
    d.Inv := by
  have hpre : Conveys d.sent d.rcvd := by
    refine Conveys.trans ⟨hp ▸ List.prefix_rfl, fun b hb => hs ▸ hb⟩ (.of_isPrefix ?_)
    rw [hr]
    exact List.prefix_append _ _
  have hpay : payload d.rcvd = payload d.sent ++ f.bytes := by
    rw [hr, hp, payload_append, payload_singleton]
  by_cases hc : halfClosed = true ∧ f.type ≠ .reset
  · simp only [onFrame, if_pos hc] at hpc
    simpa only [Inv, hpc] using hpre
  simp only [onFrame, if_neg hc] at hpc
  cases ht : f.type with
  | reset | unknown code =>
    simp only [ht] at hpc
    simpa only [Inv, hpc] using hpre
  | data =>
    simp only [ht] at hpc
    have hn : sealedBytes fs = none := by simpa [ht, hh] using hc
    simp only [Inv, hpc]
    refine ⟨by rw [hpay, Frame.bytes, if_pos ht], hs.trans hn, ?_⟩
    rw [hr, sealedBytes_snoc_of_ne (by simp [ht]), hn]
  | halfClose =>
    simp only [ht] at hpc
    have hn : sealedBytes fs = none := by simpa [ht, hh] using hc
    simp only [Inv, hpc]
    refine ⟨by rw [hpay, Frame.bytes_of_ne (by simp [ht]), List.append_nil], hs.trans hn, ?_⟩
    rw [hr, sealedBytes_snoc_halfClose hn ht, hp]
  | «open» | ready =>
    simp only [ht] at hpc
    simp only [Inv, hpc]
    refine ⟨by rw [hpay, Frame.bytes_of_ne (by simp [ht]), List.append_nil], ?_, ?_⟩
    · rw [hr, sealedBytes_snoc_of_ne (by simp [ht]), hs]
    · rw [hr, sealedBytes_snoc_of_ne (by simp [ht]), hh]

theorem inv_afterSend {d : Direction} (hi : d.Inv) {frame : Frame} (ho : output d.pc = some frame) :
    Inv { d with pc := afterSend d.pc none, sent := d.sent ++ [frame] } := by
  have hreset : Conveys (d.sent ++ [.reset]) d.rcvd := by
    refine ⟨by simpa using hi.conveys.1, fun b hb => hi.conveys.2 b ?_⟩
    rwa [sealedBytes_snoc_of_ne (by simp [Frame.reset])] at hb
  cases hpc : d.pc with
  | recv | done => simp [hpc, output] at ho
  | forwardReset | sendReset cause =>
    obtain rfl : Frame.reset = frame := by simpa [hpc, output] using ho
    exact hreset
  | forwardData data =>
    obtain rfl : Frame.ofData data = frame := by simpa [hpc, output] using ho
    simp only [Inv, hpc] at hi
    refine ⟨by simpa using hi.1, ?_, by simp [hi.2.2]⟩
    rw [sealedBytes_snoc_of_ne (by simp [Frame.ofData]), hi.2.1, hi.2.2]
  | forwardHalfClose =>
    obtain rfl : Frame.halfClose = frame := by simpa [hpc, output] using ho
    simp only [Inv, hpc] at hi
    refine ⟨by simpa using hi.1, ?_, by simp [hi.2.2]⟩
    rw [sealedBytes_snoc_halfClose hi.2.1 rfl, hi.2.2]

theorem step_inv {d d' : Direction} {l : DirectionLabel} (hi : d.Inv) (h : d.step l = some d') :
    d'.Inv := by
  have hc := hi.conveys
  obtain ⟨frame, halfClosed, -, hpc, rfl⟩ | ⟨err, halfClosed, -, hpc, rfl⟩ | ⟨err, frame, -, ho, rfl⟩ :=
    step_cases h
  · simp only [Inv, hpc] at hi
    exact inv_onFrame rfl rfl hi.1 hi.2.1 hi.2.2
  · by_cases hx : (halfClosed && err.is .eof) = true <;> simp only [Inv, onRecvErr, hx]
    · exact hc
    · exact hc
  · cases err with
    | none => exact inv_afterSend hi ho
    | some err => cases hpc : d.pc <;> simp [hpc, output] at ho <;> exact hc

theorem step_rcvd {d d' : Direction} {l : DirectionLabel} (h : d.step l = some d') :
    d'.rcvd = d.rcvd ++ gained l.incoming := by
  obtain ⟨frame, _, rfl, -, rfl⟩ | ⟨err, _, rfl, -, rfl⟩ | ⟨err, frame, rfl, -, rfl⟩ := step_cases h
  · rfl
  · exact (List.append_nil _).symm
  · exact (List.append_nil _).symm

theorem step_sent {d d' : Direction} {l : DirectionLabel} (h : d.step l = some d') :
    d.sent <+: d'.sent := by
  obtain ⟨frame, _, -, -, rfl⟩ | ⟨err, _, -, -, rfl⟩ | ⟨err, frame, -, -, rfl⟩ := step_cases h
  · exact List.prefix_rfl
  · exact List.prefix_rfl
  · cases err
    · exact List.prefix_append _ _
    · exact List.prefix_rfl

end Direction
end Hostlink.Tunnel
