import Hostlink.Lib.Trace
import Hostlink.Tunnel.Chain

/-! RESET on the stream of one `SpliceConn`. The peer is free to send any frames; a frame
reaches the stream in order and `SpliceConn` is running until it has returned. A `Write` or a `Send`
may be under way for as long as its peer pleases. -/

namespace Hostlink.Tunnel

structure Splice where
  e : Endpoint
  inbox : Fifo Frame

inductive SpliceLabel where
  | arrive (frame : Frame)
  | conn (l : ConnLabel)

/-- The steps of `spliceStreamToConn`, the only worker that receives. -/
def ConnLabel.isDown : ConnLabel → Bool
  | .recv _ | .recvErr _ | .write _ _ | .closeWrite _ | .sendDown _ | .failDown _ _ => true
  | _ => false

def ConnLabel.isUp : ConnLabel → Bool
  | .read _ _ | .sendUp _ | .failUp _ _ => true
  | _ => false

def SpliceLabel.isDown : SpliceLabel → Bool
  | .conn l => l.isDown
  | .arrive _ => false

def SpliceLabel.isUp : SpliceLabel → Bool
  | .conn l => l.isUp
  | .arrive _ => false

def SpliceLabel.isReturn : SpliceLabel → Bool
  | .conn (.ret _) => true
  | .conn _ | .arrive _ => false

/-- A `Write` or a `Send` that was under way returns. -/
def SpliceLabel.endsCall : SpliceLabel → Bool
  | .conn (.write _ _) | .conn (.sendUp _) | .conn (.sendDown _) => true
  | .conn _ | .arrive _ => false

def ConnToStream.holding : ConnToStream → Bool
  | .sendData _ _ => true
  | _ => false

def HasReset (fs : List Frame) : Prop := ∃ f ∈ fs, f.type = .reset

instance (fs : List Frame) : Decidable (HasReset fs) :=
  inferInstanceAs (Decidable (∃ f ∈ fs, f.type = .reset))

theorem HasReset.mono {fs gs : List Frame} (h : HasReset fs) (hs : fs ⊆ gs) : HasReset gs :=
  let ⟨f, hf, ht⟩ := h
  ⟨f, hs hf, ht⟩

namespace Splice

def step (s : Splice) : SpliceLabel → Option Splice
  | .arrive frame => if s.e.result = none then some { s with inbox := s.inbox.push frame } else none
  | .conn l => do
    let e ← s.e.step l
    let inbox ← consume s.inbox l.incoming
    some { e := e, inbox := inbox }

def init (tcp : Bool) (pre : List Frame) : Splice := ⟨.init tcp pre, .ofList []⟩

def Aborted (s : Splice) : Prop := s.e.closer.map Closed.abort = some true

def Processed (s : Splice) : Prop := HasReset s.e.rcvd ∧ s.e.down = .done

/-- The steps that wait for nobody: a frame is there, the stream has failed, or the socket is closed,
so that `Read` and `Write` return at once. -/
def Unaided (s : Splice) : SpliceLabel → Prop
  | .conn (.recv _) | .conn (.closeWrite _) | .conn (.failDown _ _) | .conn (.failUp _ _)
  | .conn (.ret _) => True
  | .conn (.recvErr _) => s.inbox.failed = true
  | .conn (.read _ _) | .conn (.write _ _) => s.e.closer ≠ none
  | .conn (.sendUp _) | .conn (.sendDown _) | .arrive _ => False

section Traces
variable {ok : Splice → SpliceLabel → Prop} (r : Lts.Trace step ok)

/-- A goroutine that can go on goes on. -/
structure Scheduled : Prop where
  down : r.Serves SpliceLabel.isDown Unaided
  up : r.Serves SpliceLabel.isUp Unaided
  ret : r.Serves SpliceLabel.isReturn Unaided

/-- Every `Write` and `Send` that is under way returns. -/
structure CallsReturn : Prop where
  down : r.Serves SpliceLabel.isDown fun _ l => l.endsCall = true
  up : r.Serves SpliceLabel.isUp fun _ l => l.endsCall = true

/-- What a RESET brings about that has reached the stream by instant `n`. -/
structure TakesEffect (n : Nat) : Prop where
  received : ∀ m, n ≤ m → (r.state m).e.down = .done → (r.state m).Aborted
  silent : ∀ k m, n ≤ k → k ≤ m → (r.state k).Processed →
    payload (r.state m).e.sent = payload (r.state k).e.sent ∧
      (r.state m).e.wrote = (r.state k).e.wrote
  result : ∀ m, n ≤ m → ∀ err, (r.state m).e.result = some err → (r.state m).Aborted ∧ err ≠ none
  aborts : Scheduled r → CallsReturn r → ∃ m, n ≤ m ∧ (r.state m).Aborted
  returns : Scheduled r → CallsReturn r →
    ∃ m err, n ≤ m ∧ (r.state m).e.result = some (some err)

end Traces

/-- No HALF_CLOSE reached the stream before the first RESET, and `spliceConnToStream` is not
holding a chunk it has read but not sent when the RESET is acted on. -/
def InTime (s : Splice) : SpliceLabel → Prop
  | .arrive frame => frame.type = .reset →
      HasReset s.inbox.sent ∨ ∀ g ∈ s.inbox.sent, g.type ≠ .halfClose
  | .conn (.failDown _ _) => HasReset s.e.rcvd → s.e.up.holding = false
  | .conn _ => True

instance (s : Splice) (l : SpliceLabel) : Decidable (InTime s l) :=
  match l with
  | .arrive frame => inferInstanceAs (Decidable (frame.type = .reset →
      HasReset s.inbox.sent ∨ ∀ g ∈ s.inbox.sent, g.type ≠ .halfClose))
  | .conn (.failDown _ _) => inferInstanceAs (Decidable (HasReset s.e.rcvd → s.e.up.holding = false))
  | .conn (.read _ _) | .conn (.sendUp _) | .conn (.failUp _ _) | .conn (.recv _)
  | .conn (.recvErr _) | .conn (.write _ _) | .conn (.closeWrite _) | .conn (.sendDown _)
  | .conn (.ret _) => inferInstanceAs (Decidable True)

/-! ### The invariant -/

structure Inv (s : Splice) : Prop where
  e : s.e.Inv
  rcvd : s.e.rcvd = s.inbox.received
  reset : HasReset s.e.rcvd →
    s.e.down = .fail errReset ∨ (s.e.down = .done ∧ s.e.firstErr ≠ none)
  early : HasReset s.inbox.sent → ∃ p r q, s.inbox.sent = p ++ r :: q ∧ r.type = .reset ∧
    ∀ g ∈ p, g.type ≠ .halfClose
  quiet : s.Processed → s.e.up.holding = false

theorem init_inv (tcp : Bool) {pre : List Frame} (hpre : ∀ f ∈ pre, IsSetup f) :
    (init tcp pre).Inv where
  e := Endpoint.init_inv tcp hpre
  rcvd := rfl
  reset := fun ⟨f, hf, _⟩ => by simp [init, Endpoint.init] at hf
  early := fun ⟨f, hf, _⟩ => by simp [init, Fifo.ofList] at hf
  quiet := fun ⟨⟨f, hf, _⟩, _⟩ => by simp [init, Endpoint.init] at hf

theorem consume_cases {c c' : Fifo Frame} {l : ConnLabel} (h : consume c l.incoming = some c') :
    (∃ frame, l = .recv frame ∧ c.pop? = some (frame, c')) ∨
      (∃ err, l = .recvErr err ∧ c' = c.fail) ∨ (l.incoming = none ∧ c' = c) := by
  cases l with
  | recv frame =>
    obtain ⟨⟨g, d⟩, hp, hd⟩ := Option.bind_eq_some_iff.mp h
    split at hd
    · next hg =>
      obtain rfl : g = frame := hg
      obtain rfl : d = c' := by simpa using hd
      exact .inl ⟨g, rfl, hp⟩
    · cases hd
  | recvErr err => exact .inr (.inl ⟨err, rfl, (Option.some.inj h).symm⟩)
  | read | sendUp | failUp | write | closeWrite | sendDown | failDown | ret =>
    exact .inr (.inr ⟨rfl, (Option.some.inj h).symm⟩)

theorem consume_sent {c c' : Fifo Frame} {l : ConnLabel} (h : consume c l.incoming = some c') :
    c'.sent = c.sent := by
  rcases consume_cases h with ⟨_, -, hp⟩ | ⟨_, -, rfl⟩ | ⟨-, rfl⟩
  · exact (Fifo.pop?_eq_some hp).2.2.1
  · rfl
  · rfl

theorem step_cases {s t : Splice} {l : SpliceLabel} (h : s.step l = some t) :
    (∃ frame, l = .arrive frame ∧ s.e.result = none ∧ t = { s with inbox := s.inbox.push frame }) ∨
      ∃ m, l = .conn m ∧ s.e.step m = some t.e ∧ consume s.inbox m.incoming = some t.inbox := by
  cases l with
  | arrive frame =>
    simp only [step] at h
    split at h
    · next hr => exact .inl ⟨frame, rfl, hr, (Option.some.inj h).symm⟩
    · cases h
  | conn m =>
    obtain ⟨e, he, h⟩ := Option.bind_eq_some_iff.mp h
    obtain ⟨c, hc, h⟩ := Option.bind_eq_some_iff.mp h
    obtain rfl := Option.some.inj h
    exact .inr ⟨m, rfl, he, hc⟩

theorem stepUp_quiet {e e' : Endpoint} {l : ConnLabel} (h : e.stepUp l = some e')
    (hc : e.closer ≠ none) (hq : e.up.holding = false) :
    e'.up.holding = false ∧ payload e'.sent = payload e.sent := by
  obtain ⟨data, err, -, -, hr, rfl⟩ | ⟨frame, err, -, ho, rfl⟩ | ⟨_, _, _, _, -, -, rfl⟩ :=
    Endpoint.stepUp_cases h
  · obtain rfl := (Endpoint.readable_closed hc hr).1
    refine ⟨?_, rfl⟩
    rcases afterRead_cases err with ha | ha | ⟨_, ha⟩ <;> simp [ha, ConnToStream.holding]
  · obtain ⟨data, err', hu, -⟩ | ⟨hu, rfl⟩ | ⟨cause, hu, rfl⟩ := ConnToStream.output_cases ho
    · simp [hu, ConnToStream.holding] at hq
    · rw [hu]
      cases err <;> exact ⟨rfl, by simp⟩
    · rw [hu]
      cases err <;> exact ⟨rfl, by simp⟩
  · exact ⟨rfl, rfl⟩

theorem stepUp_firstErr {e e' : Endpoint} {l : ConnLabel} (h : e.stepUp l = some e')
    (hf : e.firstErr ≠ none) : e'.firstErr ≠ none := by
  obtain ⟨_, _, -, -, -, rfl⟩ | ⟨_, _, -, -, rfl⟩ | ⟨err, linger, close, _, -, -, rfl⟩ :=
    Endpoint.stepUp_cases h
  · exact hf
  · exact hf
  · exact Endpoint.fail_firstErr e err linger close

/-- `spliceStreamToConn` acts on a RESET at once: its next step after receiving one is `fail`. -/
theorem stepDown_reset {e e' : Endpoint} {l : ConnLabel} (h : e.stepDown l = some e')
    (hr : HasReset e.rcvd → e.down = .fail errReset ∨ (e.down = .done ∧ e.firstErr ≠ none)) :
    HasReset e'.rcvd → e'.down = .fail errReset ∨ (e'.down = .done ∧ e'.firstErr ≠ none) := by
  obtain ⟨frame, -, hd, rfl⟩ | ⟨_, -, hd, rfl⟩ | ⟨_, _, _, -, hd, -, rfl⟩ | ⟨_, -, hd, -, rfl⟩ |
    ⟨_, _, -, hd, rfl⟩ | ⟨err, linger, close, _, -, -, rfl⟩ := Endpoint.stepDown_cases h
  · rintro ⟨f, hf, ht⟩
    rcases List.mem_append.mp hf with hf | hf
    · simpa [hd] using hr ⟨f, hf, ht⟩
    · obtain rfl := List.mem_singleton.mp hf
      exact .inl (by simp [onFrame, ht])
  · exact fun hx => by simpa [hd] using hr hx
  · exact fun hx => by simpa [hd] using hr hx
  · exact fun hx => by simpa [hd] using hr hx
  · exact fun hx => by simpa [hd] using hr hx
  · exact fun _ => .inr ⟨rfl, Endpoint.fail_firstErr e err linger close⟩

theorem arrive_inv {s : Splice} {frame : Frame} (hi : s.Inv) (hok : InTime s (.arrive frame)) :
    ({ s with inbox := s.inbox.push frame } : Splice).Inv where
  e := hi.e
  rcvd := by rw [Fifo.received_push, ← hi.rcvd]
  reset := hi.reset
  early := by
    unfold Fifo.push
    split
    · exact hi.early
    · rintro ⟨f, hf, ht⟩
      by_cases hr : HasReset s.inbox.sent
      · obtain ⟨p, r, q, hs, hrt, hp⟩ := hi.early hr
        exact ⟨p, r, q ++ [frame], by simp [hs], hrt, hp⟩
      · rcases List.mem_append.mp hf with hf | hf
        · exact absurd ⟨f, hf, ht⟩ hr
        · obtain rfl := List.mem_singleton.mp hf
          exact ⟨s.inbox.sent, f, [], rfl, ht, (hok ht).resolve_left hr⟩
  quiet := hi.quiet

theorem Inv.firstErr_of_processed {s : Splice} (hi : s.Inv) (h : s.Processed) :
    s.e.firstErr ≠ none := by
  rcases hi.reset h.1 with hd | hd
  · simp [h.2] at hd
  · exact hd.2

theorem Inv.closer_of_processed {s : Splice} (hi : s.Inv) (h : s.Processed) :
    s.e.closer ≠ none := by
  have ha := hi.e.close.aborted (hi.firstErr_of_processed h)
  exact fun hc => by simp [hc] at ha

theorem stepDown_processed {s : Splice} {e' : Endpoint} {l : ConnLabel}
    (h : s.e.stepDown l = some e')
    (hr : HasReset s.e.rcvd → s.e.down = .fail errReset ∨ (s.e.down = .done ∧ s.e.firstErr ≠ none))
    (hx : HasReset e'.rcvd) (hdone : e'.down = .done) (hok : InTime s (.conn l)) :
    s.e.up.holding = false := by
  obtain ⟨frame, -, -, rfl⟩ | ⟨_, -, -, rfl⟩ | ⟨data, n, err, -, -, -, rfl⟩ | ⟨_, -, hd, -, rfl⟩ |
    ⟨_, _, -, -, rfl⟩ | ⟨err, linger, close, _, rfl, -, rfl⟩ := Endpoint.stepDown_cases h
  · exact absurd hdone (onFrame_ne_done frame)
  · cases hdone
  · exact absurd hdone (afterWrite_ne_done data n err)
  · simp [hd] at hr
    exact absurd hx hr
  · cases hdone
  · exact hok hx

theorem conn_inv {s t : Splice} {l : ConnLabel} (hi : s.Inv) (hok : InTime s (.conn l))
    (he : s.e.step l = some t.e) (hc : consume s.inbox l.incoming = some t.inbox) : t.Inv := by
  have hrcvd : t.e.rcvd = t.inbox.received := by
    rw [(Endpoint.step_hist he).2, hi.rcvd, (consume_spec hc).1]
  refine ⟨Endpoint.step_inv hi.e he, hrcvd, ?_, consume_sent hc ▸ hi.early, ?_⟩
  · rcases Endpoint.step_cases he with h | h | ⟨_, -, h⟩
    · obtain ⟨hd, -, -, hr, -⟩ := Endpoint.stepUp_frame h
      rw [hd, hr]
      exact fun hx => (hi.reset hx).imp_right fun h' => ⟨h'.1, stepUp_firstErr h h'.2⟩
    · exact stepDown_reset h hi.reset
    · obtain ⟨-, -, -, c, n, r, ht, -⟩ := Endpoint.stepReturn_cases h
      rw [ht]
      exact hi.reset
  · rintro ⟨hx, hdone⟩
    rcases Endpoint.step_cases he with h | h | ⟨_, -, h⟩
    · obtain ⟨hd, -, -, hr, -⟩ := Endpoint.stepUp_frame h
      rw [hr] at hx
      rw [hd] at hdone
      exact (stepUp_quiet h (hi.closer_of_processed ⟨hx, hdone⟩) (hi.quiet ⟨hx, hdone⟩)).1
    · rw [(Endpoint.stepDown_frame h).1]
      exact stepDown_processed h hi.reset hx hdone hok
    · obtain ⟨-, -, -, c, n, r, ht, -⟩ := Endpoint.stepReturn_cases h
      rw [ht] at hx hdone ⊢
      exact hi.quiet ⟨hx, hdone⟩

theorem step_inv {s t : Splice} {l : SpliceLabel} (hi : s.Inv) (hok : InTime s l)
    (h : s.step l = some t) : t.Inv := by
  obtain ⟨frame, rfl, -, rfl⟩ | ⟨m, rfl, he, hc⟩ := step_cases h
  · exact arrive_inv hi hok
  · exact conn_inv hi hok he hc

/-- A RESET that was not overtaken by a HALF_CLOSE is not missed: the worker that receives is
done only after a failure. -/
theorem Inv.firstErr_of_done {s : Splice} (hi : s.Inv) (hr : HasReset s.inbox.sent)
    (hd : s.e.down = .done) : s.e.firstErr ≠ none := by
  intro hf
  have hcw := hi.e.close.downDone hd hf
  obtain ⟨g, hg, ht⟩ := exists_halfClose_of_sealedBytes (hi.e.down.wrote.2.2 hcw)
  obtain ⟨p, r, q, hs, hrt, hp⟩ := hi.early hr
  rw [hi.rcvd, Fifo.received, hs, List.take_append] at hg
  have hlong : p.length < s.inbox.taken := by
    by_contra hle
    rw [Nat.sub_eq_zero_of_le (Nat.le_of_not_lt hle), List.take_zero, List.append_nil] at hg
    exact hp g (List.mem_of_mem_take hg) ht
  have hmem : r ∈ s.e.rcvd := by
    rw [hi.rcvd, Fifo.received, hs, List.take_append]
    obtain ⟨k, hk⟩ := Nat.exists_eq_add_of_lt hlong
    have hn : s.inbox.taken - p.length = k + 1 := by omega
    rw [hn, List.take_succ_cons]
    exact List.mem_append_right _ (List.mem_cons_self ..)
  exact hi.firstErr_of_processed ⟨⟨r, hmem, hrt⟩, hd⟩ hf

/-! ### The budget of the receiving worker -/

def downCost : StreamToConn → Nat
  | .recv => 3
  | .write data => data.length + 3
  | .closeWrite => 3
  | .reset _ => 2
  | .fail _ => 1
  | .done => 0

def framesCost : List Frame → Nat
  | [] => 0
  | f :: fs => f.data.length + 1 + framesCost fs

theorem framesCost_append (fs gs : List Frame) :
    framesCost (fs ++ gs) = framesCost fs + framesCost gs := by
  induction fs with
  | nil => rw [List.nil_append, framesCost, Nat.zero_add]
  | cons f fs ih =>
    simp only [List.cons_append, framesCost, ih]
    omega

/-- What `spliceStreamToConn` may still do, given that it stops before it gets to the end of
the frames `fs`. -/
def downBudget (fs : List Frame) (s : Splice) : Nat :=
  downCost s.e.down + framesCost (fs.drop s.inbox.taken)

def upCost : ConnToStream → Nat
  | .read => 3
  | .sendData _ _ => 4
  | .sendHalfClose => 2
  | .reset _ => 2
  | .fail _ => 1
  | .done => 0

theorem downCost_onFrame (f : Frame) : downCost (onFrame f) ≤ f.data.length + 3 := by
  cases ht : f.type <;> by_cases hb : f.data = [] <;> simp [onFrame, ht, hb, downCost]

theorem downCost_afterWrite {data : Bytes} {n : Nat} (hn : n ≤ data.length)
    (err : Option GoError) : downCost (afterWrite data n err) < downCost (.write data) := by
  cases err with
  | some err => simp [afterWrite, downCost]
  | none =>
    by_cases hz : n = 0
    · simp [afterWrite, hz, downCost]
    · by_cases hnil : data.drop n = []
      · simp only [afterWrite, if_neg hz, if_pos hnil, downCost]
        omega
      · simp only [afterWrite, if_neg hz, if_neg hnil, downCost, List.length_drop]
        omega

theorem stepDown_cost {e e' : Endpoint} {l : ConnLabel} (h : e.stepDown l = some e') :
    downCost e'.down + 1 ≤ downCost e.down + framesCost (gained l.incoming) := by
  obtain ⟨frame, rfl, hd, rfl⟩ | ⟨_, rfl, hd, rfl⟩ | ⟨data, n, err, rfl, hd, hw, rfl⟩ |
    ⟨err, rfl, hd, -, rfl⟩ | ⟨_, _, rfl, hd, rfl⟩ | ⟨_, _, _, _, rfl, hd, rfl⟩ :=
    Endpoint.stepDown_cases h <;> rw [hd]
  · have := downCost_onFrame frame
    simp only [ConnLabel.incoming, gained, framesCost]
    simp only [downCost] at this ⊢
    omega
  · simp [downCost]
  · have hn : n ≤ data.length := by
      simp only [Endpoint.writable, Bool.and_eq_true, decide_eq_true_eq] at hw
      exact hw.1
    exact Nat.le_trans (downCost_afterWrite hn err) (Nat.le_add_right _ _)
  · cases err with
    | none => exact Nat.le_trans (Nat.le_add_left 1 2) (Nat.le_add_right _ _)
    | some err => exact Nat.le_add_right _ _
  · simp [downCost]
  · simp [downCost]

theorem stepUp_isDown {e e' : Endpoint} {l : ConnLabel} (h : e.stepUp l = some e') :
    l.isDown = false := by
  obtain ⟨_, _, rfl, -⟩ | ⟨_, _, rfl, -⟩ | ⟨_, _, _, _, rfl, -⟩ := Endpoint.stepUp_cases h <;> rfl

theorem Inv.taken_lt {s : Splice} (hi : s.Inv) {fs : List Frame} (hr : HasReset fs)
    (hfs : fs <+: s.inbox.sent) (hd : s.e.down = .recv) : s.inbox.taken < fs.length := by
  by_contra hle
  have hpre : fs <+: s.inbox.sent.take s.inbox.taken :=
    List.prefix_take_iff.mpr ⟨hfs, Nat.le_of_not_lt hle⟩
  have hx : HasReset s.e.rcvd := hr.mono (hi.rcvd ▸ hpre.subset)
  simpa [hd] using hi.reset hx

theorem Inv.consume_drop {s : Splice} (hi : s.Inv) {fs : List Frame} (hr : HasReset fs)
    (hfs : fs <+: s.inbox.sent) {m : ConnLabel} {e' : Endpoint} {c' : Fifo Frame}
    (he : s.e.step m = some e') (hc : consume s.inbox m.incoming = some c') :
    fs.drop s.inbox.taken = gained m.incoming ++ fs.drop c'.taken := by
  rcases consume_cases hc with ⟨frame, rfl, hp⟩ | ⟨err, rfl, rfl⟩ | ⟨hn, rfl⟩
  · obtain ⟨-, -, -, ht, hf⟩ := Fifo.pop?_eq_some hp
    have hd : s.e.down = .recv := by
      have he' : s.e.stepDown (.recv frame) = some e' := he
      simp only [Endpoint.stepDown] at he'
      split at he'
      · assumption
      · cases he'
    have hlt := hi.taken_lt hr hfs hd
    have hget : fs[s.inbox.taken] = frame := by
      rw [hfs.getElem hlt]
      exact List.getElem_of_getElem? hf |>.2
    rw [ht, List.drop_eq_getElem_cons hlt, hget]
    rfl
  · rfl
  · rw [hn]
    rfl

theorem downBudget_step {fs : List Frame} {s t : Splice} {l : SpliceLabel} (hi : s.Inv)
    (hr : HasReset fs) (hfs : fs <+: s.inbox.sent) (h : s.step l = some t) :
    downBudget fs t + (if l.isDown then 1 else 0) ≤ downBudget fs s := by
  obtain ⟨frame, rfl, -, rfl⟩ | ⟨m, rfl, he, hc⟩ := step_cases h
  · simp [downBudget, SpliceLabel.isDown, Fifo.taken_push]
  · have hcost : downCost t.e.down + (if m.isDown then 1 else 0) ≤
        downCost s.e.down + framesCost (gained m.incoming) := by
      rcases Endpoint.step_cases he with hm | hm | ⟨_, rfl, hm⟩
      · simp [(Endpoint.stepUp_frame hm).1, stepUp_isDown hm]
      · exact Nat.le_trans (by split <;> omega) (stepDown_cost hm)
      · obtain ⟨-, -, -, c, n, r, ht, -⟩ := Endpoint.stepReturn_cases hm
        simp [ht, ConnLabel.isDown]
    have hdrop := congrArg framesCost (hi.consume_drop hr hfs he hc)
    rw [framesCost_append] at hdrop
    change _ + (if m.isDown then 1 else 0) ≤ _
    unfold downBudget
    omega

theorem upCost_afterRead (err : Option GoError) : upCost (afterRead err) ≤ 3 := by
  rcases afterRead_cases err with ha | ha | ⟨_, ha⟩ <;> simp [ha, upCost]

theorem stepUp_cost {e e' : Endpoint} {l : ConnLabel} (h : e.stepUp l = some e')
    (hc : e.closer ≠ none) : upCost e'.up < upCost e.up := by
  obtain ⟨data, err, -, hu, hr, rfl⟩ | ⟨frame, err, -, ho, rfl⟩ | ⟨_, _, _, _, -, hu, rfl⟩ :=
    Endpoint.stepUp_cases h
  · obtain ⟨rfl, err', rfl, herr⟩ := Endpoint.readable_closed hc hr
    simp [hu, afterRead, herr, upCost]
  · obtain ⟨data, readErr, hu, -⟩ | ⟨hu, -⟩ | ⟨cause, hu, -⟩ := ConnToStream.output_cases ho <;>
      cases err <;> simp [hu, ConnToStream.afterSend, upCost]
    exact Nat.lt_succ_of_le (upCost_afterRead readErr)
  · simp [hu, upCost]

theorem stepDown_isUp {e e' : Endpoint} {l : ConnLabel} (h : e.stepDown l = some e') :
    l.isUp = false := by
  obtain ⟨_, rfl, -⟩ | ⟨_, rfl, -⟩ | ⟨_, _, _, rfl, -⟩ | ⟨_, rfl, -⟩ | ⟨_, _, rfl, -⟩ |
    ⟨_, _, _, _, rfl, -⟩ := Endpoint.stepDown_cases h <;> rfl

theorem step_closer {s t : Splice} {l : SpliceLabel} (h : s.step l = some t)
    (hc : s.e.closer ≠ none) : t.e.closer = s.e.closer := by
  obtain ⟨frame, rfl, -, rfl⟩ | ⟨m, rfl, he, -⟩ := step_cases h
  · rfl
  · exact Endpoint.step_closer he hc

theorem upCost_step {s t : Splice} {l : SpliceLabel} (hc : s.e.closer ≠ none)
    (h : s.step l = some t) : upCost t.e.up + (if l.isUp then 1 else 0) ≤ upCost s.e.up := by
  obtain ⟨frame, rfl, -, rfl⟩ | ⟨m, rfl, he, -⟩ := step_cases h
  · simp [SpliceLabel.isUp]
  · change _ + (if m.isUp then 1 else 0) ≤ _
    rcases Endpoint.step_cases he with hm | hm | ⟨_, rfl, hm⟩
    · have := stepUp_cost hm hc
      split <;> omega
    · simp [(Endpoint.stepDown_frame hm).1, stepDown_isUp hm]
    · obtain ⟨-, -, -, c, n, r, ht, -⟩ := Endpoint.stepReturn_cases hm
      simp [ht, ConnLabel.isUp]

theorem step_silent {s t : Splice} {l : SpliceLabel} (hi : s.Inv) (hp : s.Processed)
    (h : s.step l = some t) :
    t.Processed ∧ payload t.e.sent = payload s.e.sent ∧ t.e.wrote = s.e.wrote := by
  obtain ⟨frame, rfl, -, rfl⟩ | ⟨m, rfl, he, -⟩ := step_cases h
  · exact ⟨hp, rfl, rfl⟩
  · rcases Endpoint.step_cases he with hm | hm | ⟨_, rfl, hm⟩
    · obtain ⟨hd, hw, -, hr, -⟩ := Endpoint.stepUp_frame hm
      exact ⟨⟨hr ▸ hp.1, hd ▸ hp.2⟩, (stepUp_quiet hm (hi.closer_of_processed hp) (hi.quiet hp)).2, hw⟩
    · exact absurd hp.2 (Endpoint.stepDown_ne_done hm)
    · obtain ⟨-, -, -, c, n, r, ht, -⟩ := Endpoint.stepReturn_cases hm
      unfold Processed
      rw [ht]
      exact ⟨hp, rfl, rfl⟩

/-! ### A worker that is not done can take a step -/

theorem conn_enabled {s : Splice} {l : ConnLabel} (he : (s.e.step l).isSome = true)
    (hc : (consume s.inbox l.incoming).isSome = true) : (s.step (.conn l)).isSome = true := by
  obtain ⟨e, he⟩ := Option.isSome_iff_exists.mp he
  obtain ⟨c, hc⟩ := Option.isSome_iff_exists.mp hc
  simp [step, he, hc]

/-- Until it is done, `spliceStreamToConn` is in a call or can go on by itself. -/
theorem Inv.down_next {s : Splice} (hi : s.Inv) (hr : HasReset s.inbox.sent)
    (hd : s.e.down ≠ .done) : ∃ l : SpliceLabel, l.isDown = true ∧ (s.Unaided l ∨ l.endsCall = true) ∧
      (s.step l).isSome = true := by
  cases hdn : s.e.down with
  | recv =>
    cases hf : s.inbox.failed with
    | true =>
      refine ⟨.conn (.recvErr .eof), rfl, .inl hf, conn_enabled ?_ rfl⟩
      simp [Endpoint.step, Endpoint.stepDown, hdn]
    | false =>
      have hlt := hi.taken_lt hr List.prefix_rfl hdn
      refine ⟨.conn (.recv s.inbox.sent[s.inbox.taken]), rfl, .inl trivial, conn_enabled ?_ ?_⟩
      · simp [Endpoint.step, Endpoint.stepDown, hdn]
      · simp [ConnLabel.incoming, consume, Fifo.pop?, hf, hlt]
  | write data =>
    refine ⟨.conn (.write 0 (some .eof)), rfl, .inr rfl, conn_enabled ?_ rfl⟩
    simp [Endpoint.step, Endpoint.stepDown, hdn, Endpoint.writable]
  | closeWrite =>
    refine ⟨.conn (.closeWrite (some .eof)), rfl, .inl trivial, conn_enabled ?_ rfl⟩
    simp [Endpoint.step, Endpoint.stepDown, hdn]
  | reset cause =>
    refine ⟨.conn (.sendDown none), rfl, .inr rfl, conn_enabled ?_ rfl⟩
    simp [Endpoint.step, Endpoint.stepDown, hdn]
  | fail err =>
    refine ⟨.conn (.failDown none none), rfl, .inl trivial, conn_enabled ?_ rfl⟩
    simp [Endpoint.step, Endpoint.stepDown, hdn]
  | done => exact absurd hdn hd

theorem up_next {s : Splice} (hc : s.e.closer ≠ none) (hu : s.e.up ≠ .done) :
    ∃ l : SpliceLabel, l.isUp = true ∧ (s.Unaided l ∨ l.endsCall = true) ∧
      (s.step l).isSome = true := by
  have hsend : ∀ {frame : Frame}, s.e.up.output = some frame →
      (s.step (.conn (.sendUp none))).isSome = true := fun ho =>
    conn_enabled (by simp [Endpoint.step, Endpoint.stepUp, ho]) rfl
  cases hup : s.e.up with
  | read =>
    refine ⟨.conn (.read [] (some errReset)), rfl, .inl hc, conn_enabled ?_ rfl⟩
    simp [Endpoint.step, Endpoint.stepUp, hup, Endpoint.readable,
      show errReset.is .eof = false by decide]
  | sendData data err =>
    exact ⟨.conn (.sendUp none), rfl, .inr rfl, hsend (congrArg ConnToStream.output hup)⟩
  | sendHalfClose =>
    exact ⟨.conn (.sendUp none), rfl, .inr rfl, hsend (congrArg ConnToStream.output hup)⟩
  | reset cause =>
    exact ⟨.conn (.sendUp none), rfl, .inr rfl, hsend (congrArg ConnToStream.output hup)⟩
  | fail err =>
    refine ⟨.conn (.failUp none none), rfl, .inl trivial, conn_enabled ?_ rfl⟩
    simp [Endpoint.step, Endpoint.stepUp, hup]
  | done => exact absurd hup hu

/-! ### RESET takes effect -/

theorem Aborted.closer {s : Splice} (h : s.Aborted) : s.e.closer ≠ none :=
  fun hc => by simp [Aborted, hc] at h

theorem step_isPrefix {s t : Splice} {l : SpliceLabel} (h : s.step l = some t) :
    s.inbox.sent <+: t.inbox.sent := by
  obtain ⟨frame, rfl, -, rfl⟩ | ⟨m, rfl, -, hc⟩ := step_cases h
  · exact s.inbox.prefix_push frame
  · exact consume_sent hc ▸ List.prefix_rfl

theorem Inv.down_bound {s : Splice} (hi : s.Inv) (hr : HasReset s.inbox.sent)
    (ls : List SpliceLabel) (t : Splice) (h : Lts.Run step InTime s ls t) :
    ls.countP SpliceLabel.isDown ≤ downBudget s.inbox.sent s := by
  refine Nat.le_trans (Nat.le_add_right _ _) (h.countP_le (p := SpliceLabel.isDown)
    (μ := downBudget s.inbox.sent) (I := fun u => u.Inv ∧ s.inbox.sent <+: u.inbox.sent)
    ?_ ?_ ⟨hi, List.prefix_rfl⟩)
  · exact fun u l v hu hok hs => ⟨step_inv hu.1 hok hs, hu.2.trans (step_isPrefix hs)⟩
  · exact fun u l v hu _ hs => downBudget_step hu.1 hr hu.2 hs

theorem up_bound {s : Splice} (hc : s.e.closer ≠ none) (ls : List SpliceLabel) (t : Splice)
    (h : Lts.Run step InTime s ls t) : ls.countP SpliceLabel.isUp ≤ upCost s.e.up := by
  refine Nat.le_trans (Nat.le_add_right _ _) (h.countP_le (p := SpliceLabel.isUp)
    (μ := fun u => upCost u.e.up) (I := fun u => u.e.closer ≠ none) ?_ ?_ hc)
  · exact fun u l v hu _ hs => step_closer hs hu ▸ hu
  · exact fun u l v hu _ hs => upCost_step hu hs

theorem Inv.silent {s : Splice} (hi : s.Inv) (hp : s.Processed) (ls : List SpliceLabel)
    (t : Splice) (h : Lts.Run step InTime s ls t) :
    payload t.e.sent = payload s.e.sent ∧ t.e.wrote = s.e.wrote := by
  refine (h.invariant (I := fun u => u.Inv ∧ u.Processed ∧
    payload u.e.sent = payload s.e.sent ∧ u.e.wrote = s.e.wrote) ?_ ⟨hi, hp, rfl, rfl⟩).2.2
  rintro u l v ⟨hu, hup, hs, hw⟩ hok hstep
  obtain ⟨hvp, hs', hw'⟩ := step_silent hu hup hstep
  exact ⟨step_inv hu hok hstep, hvp, hs'.trans hs, hw'.trans hw⟩

/-! What changes hands only by the steps of one kind. -/

theorem step_down {s t : Splice} {l : SpliceLabel} (hl : l.isDown = false) (h : s.step l = some t) :
    t.e.down = s.e.down := by
  obtain ⟨frame, rfl, -, rfl⟩ | ⟨m, rfl, he, -⟩ := step_cases h
  · rfl
  · rcases Endpoint.step_cases he with hm | hm | ⟨_, rfl, hm⟩
    · exact (Endpoint.stepUp_frame hm).1
    · obtain ⟨_, rfl, -⟩ | ⟨_, rfl, -⟩ | ⟨_, _, _, rfl, -⟩ | ⟨_, rfl, -⟩ | ⟨_, _, rfl, -⟩ |
        ⟨_, _, _, _, rfl, -⟩ := Endpoint.stepDown_cases hm <;> cases hl
    · obtain ⟨-, -, -, c, n, r, ht, -⟩ := Endpoint.stepReturn_cases hm
      rw [ht]

theorem step_up {s t : Splice} {l : SpliceLabel} (hl : l.isUp = false) (h : s.step l = some t) :
    t.e.up = s.e.up := by
  obtain ⟨frame, rfl, -, rfl⟩ | ⟨m, rfl, he, -⟩ := step_cases h
  · rfl
  · rcases Endpoint.step_cases he with hm | hm | ⟨_, rfl, hm⟩
    · obtain ⟨_, _, rfl, -⟩ | ⟨_, _, rfl, -⟩ | ⟨_, _, _, _, rfl, -⟩ := Endpoint.stepUp_cases hm <;>
        cases hl
    · exact (Endpoint.stepDown_frame hm).1
    · obtain ⟨-, -, -, c, n, r, ht, -⟩ := Endpoint.stepReturn_cases hm
      rw [ht]

theorem step_result {s t : Splice} {l : SpliceLabel} (hl : l.isReturn = false)
    (h : s.step l = some t) : t.e.result = s.e.result := by
  obtain ⟨frame, rfl, -, rfl⟩ | ⟨m, rfl, he, -⟩ := step_cases h
  · rfl
  · rcases Endpoint.step_cases he with hm | hm | ⟨_, rfl, -⟩
    · exact (Endpoint.stepUp_frame hm).2.2.2.2
    · exact (Endpoint.stepDown_frame hm).2.2.2.2.2
    · cases hl

theorem down_ne_done {s t : Splice} {l : SpliceLabel} (hl : l.isDown = true)
    (h : s.step l = some t) : s.e.down ≠ .done := by
  obtain ⟨frame, rfl, -⟩ | ⟨m, rfl, he, -⟩ := step_cases h
  · cases hl
  · rcases Endpoint.step_cases he with hm | hm | ⟨_, rfl, -⟩
    · have hup := stepUp_isDown hm
      exact absurd (hup.symm.trans hl) Bool.false_ne_true
    · exact Endpoint.stepDown_ne_done hm
    · cases hl

theorem up_ne_done {s t : Splice} {l : SpliceLabel} (hl : l.isUp = true)
    (h : s.step l = some t) : s.e.up ≠ .done := by
  obtain ⟨frame, rfl, -⟩ | ⟨m, rfl, he, -⟩ := step_cases h
  · cases hl
  · rcases Endpoint.step_cases he with hm | hm | ⟨_, rfl, -⟩
    · obtain ⟨_, _, -, hu, -⟩ | ⟨_, _, -, ho, -⟩ | ⟨_, _, _, _, -, hu, -⟩ := Endpoint.stepUp_cases hm
      · simp [hu]
      · exact fun hu => by simp [hu, ConnToStream.output] at ho
      · simp [hu]
    · have hdown := stepDown_isUp hm
      exact absurd (hdown.symm.trans hl) Bool.false_ne_true
    · cases hl

theorem result_eq_none {s t : Splice} {l : SpliceLabel} (hl : l.isReturn = true)
    (h : s.step l = some t) : s.e.result = none ∧ t.e.result ≠ none := by
  obtain ⟨frame, rfl, -⟩ | ⟨m, rfl, he, -⟩ := step_cases h
  · cases hl
  · rcases Endpoint.step_cases he with hm | hm | ⟨_, rfl, hm⟩
    · obtain ⟨_, _, rfl, -⟩ | ⟨_, _, rfl, -⟩ | ⟨_, _, _, _, rfl, -⟩ := Endpoint.stepUp_cases hm <;>
        cases hl
    · obtain ⟨_, rfl, -⟩ | ⟨_, rfl, -⟩ | ⟨_, _, _, rfl, -⟩ | ⟨_, rfl, -⟩ | ⟨_, _, rfl, -⟩ |
        ⟨_, _, _, _, rfl, -⟩ := Endpoint.stepDown_cases hm <;> cases hl
    · obtain ⟨-, -, hres, c, n, r, ht, -⟩ := Endpoint.stepReturn_cases hm
      rw [ht]
      exact ⟨hres, Option.some_ne_none r⟩

section Traces
variable {ok : Splice → SpliceLabel → Prop} {r : Lts.Trace step ok} {tcp : Bool} {pre : List Frame}

theorem endpoint_inv (hpre : ∀ f ∈ pre, IsSetup f) (h0 : r.state 0 = init tcp pre) (n : Nat) :
    (r.state n).e.Inv := by
  refine r.invariant (I := fun s => s.e.Inv) ?_ (Nat.zero_le n) ?_
  · intro s l t hi _ hs
    obtain ⟨frame, rfl, -, rfl⟩ | ⟨m, rfl, he, -⟩ := step_cases hs
    · exact hi
    · exact Endpoint.step_inv hi he
  · rw [h0]
    exact Endpoint.init_inv tcp hpre

/-- A run in which `SpliceConn` returns has left no goroutine and no call behind. -/
theorem served_of_returned (hpre : ∀ f ∈ pre, IsSetup f) (h0 : r.state 0 = init tcp pre) {n : Nat}
    (hn : (r.state n).e.result ≠ none) : Scheduled r ∧ CallsReturn r := by
  have hstays : ∀ m, n ≤ m → (r.state m).e.result ≠ none := fun m hm =>
    r.invariant (I := fun s => s.e.result ≠ none) (fun s l t hs _ hstep => by
      cases hl : l.isReturn with
      | false => rwa [step_result hl hstep]
      | true => exact absurd (result_eq_none hl hstep).1 hs) hm hn
  have hdone : ∀ m, n ≤ m → (r.state m).e.up = .done ∧ (r.state m).e.down = .done := fun m hm =>
    (endpoint_inv hpre h0 m).close.returned (hstays m hm)
  have hdown := r.serves_of_ended (f := fun s => s.e.down) (P := (· = .done))
    (fun _ _ _ => step_down) (fun _ _ _ => down_ne_done) fun m hm => (hdone m hm).2
  have hup := r.serves_of_ended (f := fun s => s.e.up) (P := (· = .done))
    (fun _ _ _ => step_up) (fun _ _ _ => up_ne_done) fun m hm => (hdone m hm).1
  have hret := r.serves_of_ended (f := fun s => s.e.result) (P := (· ≠ none))
    (fun _ _ _ => step_result) (fun _ _ _ hl h hne => hne (result_eq_none hl h).1) hstays
  exact ⟨⟨hdown _, hup _, hret _⟩, hdown _, hup _⟩

end Traces

section InTime
variable {r : Lts.Trace step InTime} {n : Nat}

theorem exists_down_done (hi : ∀ m, n ≤ m → (r.state m).Inv)
    (hr : ∀ m, n ≤ m → HasReset (r.state m).inbox.sent) (hs : Scheduled r) (hc : CallsReturn r) :
    ∃ m, n ≤ m ∧ (r.state m).e.down = .done := by
  refine r.eventually (P := fun s => s.e.down = .done)
    ((hi n (Nat.le_refl n)).down_bound (hr n (Nat.le_refl n))) fun m hm hd => ?_
  obtain ⟨l, hl, hkind, hstep⟩ := (hi m hm).down_next (hr m hm) hd
  exact hkind.elim (hs.down m l hl · hstep) (hc.down m l hl · hstep)

theorem exists_up_done (hclosed : ∀ m, n ≤ m → (r.state m).e.closer ≠ none) (hs : Scheduled r)
    (hc : CallsReturn r) : ∃ m, n ≤ m ∧ (r.state m).e.up = .done := by
  refine r.eventually (P := fun s => s.e.up = .done) (up_bound (hclosed n (Nat.le_refl n)))
    fun m hm hu => ?_
  obtain ⟨l, hl, hkind, hstep⟩ := up_next (hclosed m hm) hu
  exact hkind.elim (hs.up m l hl · hstep) (hc.up m l hl · hstep)

/-- Both workers done, `SpliceConn` returns. -/
theorem exists_returned (hs : Scheduled r) (hu : (r.state n).e.up = .done)
    (hd : (r.state n).e.down = .done) : ∃ m, n ≤ m ∧ (r.state m).e.result ≠ none := by
  by_cases hres : (r.state n).e.result = none
  · have hstep : ((r.state n).step (.conn (.ret none))).isSome = true := by
      refine conn_enabled ?_ rfl
      cases hf : (r.state n).e.firstErr <;>
        simp [Endpoint.step, Endpoint.stepReturn, hu, hd, hres, hf]
    obtain ⟨m, l, hm, hlabel, hl⟩ := hs.ret n (.conn (.ret none)) rfl trivial hstep
    exact ⟨m + 1, Nat.le_succ_of_le hm, (result_eq_none hl (r.moves m l hlabel).2).2⟩
  · exact ⟨n, Nat.le_refl n, hres⟩

end InTime

theorem takesEffect_of_run {tcp : Bool} {pre : List Frame} (hpre : ∀ f ∈ pre, IsSetup f)
    (r : Lts.Trace step InTime) (h0 : r.state 0 = init tcp pre) {n : Nat}
    (hr : HasReset (r.state n).inbox.sent) : TakesEffect r n := by
  have hi : ∀ m, (r.state m).Inv := fun m =>
    r.invariant (fun _ _ _ hu hok hs => step_inv hu hok hs) (Nat.zero_le m)
      (h0 ▸ init_inv tcp hpre)
  have hsent : ∀ m, n ≤ m → HasReset (r.state m).inbox.sent := fun m hm =>
    r.invariant (I := fun s => HasReset s.inbox.sent)
      (fun _ _ _ hs _ hstep => hs.mono (step_isPrefix hstep).subset) hm hr
  -- the receiving worker cannot come to its end before the RESET, and fails on it
  have hab : ∀ m, n ≤ m → (r.state m).e.down = .done → (r.state m).Aborted := fun m hm hd =>
    (hi m).e.close.aborted ((hi m).firstErr_of_done (hsent m hm) hd)
  have hres : ∀ m, n ≤ m → ∀ err, (r.state m).e.result = some err →
      (r.state m).Aborted ∧ err ≠ none := by
    intro m hm err herr
    have hd := ((hi m).e.close.returned (by simp [herr])).2
    exact ⟨hab m hm hd, (hi m).e.close.failed err herr ((hi m).firstErr_of_done (hsent m hm) hd)⟩
  have haborts : Scheduled r → CallsReturn r →
      ∃ m, n ≤ m ∧ (r.state m).e.down = .done ∧ (r.state m).Aborted := by
    intro hs hc
    obtain ⟨m, hm, hd⟩ := exists_down_done (fun m _ => hi m) hsent hs hc
    exact ⟨m, hm, hd, hab m hm hd⟩
  refine ⟨hab, ?_, hres, fun hs hc => ?_, fun hs hc => ?_⟩
  · intro k m _ hkm hp
    obtain ⟨ls, hrun⟩ := r.exists_run hkm
    exact (hi k).silent hp ls _ hrun
  · obtain ⟨m, hm, -, ha⟩ := haborts hs hc
    exact ⟨m, hm, ha⟩
  · obtain ⟨m, hm, hd, ha⟩ := haborts hs hc
    have hclosed : ∀ k, m ≤ k → (r.state k).e.closer ≠ none := fun k hk =>
      r.invariant (I := fun s => s.e.closer ≠ none)
        (fun _ _ _ hs _ hstep => step_closer hstep hs ▸ hs) hk ha.closer
    obtain ⟨k, hk, hu⟩ := exists_up_done hclosed hs hc
    have hd' : (r.state k).e.down = .done :=
      r.invariant (I := fun s => s.e.down = .done) (fun s l t hs _ hstep => by
        cases hl : l.isDown with
        | false => rwa [step_down hl hstep]
        | true => exact absurd hs (down_ne_done hl hstep)) hk hd
    obtain ⟨j, hj, hret⟩ := exists_returned hs hu hd'
    obtain ⟨err, herr⟩ := Option.ne_none_iff_exists'.mp hret
    have hnj : n ≤ j := Nat.le_trans hm (Nat.le_trans hk hj)
    obtain ⟨err', rfl⟩ := Option.ne_none_iff_exists'.mp (hres j hnj err herr).2
    exact ⟨j, err', hnj, herr⟩

/-- Both directions are in use when the peer resets. -/
def resetAmidData : List SpliceLabel :=
  [.arrive (.ofData [7]), .conn (.recv (.ofData [7])), .conn (.read [1, 2] none),
    .conn (.sendUp none), .arrive .reset, .conn (.write 1 none), .conn (.recv .reset),
    .conn (.failDown none none), .conn (.read [] (some (.new "use of closed network connection"))),
    .conn (.sendUp none), .conn (.failUp none none), .conn (.ret none)]

theorem takesEffect_of_run_resetAmidData : ∃ r : Lts.Trace step InTime,
    r.state 0 = init true [] ∧ HasReset (r.state 5).inbox.sent ∧ Scheduled r ∧ CallsReturn r ∧
      ∃ m err, 5 ≤ m ∧ (r.state m).e.result = some (some err) := by
  let r : Lts.Trace step InTime := .ofList (init true []) resetAmidData (by decide +kernel)
  have h0 : r.state 0 = init true [] := rfl
  have hr : HasReset (r.state 5).inbox.sent := by decide +kernel
  have hres : (r.state 12).e.result ≠ none := by decide +kernel
  obtain ⟨hs, hc⟩ := served_of_returned (by simp) h0 hres
  exact ⟨r, h0, hr, hs, hc, (takesEffect_of_run (by simp) r h0 hr).returns hs hc⟩

/-- The peer half-closes, as it may when it has no more to send, and then fails. -/
def resetAfterHalfClose : List SpliceLabel :=
  [.arrive .halfClose, .conn (.recv .halfClose), .conn (.closeWrite none), .arrive .reset,
    .conn (.read [1] none), .conn (.sendUp none), .conn (.read [] (some .eof)), .conn (.sendUp none),
    .conn (.ret none)]

/-- Nobody receives the RESET: the socket stays open, bytes read from it are still forwarded,
and `SpliceConn` returns nil. -/
theorem reset_after_halfClose_lost : ∃ r : Lts.Trace step fun _ _ => True,
    r.state 0 = init true [] ∧ Scheduled r ∧ CallsReturn r ∧ HasReset (r.state 4).inbox.pending ∧
      (r.state 4).e.down = .done ∧ (r.state 4).e.up = .read ∧ (r.state 4).e.closer = none ∧
      payload (r.state 9).e.sent = [1] ∧ HasReset (r.state 9).inbox.pending ∧
      (r.state 9).e.result = some none ∧ ¬ TakesEffect r 4 := by
  let r : Lts.Trace step fun _ _ => True :=
    .ofList (init true []) resetAfterHalfClose (by decide +kernel)
  have h0 : r.state 0 = init true [] := rfl
  have hres : (r.state 9).e.result = some none := by decide +kernel
  obtain ⟨hs, hc⟩ := served_of_returned (by simp) h0 (n := 9) (by rw [hres]; exact Option.some_ne_none _)
  refine ⟨r, h0, hs, hc, by decide +kernel, by decide +kernel, by decide +kernel, by decide +kernel,
    by decide +kernel, by decide +kernel, hres, fun h => ?_⟩
  exact (h.result 9 (by decide) none hres).2 rfl

end Splice
end Hostlink.Tunnel
