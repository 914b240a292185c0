import Hostlink.Lib.Fifo
import Hostlink.Tunnel.SpliceConnInv
import Hostlink.Tunnel.SpliceStream

/-! Two `SpliceConn` endpoints with `n` relays between them. A lane is one direction of the
chain: channel `k` leads to relay `k`, channel `n` to the far endpoint. -/

namespace Hostlink.Tunnel

/-- A receive takes the head of the stream; a failed one ends the stream, whatever it held. -/
def consume (c : Fifo Frame) : Option (Except GoError Frame) → Option (Fifo Frame)
  | some (.ok frame) => c.pop?.bind fun p => if p.1 = frame then some p.2 else none
  | some (.error _) => some c.fail
  | none => some c

def emit (c : Fifo Frame) (out : List Frame) : Fifo Frame := out.foldl Fifo.push c

structure Lane where
  chan : Nat → Fifo Frame
  relay : Nat → Direction

structure Chain where
  a : Endpoint
  b : Endpoint
  ab : Lane
  ba : Lane

inductive ChainLabel where
  | a (l : ConnLabel)
  | b (l : ConnLabel)
  | ab (k : Nat) (l : DirectionLabel)
  | ba (k : Nat) (l : DirectionLabel)

namespace Lane

def setChan (t : Lane) (k : Nat) (c : Fifo Frame) : Lane :=
  { t with chan := Function.update t.chan k c }

def stepRelay (t : Lane) (k : Nat) (l : DirectionLabel) : Option Lane := do
  let d ← (t.relay k).step l
  let c ← consume (t.chan k) l.incoming
  let out := emit (t.chan (k + 1)) (d.sent.drop (t.relay k).sent.length)
  some { (t.setChan k c).setChan (k + 1) out with relay := Function.update t.relay k d }

def near (t : Lane) (e e' : Endpoint) : Lane :=
  t.setChan 0 (emit (t.chan 0) (e'.sent.drop e.sent.length))

def far (n : Nat) (t : Lane) (l : ConnLabel) : Option Lane :=
  (consume (t.chan n) l.incoming).map (t.setChan n)

def init (pre : Nat → List Frame) : Lane where
  chan k := .ofList (pre k)
  relay k := .init (pre (k + 1))

end Lane

namespace Chain

def step (n : Nat) (s : Chain) : ChainLabel → Option Chain
  | .a l => do
    let a ← s.a.step l
    let ba ← s.ba.far n l
    some { s with a := a, ba := ba, ab := s.ab.near s.a a }
  | .b l => do
    let b ← s.b.step l
    let ab ← s.ab.far n l
    some { s with b := b, ab := ab, ba := s.ba.near s.b b }
  | .ab k l => if k < n then (s.ab.stepRelay k l).map fun t => { s with ab := t } else none
  | .ba k l => if k < n then (s.ba.stepRelay k l).map fun t => { s with ba := t } else none

/-- The chain at the moment the splice loops start; each stream may still carry frames of its
setup. -/
def init (tcpA tcpB : Bool) (preAB preBA : Nat → List Frame) : Chain where
  a := .init tcpA (preAB 0)
  b := .init tcpB (preBA 0)
  ab := .init preAB
  ba := .init preBA

end Chain

/-! ### The lane invariant -/

theorem emit_carries {c : Fifo Frame} {l : List Frame} (h : c.Carries l) (out : List Frame) :
    (emit c out).Carries (l ++ out) := by
  induction out generalizing c l with
  | nil =>
    rw [List.append_nil]
    exact h
  | cons f out ih =>
    rw [List.append_cons]
    exact ih (h.push f)

theorem emit_received (c : Fifo Frame) (out : List Frame) : (emit c out).received = c.received := by
  induction out generalizing c with
  | nil => rfl
  | cons f out ih =>
    rw [emit, List.foldl_cons]
    exact (ih (c.push f)).trans (c.received_push f)

theorem consume_spec {c c' : Fifo Frame} {i : Option (Except GoError Frame)}
    (h : consume c i = some c') :
    c'.received = c.received ++ gained i ∧ ∀ l, c.Carries l → c'.Carries l := by
  match i with
  | none =>
    obtain rfl : c = c' := by simpa [consume] using h
    exact ⟨(List.append_nil _).symm, fun _ hl => hl⟩
  | some (.error err) =>
    obtain rfl : c.fail = c' := by simpa [consume] using h
    exact ⟨(List.append_nil _).symm, fun _ hl => hl.fail⟩
  | some (.ok frame) =>
    obtain ⟨⟨g, d⟩, hp, hd⟩ := Option.bind_eq_some_iff.mp h
    split at hd
    · next hg =>
      obtain rfl : d = c' := by simpa using hd
      obtain rfl : g = frame := hg
      exact ⟨Fifo.received_pop? hp, fun _ hl => hl.pop? hp⟩
    · cases hd

structure LaneInv (n : Nat) (near far : Endpoint) (t : Lane) : Prop where
  head : (t.chan 0).Carries near.sent
  inv : ∀ k < n, (t.relay k).Inv
  rcvd : ∀ k < n, (t.relay k).rcvd = (t.chan k).received
  sent : ∀ k < n, (t.chan (k + 1)).Carries (t.relay k).sent
  tail : far.rcvd = (t.chan n).received

namespace LaneInv
variable {n : Nat} {near near' far far' : Endpoint} {t t' : Lane}

theorem received_conveys (h : LaneInv n near far t) {k : Nat} (hk : k ≤ n) :
    Conveys (t.chan k).received near.sent := by
  induction k with
  | zero => exact .of_isPrefix h.head.received_isPrefix
  | succ k ih =>
    -- from the relay's input, known by induction, over what it sent to what the next hop took
    have hrelay := (h.inv k hk).conveys
    rw [h.rcvd k hk] at hrelay
    exact (Conveys.of_isPrefix (h.sent k hk).received_isPrefix).trans (hrelay.trans (ih (by omega)))

theorem conveys (h : LaneInv n near far t) : Conveys far.rcvd near.sent := by
  rw [h.tail]
  exact h.received_conveys (Nat.le_refl n)

theorem init {pre : Nat → List Frame} (hpre : ∀ k, ∀ f ∈ pre k, IsSetup f)
    (hn : near.sent = pre 0) (hf : far.rcvd = []) : LaneInv n near far (.init pre) where
  head := hn ▸ Fifo.carries_ofList _
  inv k _ := Direction.init_inv (hpre (k + 1))
  rcvd _ _ := (Fifo.received_ofList _).symm
  sent _ _ := Fifo.carries_ofList _
  tail := hf.trans (Fifo.received_ofList _).symm

theorem stepNear (h : LaneInv n near far t) (hs : near.sent <+: near'.sent) :
    LaneInv n near' far (t.near near near') := by
  have hrec : ∀ k, ((t.near near near').chan k).received = (t.chan k).received := fun k => by
    by_cases hk : k = 0
    · subst hk
      simp [Lane.near, Lane.setChan, emit_received]
    · simp [Lane.near, Lane.setChan, hk]
  refine ⟨?_, h.inv, fun k hk => (h.rcvd k hk).trans (hrec k).symm, fun k hk => ?_,
    h.tail.trans (hrec n).symm⟩
  · have hc := emit_carries h.head (near'.sent.drop near.sent.length)
    rw [List.prefix_iff_eq_append.mp hs] at hc
    simpa [Lane.near, Lane.setChan] using hc
  · simpa [Lane.near, Lane.setChan] using h.sent k hk

theorem stepFar (h : LaneInv n near far t) {l : ConnLabel}
    (hr : far'.rcvd = far.rcvd ++ gained l.incoming) (ht : t.far n l = some t') :
    LaneInv n near far' t' := by
  obtain ⟨c, hc, rfl⟩ := Option.map_eq_some_iff.mp ht
  obtain ⟨hrec, hcar⟩ := consume_spec hc
  refine ⟨?_, h.inv, fun k hk => ?_, fun k hk => ?_, ?_⟩
  · by_cases hn : 0 = n
    · subst hn
      simpa [Lane.setChan] using hcar _ h.head
    · simpa [Lane.setChan, hn] using h.head
  · simpa [Lane.setChan, Nat.ne_of_lt hk] using h.rcvd k hk
  · by_cases hn : k + 1 = n
    · subst hn
      simpa [Lane.setChan] using hcar _ (h.sent k hk)
    · simpa [Lane.setChan, hn] using h.sent k hk
  · simp [Lane.setChan, hrec, hr, h.tail]

theorem stepRelay (h : LaneInv n near far t) {k : Nat} (hk : k < n) {l : DirectionLabel}
    (ht : t.stepRelay k l = some t') : LaneInv n near far t' := by
  simp only [Lane.stepRelay, Option.bind_eq_bind, Option.bind_eq_some_iff] at ht
  obtain ⟨d, hd, c, hc, ht⟩ := ht
  obtain rfl := Option.some.inj ht
  obtain ⟨hrec, hcar⟩ := consume_spec hc
  have hsent := List.prefix_iff_eq_append.mp (Direction.step_sent hd)
  refine ⟨?_, fun j hj => ?_, fun j hj => ?_, fun j hj => ?_, ?_⟩
  · by_cases h0 : 0 = k
    · subst h0
      simpa [Lane.setChan] using hcar _ h.head
    · simpa [Lane.setChan, h0] using h.head
  · by_cases hjk : j = k
    · subst hjk
      simpa using Direction.step_inv (h.inv j hj) hd
    · simpa [hjk] using h.inv j hj
  · by_cases hjk : j = k
    · subst hjk
      simp [Lane.setChan, hrec, Direction.step_rcvd hd, h.rcvd j hj]
    · by_cases hj1 : j = k + 1
      · subst hj1
        simpa [Lane.setChan, emit_received] using h.rcvd _ hj
      · simpa [Lane.setChan, hjk, hj1] using h.rcvd j hj
  · by_cases hjk : j = k
    · subst hjk
      have hout := emit_carries (h.sent j hj) (d.sent.drop (t.relay j).sent.length)
      rw [hsent] at hout
      simpa [Lane.setChan] using hout
    · by_cases hj1 : j + 1 = k
      · subst hj1
        simpa [Lane.setChan] using hcar _ (h.sent j hj)
      · simpa [Lane.setChan, hjk, hj1] using h.sent j hj
  · by_cases hn : n = k + 1
    · subst hn
      simpa [Lane.setChan, emit_received] using h.tail
    · simpa [Lane.setChan, hn, Nat.ne_of_gt hk] using h.tail

end LaneInv

/-! ### Runs of the chain -/

namespace Chain

structure Inv (n : Nat) (s : Chain) : Prop where
  a : s.a.Inv
  b : s.b.Inv
  ab : LaneInv n s.a s.b s.ab
  ba : LaneInv n s.b s.a s.ba

theorem init_inv (n : Nat) (tcpA tcpB : Bool) {preAB preBA : Nat → List Frame}
    (hab : ∀ k, ∀ f ∈ preAB k, IsSetup f) (hba : ∀ k, ∀ f ∈ preBA k, IsSetup f) :
    (init tcpA tcpB preAB preBA).Inv n where
  a := Endpoint.init_inv tcpA (hab 0)
  b := Endpoint.init_inv tcpB (hba 0)
  ab := .init hab rfl rfl
  ba := .init hba rfl rfl

theorem step_inv {n : Nat} {s s' : Chain} {l : ChainLabel} (hi : s.Inv n)
    (h : s.step n l = some s') : s'.Inv n := by
  cases l with
  | a l =>
    simp only [step, Option.bind_eq_bind, Option.bind_eq_some_iff] at h
    obtain ⟨a, ha, ba, hba, h⟩ := h
    obtain rfl := Option.some.inj h
    obtain ⟨hs, hr⟩ := Endpoint.step_hist ha
    exact ⟨Endpoint.step_inv hi.a ha, hi.b, hi.ab.stepNear hs, hi.ba.stepFar hr hba⟩
  | b l =>
    simp only [step, Option.bind_eq_bind, Option.bind_eq_some_iff] at h
    obtain ⟨b, hb, ab, hab, h⟩ := h
    obtain rfl := Option.some.inj h
    obtain ⟨hs, hr⟩ := Endpoint.step_hist hb
    exact ⟨hi.a, Endpoint.step_inv hi.b hb, hi.ab.stepFar hr hab, hi.ba.stepNear hs⟩
  | ab k l =>
    simp only [step] at h
    split at h
    · next hk =>
      obtain ⟨t, ht, rfl⟩ := Option.map_eq_some_iff.mp h
      exact ⟨hi.a, hi.b, hi.ab.stepRelay hk ht, hi.ba⟩
    · cases h
  | ba k l =>
    simp only [step] at h
    split at h
    · next hk =>
      obtain ⟨t, ht, rfl⟩ := Option.map_eq_some_iff.mp h
      exact ⟨hi.a, hi.b, hi.ab, hi.ba.stepRelay hk ht⟩
    · cases h

structure Piped (near far : Endpoint) : Prop where
  wrote_prefix : far.wrote <+: near.read
  closeWrite_once : far.closeWrites ≤ 1
  closeWrite_last : 0 < far.closeWrites → near.eof = true ∧ far.wrote = near.read

theorem piped_of_lane {n : Nat} {near far : Endpoint} {t : Lane} (hn : near.Inv) (hf : far.Inv)
    (ht : LaneInv n near far t) : Piped near far := by
  obtain ⟨hwrote, honce, hlast⟩ := hf.down.wrote
  obtain ⟨hsent, hsealed⟩ := hn.up.sent
  obtain ⟨hpay, hseal⟩ := ht.conveys
  refine ⟨hwrote.trans (hpay.trans hsent), honce, fun hpos => ?_⟩
  obtain ⟨hw, he⟩ := hsealed _ (hseal _ (hlast (by omega)))
  exact ⟨he, hw⟩

/-- The byte pipe, end to end: over every run, for every number of relays. -/
theorem piped_of_run (n : Nat) (tcpA tcpB : Bool) {preAB preBA : Nat → List Frame}
    (hab : ∀ k, ∀ f ∈ preAB k, IsSetup f) (hba : ∀ k, ∀ f ∈ preBA k, IsSetup f)
    {ls : List ChainLabel} {s : Chain}
    (h : Lts.AnyRun (step n) (init tcpA tcpB preAB preBA) ls s) :
    Piped s.a s.b ∧ Piped s.b s.a ∧
      (s.a.result = some none → s.b.result = some none →
        s.b.wrote = s.a.read ∧ s.a.wrote = s.b.read) := by
  have hi : s.Inv n := h.invariant (fun _ _ _ hi _ hs => step_inv hi hs)
    (init_inv n tcpA tcpB hab hba)
  have hfwd : Piped s.a s.b := piped_of_lane hi.a hi.b hi.ab
  have hbwd : Piped s.b s.a := piped_of_lane hi.b hi.a hi.ba
  refine ⟨hfwd, hbwd, fun ha hb => ?_⟩
  -- a `SpliceConn` that returns nil has received HALF_CLOSE and closed the write side once
  have hca := hi.a.returned_nil ha
  have hcb := hi.b.returned_nil hb
  exact ⟨(hfwd.closeWrite_last (by omega)).2, (hbwd.closeWrite_last (by omega)).2⟩

def greeting : List ChainLabel :=
  [.a (.read [104, 105] (some .eof)), .a (.sendUp none), .ab 0 (.recv (.ofData [104, 105])),
    .a (.sendUp none), .ab 0 (.send none), .b (.recv { type := .open }),
    .b (.recv (.ofData [104, 105])), .b (.write 1 none), .ab 0 (.recv .halfClose),
    .b (.read [] (some .eof)), .b (.sendUp none), .ab 0 (.send none), .b (.write 1 none),
    .ba 0 (.recv .halfClose), .b (.recv .halfClose), .b (.closeWrite none), .b (.ret none),
    .ba 0 (.send none), .a (.recv .halfClose), .a (.closeWrite none), .a (.ret none)]

theorem piped_of_run_greeting :
    let pre : Nat → List Frame := fun k => if k = 1 then [{ type := .open }] else []
    ∃ s, Lts.AnyRun (step 1) (init true true pre fun _ => []) greeting s ∧
      s.a.result = some none ∧ s.b.result = some none ∧
      s.b.wrote = [104, 105] ∧ s.b.wrote = s.a.read ∧ s.a.wrote = s.b.read := by
  intro pre
  have hpre : ∀ k, ∀ f ∈ pre k, IsSetup f := by
    intro k f hf
    by_cases hk : k = 1 <;> simp [pre, hk] at hf
    exact .inl (by rw [hf])
  let s := (Lts.exec (step 1) (init true true pre fun _ => []) greeting).get
    (by decide +kernel)
  have hs : Lts.AnyRun (step 1) (init true true pre fun _ => []) greeting s :=
    Lts.anyRun_of_exec (Option.some_get _).symm
  have ha : s.a.result = some none := by decide +kernel
  have hb : s.b.result = some none := by decide +kernel
  exact ⟨s, hs, ha, hb, by decide +kernel, (piped_of_run 1 true true hpre (by simp) hs).2.2 ha hb⟩

end Chain
end Hostlink.Tunnel
