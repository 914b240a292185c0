import Hostlink.Lib.Run
import Hostlink.Tunnel.SpliceStream

/-! `SpliceStream`: two directions run side by side, and the call returns once it has taken the results
of both. The documentation lets it return as soon as either side resets. -/

namespace Hostlink.Tunnel

inductive Side where
  | a
  | b
  deriving DecidableEq, Repr

def Side.other : Side → Side
  | .a => .b
  | .b => .a

theorem Side.other_ne (side : Side) : side.other ≠ side := by cases side <;> rintro ⟨⟩

theorem Side.other_eq_of_ne {side side' : Side} (h : side' ≠ side) : side'.other = side := by
  cases side' <;> cases side <;> first | rfl | exact absurd rfl h

/-- A call of `SpliceStream`. The direction of a side receives from that side and sends to the other;
`results` is the channel of capacity two, `taken` what the call has received from it. -/
structure StreamCall where
  dir : Side → Direction := fun _ => {}
  posted : Side → Bool := fun _ => false
  results : List (Option GoError) := []
  taken : List (Option GoError) := []

inductive StreamLabel where
  | dir (side : Side) (l : DirectionLabel)
  | post (side : Side)
  | take
  deriving DecidableEq, Repr

namespace StreamCall

def step (s : StreamCall) : StreamLabel → Option StreamCall
  | .dir side l => ((s.dir side).step l).map fun d => { s with dir := Function.update s.dir side d }
  | .post side =>
    match (s.dir side).pc, s.posted side with
    | .done err, false => some { s with
        posted := Function.update s.posted side true
        results := s.results ++ [err] }
    | _, _ => none
  | .take =>
    match s.results with
    | [] => none
    | err :: rest =>
      if s.taken.length < 2 then some { s with results := rest, taken := s.taken ++ [err] } else none

def returned (s : StreamCall) : Option (Option GoError) :=
  if s.taken.length = 2 then some (GoError.joinAll s.taken) else none

theorem step_cases {s t : StreamCall} {l : StreamLabel} (h : s.step l = some t) :
    (∃ side dl d, l = .dir side dl ∧ (s.dir side).step dl = some d ∧
      t = { s with dir := Function.update s.dir side d }) ∨
    (∃ side err, l = .post side ∧ (s.dir side).pc = .done err ∧ s.posted side = false ∧
      t = { s with
        posted := Function.update s.posted side true
        results := s.results ++ [err] }) ∨
    ∃ err rest, l = .take ∧ s.results = err :: rest ∧ s.taken.length < 2 ∧
      t = { s with results := rest, taken := s.taken ++ [err] } := by
  unfold step at h
  split at h
  · next side dl =>
    obtain ⟨d, hd, rfl⟩ := Option.map_eq_some_iff.mp h
    exact .inl ⟨side, dl, d, rfl, hd, rfl⟩
  · next side =>
    split at h
    · next err hpc hposted => exact .inr (.inl ⟨side, err, rfl, hpc, hposted, (Option.some.inj h).symm⟩)
    · cases h
  · split at h
    · cases h
    · next err rest hresults =>
      split at h
      · next hlen => exact .inr (.inr ⟨err, rest, rfl, hresults, hlen, (Option.some.inj h).symm⟩)
      · cases h

end StreamCall

namespace Direction

def settled (d : Direction) : Bool :=
  match d.pc with
  | .forwardReset | .sendReset _ | .done _ => true
  | .recv _ | .forwardData _ | .forwardHalfClose => false

def ReceivedReset (d : Direction) : Prop := ∃ frame ∈ d.rcvd, frame.type = .reset

structure EndedByReset (d : Direction) : Prop where
  done : ∃ err, d.pc = .done err
  received : d.ReceivedReset
  forwarded : ∃ frame ∈ d.sent, frame.type = .reset

theorem settled_step {d d' : Direction} {l : DirectionLabel} (h : d.step l = some d')
    (hd : d.settled = true) : d'.settled = true := by
  obtain ⟨frame, halfClosed, -, hpc, rfl⟩ | ⟨err, halfClosed, -, hpc, rfl⟩ | ⟨err, frame, -, ho, rfl⟩ :=
    step_cases h
  · rw [settled, hpc] at hd
    cases hd
  · rw [settled, hpc] at hd
    cases hd
  · cases hpc : d.pc with
    | recv | forwardData | forwardHalfClose =>
      rw [settled, hpc] at hd
      cases hd
    | done => rw [hpc] at ho; cases ho
    | sendReset cause => rfl
    | forwardReset => cases err <;> rfl

theorem receivedReset_step {d d' : Direction} {l : DirectionLabel} (h : d.step l = some d')
    (hd : d'.ReceivedReset) :
    d.ReceivedReset ∨ d.settled = false ∧ ∃ frame, l = .recv frame ∧ frame.type = .reset := by
  obtain ⟨frame, halfClosed, rfl, hpc, rfl⟩ | ⟨err, halfClosed, -, -, rfl⟩ | ⟨err, frame, -, -, rfl⟩ :=
    step_cases h
  · obtain ⟨g, hg, hreset⟩ := hd
    rcases List.mem_append.mp hg with hold | hnew
    · exact .inl ⟨g, hold, hreset⟩
    · obtain rfl := List.mem_singleton.mp hnew
      refine .inr ⟨?_, g, rfl, hreset⟩
      rw [settled, hpc]
  · exact .inl hd
  · exact .inl hd

end Direction

namespace StreamCall

structure Awaits (s : StreamCall) (side : Side) : Prop where
  ended : (s.dir side).EndedByReset
  receiving : ∃ halfClosed, (s.dir side.other).pc = .recv halfClosed
  waiting : s.returned = none

/-! ### Waiting for the other stream -/

def countPosted (posted : Side → Bool) : Nat := (posted .a).toNat + (posted .b).toNat

theorem countPosted_update {posted : Side → Bool} {side : Side} (h : posted side = false) :
    countPosted (Function.update posted side true) = countPosted posted + 1 := by
  cases side with
  | a => simp [countPosted, h, Nat.add_comm]
  | b => simp [countPosted, h]

theorem countPosted_le_one {posted : Side → Bool} {side : Side} (h : posted side = false) :
    countPosted posted ≤ 1 := by
  cases side with
  | a => simp [countPosted, h, Bool.toNat_le]
  | b => simp [countPosted, h, Bool.toNat_le]

structure Counted (s : StreamCall) : Prop where
  results : s.results.length + s.taken.length = countPosted s.posted
  settled : ∀ side, s.posted side = true → (s.dir side).settled = true

theorem counted_init : ({} : StreamCall).Counted := ⟨rfl, by rintro side ⟨⟩⟩

theorem Counted.step {s t : StreamCall} {l : StreamLabel} (hs : s.Counted) (h : s.step l = some t) :
    t.Counted := by
  have hresults := hs.results
  obtain ⟨side, dl, d, -, hd, rfl⟩ | ⟨side, err, -, hpc, hposted, rfl⟩ | ⟨err, rest, -, hres, -, rfl⟩ :=
    step_cases h
  · refine ⟨hresults, fun side' hposted => ?_⟩
    have hdone := hs.settled side' hposted
    rcases eq_or_ne side' side with rfl | hne
    · simpa only [Function.update_self] using Direction.settled_step hd hdone
    · simpa only [Function.update_of_ne hne] using hdone
  · refine ⟨?_, fun side' hp => ?_⟩
    · dsimp only
      rw [countPosted_update hposted, ← hresults, List.length_append, List.length_singleton]
      omega
    · rcases eq_or_ne side' side with rfl | hne
      · rw [Direction.settled, hpc]
      · simp only [Function.update_of_ne hne] at hp
        exact hs.settled side' hp
  · refine ⟨?_, hs.settled⟩
    dsimp only
    rw [← hresults, hres, List.length_append, List.length_singleton, List.length_cons]
    omega

theorem Counted.returned_eq_none {s : StreamCall} (hs : s.Counted) {side : Side}
    (h : (s.dir side).settled = false) : s.returned = none := by
  have hposted : s.posted side = false := by
    by_contra hp
    rw [Bool.not_eq_false] at hp
    rw [hs.settled side hp] at h
    cases h
  have hcount := countPosted_le_one hposted
  have hresults := hs.results
  rw [returned, if_neg]
  omega

end StreamCall

def StreamLabel.receivesFrom (side : Side) : StreamLabel → Bool
  | .dir side' l => side' = side && l.incoming.isSome
  | .post _ | .take => false

namespace StreamCall

theorem receiving_step {s t : StreamCall} {l : StreamLabel} {side : Side} {halfClosed : Bool}
    (hpc : (s.dir side).pc = .recv halfClosed) (hl : l.receivesFrom side = false)
    (h : s.step l = some t) : (t.dir side).pc = .recv halfClosed := by
  obtain ⟨side', dl, d, rfl, hd, rfl⟩ | ⟨side', err, -, -, -, rfl⟩ | ⟨err, rest, -, -, -, rfl⟩ :=
    step_cases h
  · rcases eq_or_ne side side' with rfl | hne
    · rw [StreamLabel.receivesFrom, decide_eq_true rfl, Bool.true_and] at hl
      obtain ⟨frame, _, rfl, -, -⟩ | ⟨err, _, rfl, -, -⟩ | ⟨err, frame, -, ho, -⟩ :=
        Direction.step_cases hd
      · cases hl
      · cases hl
      · rw [hpc] at ho
        cases ho
    · simpa only [Function.update_of_ne hne] using hpc
  · exact hpc
  · exact hpc

theorem Counted.receives_before_return {s t : StreamCall} {ls : List StreamLabel} {side : Side}
    {halfClosed : Bool} (hs : s.Counted) (hpc : (s.dir side).pc = .recv halfClosed)
    (hrun : Lts.AnyRun StreamCall.step s ls t) (hret : t.returned ≠ none) :
    ∃ l ∈ ls, l.receivesFrom side = true := by
  by_contra hnone
  have hquiet : ∀ l ∈ ls, l.receivesFrom side = false := by
    intro l hl
    rw [← Bool.not_eq_true]
    exact fun hr => hnone ⟨l, hl, hr⟩
  have hkept : t.Counted ∧ (t.dir side).pc = .recv halfClosed := by
    clear hret hnone
    induction hrun with
    | nil => exact ⟨hs, hpc⟩
    | snoc _ _ hstep ih =>
      rw [List.forall_mem_append, List.forall_mem_singleton] at hquiet
      obtain ⟨hcounted, hrecv⟩ := ih hquiet.1
      exact ⟨hcounted.step hstep, receiving_step hrecv hquiet.2 hstep⟩
  have hopen : (t.dir side).settled = false := by rw [Direction.settled, hkept.2]
  exact hret (hkept.1.returned_eq_none hopen)

theorem Awaits.receives_before_return {s t : StreamCall} {ks ls : List StreamLabel} {side : Side}
    (h : s.Awaits side) (hreached : Lts.AnyRun step {} ks s) (hrun : Lts.AnyRun step s ls t)
    (hret : t.returned ≠ none) : ∃ l ∈ ls, l.receivesFrom side.other = true := by
  obtain ⟨halfClosed, hpc⟩ := h.receiving
  have hcounted : s.Counted := hreached.invariant (fun _ _ _ hs _ hstep => hs.step hstep) counted_init
  exact hcounted.receives_before_return hpc hrun hret

/-! ### When a RESET ends the call -/

/-- A stream delivers a RESET only after the other direction has stopped receiving. -/
def ResetLast (s : StreamCall) : StreamLabel → Prop
  | .dir side (.recv frame) => frame.type = .reset → (s.dir side.other).settled = true
  | _ => True

instance (s : StreamCall) (l : StreamLabel) : Decidable (s.ResetLast l) :=
  match l with
  | .dir side (.recv frame) =>
    inferInstanceAs (Decidable (frame.type = .reset → (s.dir side.other).settled = true))
  | .dir _ (.recvErr _) | .dir _ (.send _) | .post _ | .take => .isTrue trivial

def Settles (s : StreamCall) : Prop :=
  ∀ side, (s.dir side).ReceivedReset → (s.dir side.other).settled = true

theorem Settles.step {s t : StreamCall} {l : StreamLabel} (hs : s.Settles) (hok : s.ResetLast l)
    (h : s.step l = some t) : t.Settles := by
  obtain ⟨side, dl, d, rfl, hd, rfl⟩ | ⟨side, err, -, -, -, rfl⟩ | ⟨err, rest, -, -, -, rfl⟩ :=
    step_cases h
  · intro side' hreset
    rcases eq_or_ne side' side with rfl | hne
    · simp only [Function.update_self, Function.update_of_ne (Side.other_ne _)] at hreset ⊢
      rcases Direction.receivedReset_step hd hreset with hold | ⟨-, frame, rfl, htype⟩
      · exact hs side' hold
      · exact hok htype
    · -- the direction that has received a RESET stands still, the other one stays settled
      simp only [Function.update_of_ne hne] at hreset
      have hsettled := hs side' hreset
      rw [Side.other_eq_of_ne hne] at hsettled ⊢
      simpa only [Function.update_self] using Direction.settled_step hd hsettled
  · exact hs
  · exact hs

/-- Under the condition the call never waits for the other stream after a RESET. -/
theorem not_awaits_of_resetLast {ls : List StreamLabel} {t : StreamCall}
    (hrun : Lts.Run step ResetLast {} ls t) (side : Side) : ¬ t.Awaits side := by
  intro hawaits
  have hsettles : t.Settles :=
    hrun.invariant (fun _ _ _ hs hok hstep => hs.step hok hstep) (by rintro side ⟨frame, hmem, -⟩; cases hmem)
  obtain ⟨halfClosed, hpc⟩ := hawaits.receiving
  have hsettled := hsettles side hawaits.ended.received
  rw [Direction.settled, hpc] at hsettled
  cases hsettled

def resetAfterFailure : List StreamLabel :=
  [.dir .b (.recvErr .eof), .dir .b (.send none), .post .b, .dir .a (.recv .reset), .dir .a (.send none),
    .take, .post .a, .take]

theorem not_awaits_of_resetLast_failed : ∃ t, Lts.Run step ResetLast {} resetAfterFailure t ∧
    (t.dir .a).EndedByReset ∧ t.returned.isSome ∧ ¬ t.Awaits .a := by
  let t := (Lts.execOk step ResetLast {} resetAfterFailure).get (by decide +kernel)
  have hrun : Lts.Run step ResetLast {} resetAfterFailure t :=
    Lts.run_of_execOk (Option.some_get _).symm
  refine ⟨t, hrun, ⟨⟨some errReset, by decide +kernel⟩, ⟨.reset, by decide +kernel, rfl⟩,
    ⟨.reset, by decide +kernel, rfl⟩⟩, by decide +kernel, not_awaits_of_resetLast hrun .a⟩

/-- `a` half-closes and later resets while `b`, which has nothing to send, stays open: the first
direction has ended, its result is taken, and only the stream of `b` can move the call. -/
theorem awaits_after_reset : ∃ ls t, Lts.AnyRun step {} ls t ∧ t.Awaits .a ∧
    ∀ l u, t.step l = some u → l.receivesFrom .b = true := by
  let ls : List StreamLabel := [.dir .a (.recv .halfClose), .dir .a (.send none),
    .dir .a (.recv .reset), .dir .a (.send none), .post .a, .take]
  let t := (Lts.exec step {} ls).get (by decide +kernel)
  have hrun : Lts.AnyRun step {} ls t := Lts.anyRun_of_exec (Option.some_get _).symm
  have hb : (t.dir .b).pc = .recv false := by decide +kernel
  have ha : (t.dir .a).pc = .done (some errReset) := by decide +kernel
  refine ⟨ls, t, hrun, ⟨⟨⟨_, ha⟩, ⟨.reset, by decide +kernel, rfl⟩, ⟨.reset, by decide +kernel, rfl⟩⟩,
    ⟨false, hb⟩, by decide +kernel⟩, ?_⟩
  intro l u h
  obtain ⟨side, dl, d, rfl, hd, -⟩ | ⟨side, err, -, hpc, hposted, -⟩ | ⟨err, rest, -, hres, -, -⟩ :=
    step_cases h
  · cases side with
    | a =>
      obtain ⟨frame, _, -, hpc, -⟩ | ⟨err, _, -, hpc, -⟩ | ⟨err, frame, -, ho, -⟩ :=
        Direction.step_cases hd
      · rw [ha] at hpc
        cases hpc
      · rw [ha] at hpc
        cases hpc
      · rw [ha] at ho
        cases ho
    | b =>
      obtain ⟨frame, _, rfl, -, -⟩ | ⟨err, _, rfl, -, -⟩ | ⟨err, frame, -, ho, -⟩ :=
        Direction.step_cases hd
      · rfl
      · rfl
      · rw [hb] at ho
        cases ho
  · cases side with
    | a =>
      have hdone : t.posted .a = true := by decide +kernel
      rw [hdone] at hposted
      cases hposted
    | b =>
      rw [hb] at hpc
      cases hpc
  · have hempty : t.results = [] := by decide +kernel
    rw [hempty] at hres
    cases hres

end StreamCall
end Hostlink.Tunnel
