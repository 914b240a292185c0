import Hostlink.Link.Uploads

/-! The stages an upload's chunks go through up to the Control stream, each following the one before
it, and the order of the commands on that stream. -/

namespace Hostlink
open Controller (AgentConn Reply Command Call CallPc ConnLabel CallLabel BodySender BodyLabel View
  ViewStep CallMove)
open Agent (UploadChunk)

namespace UploadCommand

def chunkFor (id : String) : UploadCommand → Option UploadChunk
  | .chunk id' c => if id' = id then some c else none
  | .opening _ | .other => none

def names (id : String) : UploadCommand → Bool
  | .opening id' | .chunk id' _ => id' = id
  | .other => false

theorem chunkFor_eq_none {cmd : UploadCommand} {id : String} (h : cmd.names id = false) :
    cmd.chunkFor id = none := by
  cases cmd with
  | chunk id' c => exact if_neg (of_decide_eq_false h)
  | opening | other => rfl

end UploadCommand

def chunksFor (cmds : List UploadCommand) (id : String) : List UploadChunk :=
  cmds.filterMap (·.chunkFor id)

section Commands
variable {cmds l₁ l₂ : List UploadCommand} {cmd : UploadCommand} {id : String}

theorem chunksFor_concat (cmds : List UploadCommand) (cmd : UploadCommand) (id : String) :
    chunksFor (cmds ++ [cmd]) id = chunksFor cmds id ++ (cmd.chunkFor id).toList := by
  rw [chunksFor, List.filterMap_append]
  cases h : cmd.chunkFor id <;> simp [chunksFor, h]

theorem chunksFor_eq_nil (h : ∀ cmd ∈ cmds, cmd.names id = false) : chunksFor cmds id = [] :=
  List.filterMap_eq_nil_iff.mpr fun cmd hcmd => UploadCommand.chunkFor_eq_none (h cmd hcmd)

theorem chunksFor_isPrefix (h : l₁ <+: l₂) : chunksFor l₁ id <+: chunksFor l₂ id := h.filterMap _

def Opened (cmds : List UploadCommand) : Prop :=
  ∀ l₁ id l₂, cmds = l₁ ++ .opening id :: l₂ → ∀ cmd ∈ l₁, cmd.names id = false

theorem Opened.concat (h : Opened cmds)
    (hnew : ∀ id, cmd = .opening id → ∀ x ∈ cmds, x.names id = false) : Opened (cmds ++ [cmd]) := by
  intro l₁ id l₂ heq
  obtain rfl | ⟨l₂, last, rfl⟩ := List.eq_nil_or_concat l₂
  · obtain ⟨rfl, hcmd⟩ := List.append_inj' heq rfl
    exact hnew id (List.singleton_inj.mp hcmd)
  · rw [List.concat_eq_append, ← List.cons_append, ← List.append_assoc] at heq
    obtain ⟨hcmds, -⟩ := List.append_inj' heq rfl
    exact h l₁ id l₂ hcmds

end Commands

/-! ### From the body to the Control stream -/

namespace UploadServerPc

def holding : UploadServerPc → List UploadChunk
  | .send chunk => [chunk]
  | .recv | .await | .returned => []

def live : UploadServerPc → Bool
  | .returned => false
  | .recv | .send _ | .await => true

end UploadServerPc

/-- `sent` is what the body's sender sent, `down` what went down the Control stream, which works as
long as `live` holds. -/
structure UploadRelay.Ok (relay : UploadRelay) (sent down : List UploadChunk) (live : Bool) :
    Prop where
  hop : relay.hop.failed = false
  sent : relay.hop.sent = sent
  isPrefix : down <+: relay.hop.received
  follows : relay.server.live = true → live = true →
    down ++ relay.server.holding = relay.hop.received

namespace UploadRelay.Ok
variable {relay : UploadRelay} {sent down : List UploadChunk} {live : Bool} {chunk : UploadChunk}

theorem down_isPrefix (h : relay.Ok sent down live) : down <+: sent :=
  h.sent ▸ h.isPrefix.trans relay.hop.received_isPrefix

theorem push (h : relay.Ok sent down live) (chunk : UploadChunk) :
    ({ relay with hop := relay.hop.push chunk } : UploadRelay).Ok (sent ++ [chunk]) down live := by
  have hreceived := relay.hop.received_push chunk
  refine ⟨(relay.hop.failed_push chunk).trans h.hop, ?_, ?_, fun hs hl => ?_⟩
  · show (relay.hop.push chunk).sent = sent ++ [chunk]
    rw [Fifo.sent_push, h.hop, h.sent]
    rfl
  · exact hreceived ▸ h.isPrefix
  · exact (h.follows hs hl).trans hreceived.symm

theorem recv {hop : Fifo UploadChunk} (h : relay.Ok sent down live) (hpc : relay.server = .recv)
    (hpop : relay.hop.pop? = some (chunk, hop)) :
    ({ relay with hop := hop, server := .send chunk } : UploadRelay).Ok sent down live := by
  obtain ⟨-, hopen, hsent, -, -⟩ := Fifo.pop?_eq_some hpop
  have hreceived := Fifo.received_pop? hpop
  refine ⟨hopen, hsent.trans h.sent, ?_, fun _ hl => ?_⟩
  · exact hreceived ▸ h.isPrefix.trans (List.prefix_append _ _)
  · have hall := h.follows (by rw [hpc]; rfl) hl
    rw [hpc, UploadServerPc.holding, List.append_nil] at hall
    exact (congrArg (· ++ [chunk]) hall).trans hreceived.symm

theorem setServer {pc : UploadServerPc} {result : Option (Reply Nat)} (h : relay.Ok sent down live)
    (hheld : relay.server.holding = []) (hlive : relay.server.live = true) (hpc : pc.holding = []) :
    ({ relay with server := pc, result := result } : UploadRelay).Ok sent down live := by
  refine ⟨h.hop, h.sent, h.isPrefix, fun _ hl => ?_⟩
  have hall := h.follows hlive hl
  rw [hheld, ← hpc] at hall
  exact hall

theorem sendDown {pc : UploadServerPc} (h : relay.Ok sent down live)
    (hheld : relay.server = .send chunk) (hpc : pc.holding = []) :
    ({ relay with server := pc } : UploadRelay).Ok sent (down ++ if live then [chunk] else [])
      live := by
  cases live with
  | true =>
    have hall := h.follows (by rw [hheld]; rfl) rfl
    rw [hheld] at hall
    refine ⟨h.hop, h.sent, ⟨[], (List.append_nil _).trans hall⟩, fun _ _ => ?_⟩
    show _ ++ pc.holding = _
    rw [hpc, List.append_nil]
    exact hall
  | false =>
    rw [if_neg Bool.false_ne_true, List.append_nil]
    exact ⟨h.hop, h.sent, h.isPrefix, fun _ hl => by cases hl⟩

theorem stop (h : relay.Ok sent down live) :
    ({ relay with server := .returned } : UploadRelay).Ok sent down live :=
  ⟨h.hop, h.sent, h.isPrefix, fun hs => by cases hs⟩

theorem down_broken (h : relay.Ok sent down live) : relay.Ok sent down false :=
  ⟨h.hop, h.sent, h.isPrefix, fun _ hl => by cases hl⟩

end UploadRelay.Ok

namespace UploadSender
variable {u : UploadSender} {down : List UploadChunk} {live : Bool} {chunk : UploadChunk}

def Sourced (u : UploadSender) (down : List UploadChunk) (live : Bool) : Prop :=
  match u.relay with
  | none => down.Follows live u.body.sent
  | some relay => relay.Ok u.body.sent down live

structure Ok (u : UploadSender) (down : List UploadChunk) (live : Bool) : Prop where
  body : u.body.Ok
  sourced : u.Sourced down live

theorem Ok.down_isPrefix (h : u.Ok down live) : down <+: u.body.sent := by
  have hs := h.sourced
  unfold Sourced at hs
  split at hs
  · exact hs.1
  · exact UploadRelay.Ok.down_isPrefix hs

theorem Ok.down_broken (h : u.Ok down live) : u.Ok down false := by
  refine ⟨h.body, ?_⟩
  have hs := h.sourced
  unfold Sourced at hs ⊢
  split at hs
  · exact hs.mono fun hf => by cases hf
  · exact UploadRelay.Ok.down_broken hs

def Holds (u : UploadSender) (r : Reply Nat) : Prop :=
  u.result = some r ∨ ∃ relay, u.relay = some relay ∧ relay.result = some r

end UploadSender

theorem Controller.BodySender.step_sent {u u' : BodySender} {l : BodyLabel}
    (h : u.step l = some u') :
    (l = .sent none ∧ ∃ chunk, u.next = some chunk ∧ u'.sent = u.sent ++ [chunk]) ∨
      l ≠ .sent none ∧ u'.sent = u.sent := by
  cases l with
  | read data err =>
    simp only [BodySender.step] at h
    split at h
    · split at h
      · cases h
        exact .inr ⟨fun hl => (by cases hl), rfl⟩
      · cases h
    · cases h
  | sent err =>
    cases err with
    | some err =>
      obtain ⟨chunk, -, rfl⟩ := Option.map_eq_some_iff.mp h
      exact .inr ⟨fun hl => (by cases hl), rfl⟩
    | none =>
      simp only [BodySender.step] at h
      split at h
      · next hpc =>
        cases h
        exact .inl ⟨rfl, _, by rw [BodySender.next, hpc], rfl⟩
      · next hpc =>
        cases h
        exact .inl ⟨rfl, _, by rw [BodySender.next, hpc], rfl⟩
      · cases h
      · cases h

end Hostlink
