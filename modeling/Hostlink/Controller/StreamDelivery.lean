import Hostlink.Controller.Lossless

/-! What `consumeStream` is given is what the agent sent, up to where the stream ended: each stage
between the two follows the one before it, and one that stops keeps a part from the start. -/

namespace Hostlink.Controller
variable {π : Type}

/-! ### The stages of a relayed stream -/

namespace RelayServerPc

def holding : RelayServerPc π → List (StreamFrame π)
  | .send frame _ => [frame]
  | .select | .drain | .returned => []

def live : RelayServerPc π → Bool
  | .returned => false
  | _ => true

end RelayServerPc

namespace RelayClientPc

def holding : RelayClientPc π → List (StreamFrame π)
  | .put frame => [frame]
  | .recv | .returned => []

def live : RelayClientPc π → Bool
  | .returned => false
  | _ => true

end RelayClientPc

/-- `taken` is what the server has taken from the channel of the request. -/
structure StreamRelay.Ok (relay : StreamRelay π) (passed taken : List (StreamFrame π)) : Prop where
  hop : relay.hop.failed = false
  server : (relay.hop.sent ++ relay.server.holding).Follows relay.server.live taken
  client : (passed ++ relay.frames ++ relay.client.holding).Follows relay.client.live
    relay.hop.received

namespace StreamRelay.Ok
variable {relay relay' : StreamRelay π} {passed taken : List (StreamFrame π)}

theorem passed_isPrefix (h : relay.Ok passed taken) : passed <+: taken := by
  have hreceived : passed <+: relay.hop.received := by
    refine List.IsPrefix.trans ?_ h.client.1
    rw [List.append_assoc]
    exact List.prefix_append _ _
  have hsent : relay.hop.sent <+: taken := (List.prefix_append _ _).trans h.server.1
  exact hreceived.trans (relay.hop.received_isPrefix.trans hsent)

theorem take {frame : StreamFrame π} (h : relay.Ok passed taken)
    (ht : relay.take frame = some relay') : relay'.Ok passed (taken ++ [frame]) := by
  have hserver := h.server
  unfold StreamRelay.take at ht
  split at ht
  · next hpc =>
    cases ht
    rw [hpc, RelayServerPc.holding, List.append_nil] at hserver
    exact ⟨h.hop, hserver.append [frame], h.client⟩
  · next hpc =>
    cases ht
    rw [hpc, RelayServerPc.holding, List.append_nil] at hserver
    exact ⟨h.hop, hserver.append [frame], h.client⟩
  · cases ht

theorem setServer (h : relay.Ok passed taken) {pc : RelayServerPc π}
    (hheld : relay.server.holding = []) (hlive : relay.server.live = true)
    (hpc : pc.holding = []) : ({ relay with server := pc } : StreamRelay π).Ok passed taken := by
  have hserver := h.server
  rw [hheld, ← hpc, hlive] at hserver
  exact ⟨h.hop, hserver.mono fun _ => rfl, h.client⟩

theorem stepServer {empty done : Bool} {l : RelayServerLabel} (h : relay.Ok passed taken)
    (hs : relay.stepServer empty done l = some relay') : relay'.Ok passed taken := by
  cases l with
  | frame => cases hs
  | sent ok =>
    simp only [StreamRelay.stepServer] at hs
    split at hs
    · next frame draining hpc =>
      have hserver := h.server
      rw [hpc] at hserver
      split at hs
      · cases hs
        have hsent : (relay.hop.push frame).sent = relay.hop.sent ++ [frame] := by
          rw [Fifo.push, h.hop, if_neg Bool.false_ne_true]
        refine ⟨?_, ?_, ?_⟩
        · show (relay.hop.push frame).failed = false
          rw [Fifo.push, h.hop, if_neg Bool.false_ne_true]
        · refine .of_eq ?_
          show (relay.hop.push frame).sent ++ RelayServerPc.holding _ = taken
          rw [hsent, ← hserver.2 rfl]
          cases frame.final <;> cases draining <;> exact List.append_nil _
        · show List.Follows _ _ (relay.hop.push frame).received
          rw [Fifo.received_push]
          exact h.client
      -- a failed send ends the relay
      · cases hs
        refine ⟨h.hop, hserver.stop ?_, h.client⟩
        show relay.hop.sent ++ [] <+: relay.hop.sent ++ [frame]
        rw [List.append_nil]
        exact List.prefix_append _ _
    · cases hs
  | done | abort =>
    simp only [StreamRelay.stepServer] at hs
    split at hs
    · next hpc =>
      split at hs
      · cases hs
        exact h.setServer (by rw [hpc]; rfl) (by rw [hpc]; rfl) rfl
      · cases hs
    · cases hs
  | ctxDone =>
    simp only [StreamRelay.stepServer] at hs
    split at hs
    · next hpc =>
      cases hs
      exact h.setServer (by rw [hpc]; rfl) (by rw [hpc]; rfl) rfl
    · cases hs

theorem stepClient {l : RelayClientLabel} (h : relay.Ok passed taken)
    (hs : relay.stepClient l = some relay') : relay'.Ok passed taken := by
  have hclient := h.client
  cases l with
  | recv =>
    simp only [StreamRelay.stepClient] at hs
    split at hs
    · next hpc =>
      obtain ⟨⟨frame, hop⟩, hpop, rfl⟩ := Option.map_eq_some_iff.mp hs
      obtain ⟨-, hopen, hsent, -, -⟩ := Fifo.pop?_eq_some hpop
      rw [hpc, RelayClientPc.holding, List.append_nil] at hclient
      refine ⟨hopen, ?_, ?_⟩
      · show (hop.sent ++ relay.server.holding).Follows _ _
        rw [hsent]
        exact h.server
      · show List.Follows _ _ hop.received
        rw [Fifo.received_pop? hpop]
        exact hclient.append [frame]
    · cases hs
  | recvErr =>
    simp only [StreamRelay.stepClient] at hs
    split at hs
    · next hpc =>
      cases hs
      rw [hpc] at hclient
      exact ⟨h.hop, h.server, hclient.stop List.prefix_rfl⟩
    · cases hs
  | put =>
    simp only [StreamRelay.stepClient] at hs
    split at hs
    · next frame hpc =>
      split at hs
      · cases hs
        rw [hpc] at hclient
        refine ⟨h.hop, h.server, .of_eq ?_⟩
        show passed ++ (relay.frames ++ [frame]) ++ RelayClientPc.holding _ = relay.hop.received
        rw [← hclient.2 rfl, ← List.append_assoc]
        cases frame.final <;> exact List.append_nil _
      · cases hs
    · cases hs
  | ctxDone =>
    simp only [StreamRelay.stepClient] at hs
    split at hs
    · next frame hpc =>
      cases hs
      refine ⟨h.hop, h.server, hclient.stop ?_⟩
      show passed ++ relay.frames ++ [] <+: _
      rw [List.append_nil]
      exact List.prefix_append _ _
    · cases hs

theorem consume {frame : StreamFrame π} {frames : List (StreamFrame π)}
    (h : relay.Ok passed taken) (hframes : relay.frames = frame :: frames) :
    ({ relay with frames := frames } : StreamRelay π).Ok (passed ++ [frame]) taken := by
  have hclient := h.client
  rw [hframes, List.append_cons] at hclient
  exact ⟨h.hop, h.server, hclient⟩

theorem init : ({} : StreamRelay π).Ok [] [] where
  hop := rfl
  server := .of_eq rfl
  client := .of_eq rfl

end StreamRelay.Ok

/-! ### The consumer -/

namespace StreamConsumer
variable {k k' : StreamConsumer π} {taken : List (StreamFrame π)}

def Sourced (k : StreamConsumer π) (taken : List (StreamFrame π)) : Prop :=
  match k.relay with
  | none => k.passed = taken
  | some relay => relay.Ok k.passed taken

structure Ok (k : StreamConsumer π) (taken : List (StreamFrame π)) : Prop where
  sourced : k.Sourced taken
  notFinal : k.pc ≠ .returned false → ∀ f ∈ k.passed, f.final = false

theorem Ok.passed_isPrefix (h : k.Ok taken) : k.passed <+: taken := by
  have hs := h.sourced
  unfold Sourced at hs
  split at hs
  · exact hs ▸ List.prefix_rfl
  · exact StreamRelay.Ok.passed_isPrefix hs

theorem leave_spec {empty done : Bool} {l : ConsumeLabel} (hs : k.leave empty done l = some k') :
    (∃ pc, k' = { k with pc := pc }) ∧ (k'.pc ≠ .returned false → k.pc ≠ .returned false) := by
  cases l with
  | frame => cases hs
  | done | abort =>
    simp only [StreamConsumer.leave] at hs
    split at hs
    · next hpc =>
      split at hs
      · cases hs
        exact ⟨⟨_, rfl⟩, fun _ => by rw [hpc]; exact fun he => by cases he⟩
      · cases hs
    · cases hs
  | ctxDone =>
    simp only [StreamConsumer.leave] at hs
    split at hs
    · cases hs
      exact ⟨⟨_, rfl⟩, fun he => absurd rfl he⟩
    · cases hs

theorem Ok.leave {empty done : Bool} {l : ConsumeLabel} (h : k.Ok taken)
    (hs : k.leave empty done l = some k') : k'.Ok taken := by
  obtain ⟨⟨pc, rfl⟩, hpc⟩ := leave_spec hs
  exact ⟨h.sourced, fun he => h.notFinal (hpc he)⟩

theorem notFinal_onFrame {frame : StreamFrame π} {stop : Bool} (hreading : k.reading = true)
    (h : k.pc ≠ .returned false → ∀ f ∈ k.passed, f.final = false)
    (hpc : (k.onFrame frame stop).pc ≠ .returned false) :
    ∀ f ∈ (k.onFrame frame stop).passed, f.final = false := by
  intro f hf
  have hopen : frame.final = false := by
    by_contra hfinal
    exact hpc (by rw [onFrame, eq_true_of_ne_false hfinal]; rfl)
  obtain hf | hf := List.mem_append.mp hf
  · refine h (fun he => ?_) f hf
    rw [reading, he] at hreading
    cases hreading
  · exact List.mem_singleton.mp hf ▸ hopen

end StreamConsumer

namespace StreamLink
variable {s t : StreamLink π} {d : Nat} {k : StreamConsumer π} {call : Call π}

structure Inv (s : StreamLink π) : Prop where
  carried : s.conn.Carried s.up
  length : s.consumers.length = s.conn.calls.length
  consumers : ∀ (d : Nat) (k : StreamConsumer π), s.consumers[d]? = some (some k) →
    ∃ call, s.conn.calls[d]? = some call ∧ call.kind = .stream (streamReliable k.method) ∧
      k.Ok (call.taken.map Reply.frame)

theorem takeFrame_eq_some {frame : StreamFrame π} {c' : AgentConn π}
    (hcall : s.conn.calls[d]? = some call) (h : s.takeFrame d call = some (frame, c')) :
    ∃ r frames, frame = r.frame ∧ s.conn.step (.call d .take) = some (c', none) ∧
      c' = s.conn.setCall d { call with frames := frames, taken := call.taken ++ [r] } := by
  unfold takeFrame at h
  split at h
  · next hpc =>
    obtain ⟨r, hr, h⟩ := Option.bind_eq_some_iff.mp h
    obtain ⟨⟨c₁, out⟩, hstep, h⟩ := Option.bind_eq_some_iff.mp h
    cases h
    obtain ⟨frames, hframes⟩ := List.head?_eq_some_iff.mp hr
    have heq : s.conn.step (.call d .take) =
        some (s.conn.setCall d { call with frames := frames, taken := call.taken ++ [r] }, none) := by
      simp [AgentConn.step, AgentConn.stepCall, hcall, hpc, hframes]
    cases heq.symm.trans hstep
    exact ⟨r, frames, rfl, heq, rfl⟩
  · cases h

structure Moved (s t : StreamLink π) (d : Nat) (k k' : StreamConsumer π) : Prop where
  before : s.consumers[d]? = some (some k)
  after : t.consumers = s.consumers.set d (some k')
  method : k'.method = k.method
  up : t.up = s.up
  conn : (t.conn = s.conn ∧ ∀ taken, k.Ok taken → k'.Ok taken) ∨
    ∃ call frame, s.conn.calls[d]? = some call ∧ s.takeFrame d call = some (frame, t.conn) ∧
      ∀ taken, k.Ok taken → k'.Ok (taken ++ [frame])

theorem leave_moved {empty done : Bool} {l : ConsumeLabel} {k' : StreamConsumer π}
    (hk : s.consumers[d]? = some (some k)) (hs : k.leave empty done l = some k') : s.Moved (s.setConsumer d k') d k k' := by
  refine ⟨hk, rfl, ?_, rfl, .inl ⟨rfl, fun _ hok => hok.leave hs⟩⟩
  obtain ⟨⟨pc, rfl⟩, -⟩ := StreamConsumer.leave_spec hs
  rfl

theorem consumeLocal_moved {l : ConsumeLabel} (hk : s.consumers[d]? = some (some k))
    (hcall : s.conn.calls[d]? = some call) (hrelay : k.relay = none)
    (h : s.consumeLocal d k call l = some t) : ∃ k', s.Moved t d k k' := by
  cases l with
  | frame stop =>
    simp only [consumeLocal] at h
    split at h
    · next hreading =>
      obtain ⟨⟨frame, c'⟩, htake, rfl⟩ := Option.map_eq_some_iff.mp h
      refine ⟨k.onFrame frame stop, hk, rfl, rfl, rfl, .inr ⟨call, frame, hcall, htake, fun taken hok => ?_⟩⟩
      refine ⟨?_, StreamConsumer.notFinal_onFrame hreading hok.notFinal⟩
      have hsourced := hok.sourced
      rw [StreamConsumer.Sourced, hrelay] at hsourced
      rw [StreamConsumer.Sourced, StreamConsumer.onFrame, hrelay]
      exact congrArg (· ++ [frame]) hsourced
    · cases h
  | done | abort | ctxDone =>
    simp only [consumeLocal] at h
    split at h
    · obtain ⟨k', hleave, rfl⟩ := Option.map_eq_some_iff.mp h
      exact ⟨k', leave_moved hk hleave⟩
    · cases h

theorem consumeRelayed_moved {l : ConsumeLabel} {relay : StreamRelay π}
    (hk : s.consumers[d]? = some (some k))
    (hrelay : k.relay = some relay) (h : s.consumeRelayed d k relay l = some t) :
    ∃ k', s.Moved t d k k' := by
  cases l with
  | frame stop =>
    simp only [consumeRelayed] at h
    split at h
    · next frame frames hframes =>
      split at h
      · next hreading =>
        cases h
        refine ⟨_, hk, rfl, rfl, rfl, .inl ⟨rfl, fun taken hok => ?_⟩⟩
        refine ⟨?_, StreamConsumer.notFinal_onFrame hreading hok.notFinal⟩
        have hsourced := hok.sourced
        rw [StreamConsumer.Sourced, hrelay] at hsourced
        exact StreamRelay.Ok.consume hsourced hframes
      · cases h
    · cases h
  | done | abort | ctxDone =>
    obtain ⟨k', hleave, rfl⟩ := Option.map_eq_some_iff.mp h
    exact ⟨k', leave_moved hk hleave⟩

theorem setRelay_moved {relay relay' : StreamRelay π} (hk : s.consumers[d]? = some (some k))
    (hrelay : k.relay = some relay)
    (hok : ∀ passed taken, relay.Ok passed taken → relay'.Ok passed taken) :
    ∃ k', s.Moved (s.setRelay d k relay') d k k' := by
  refine ⟨_, hk, rfl, rfl, rfl, .inl ⟨rfl, fun taken h => ⟨?_, h.notFinal⟩⟩⟩
  have hsourced := h.sourced
  rw [StreamConsumer.Sourced, hrelay] at hsourced
  exact hok k.passed taken hsourced

theorem serve_moved {l : RelayServerLabel} {relay : StreamRelay π}
    (hk : s.consumers[d]? = some (some k)) (hcall : s.conn.calls[d]? = some call)
    (hrelay : k.relay = some relay) (h : s.serve d k relay call l = some t) :
    ∃ k', s.Moved t d k k' := by
  cases l with
  | frame =>
    obtain ⟨⟨frame, c'⟩, htake, h⟩ := Option.bind_eq_some_iff.mp h
    obtain ⟨relay', hrelay', h⟩ := Option.bind_eq_some_iff.mp h
    cases h
    refine ⟨_, hk, rfl, rfl, rfl, .inr ⟨call, frame, hcall, htake, fun taken hok => ⟨?_, hok.notFinal⟩⟩⟩
    have hsourced := hok.sourced
    rw [StreamConsumer.Sourced, hrelay] at hsourced
    exact StreamRelay.Ok.take hsourced hrelay'
  | sent | done | abort | ctxDone =>
    simp only [serve] at h
    split at h
    · obtain ⟨relay', hstep, rfl⟩ := Option.map_eq_some_iff.mp h
      exact setRelay_moved hk hrelay fun _ _ hok => hok.stepServer hstep
    · cases h

theorem Moved.others {k' x : StreamConsumer π} {e : Nat} (h : s.Moved t d k k')
    (hx : t.consumers[e]? = some (some x)) :
    e = d ∧ x = k' ∨ e ≠ d ∧ s.consumers[e]? = some (some x) := by
  have hlt : d < s.consumers.length := (List.getElem?_eq_some_iff.mp h.before).1
  rw [h.after] at hx
  by_cases he : e = d
  · rw [he, List.getElem?_set_self hlt] at hx
    exact .inl ⟨he, (Option.some.inj (Option.some.inj hx)).symm⟩
  · rw [List.getElem?_set_ne (Ne.symm he)] at hx
    exact .inr ⟨he, hx⟩

theorem Moved.inv {k' : StreamConsumer π} (hi : s.Inv) (h : s.Moved t d k k') : t.Inv := by
  obtain ⟨call, hcall, hkind, hok⟩ := hi.consumers d k h.before
  obtain ⟨hconn, hkeep⟩ | ⟨_, frame, hcall', htake, hkeep⟩ := h.conn
  · refine ⟨?_, ?_, fun e x hx => ?_⟩
    · rw [hconn, h.up]
      exact hi.carried
    · rw [h.after, hconn, List.length_set]
      exact hi.length
    · rw [hconn]
      obtain ⟨rfl, rfl⟩ | ⟨-, hx⟩ := h.others hx
      · exact ⟨call, hcall, h.method ▸ hkind, hkeep _ hok⟩
      · exact hi.consumers e x hx
  · obtain rfl := Option.some.inj (hcall.symm.trans hcall')
    obtain ⟨r, frames, rfl, hstep, hc'⟩ := takeFrame_eq_some hcall htake
    refine ⟨?_, ?_, fun e x hx => ?_⟩
    · rw [h.up]
      exact hi.carried.step (l := .call d .take) rfl (fun hc => absurd hc Bool.false_ne_true) hstep
    · rw [h.after, hc', List.length_set]
      exact hi.length.trans (List.length_set ..).symm
    · rw [hc']
      obtain ⟨rfl, rfl⟩ | ⟨he, hx⟩ := h.others hx
      · refine ⟨_, AgentConn.getElem?_setCall hcall, h.method ▸ hkind, ?_⟩
        rw [List.map_append]
        exact hkeep _ hok
      · rw [AgentConn.getElem?_setCall_of_ne he]
        exact hi.consumers e x hx

/-! ### Every step -/

theorem conn_consumers {l : ConnLabel π} {c' : AgentConn π} {out : Option Command} (hi : s.Inv)
    (hl : ∀ call, s.conn.calls[d]? = some call → call.kind.isStream = true → l ≠ .call d .take)
    (h : s.conn.step l = some (c', out)) (hk : s.consumers[d]? = some (some k)) :
    ∃ call, c'.calls[d]? = some call ∧ call.kind = .stream (streamReliable k.method) ∧
      k.Ok (call.taken.map Reply.frame) := by
  obtain ⟨call, hcall, hkind, hok⟩ := hi.consumers d k hk
  have hv : s.conn.view s.conn.own d = some _ := AgentConn.view_eq hcall
  obtain hsame | ⟨v, v', o, hv', hw, hstep, hlabel⟩ | ⟨kind, hnone, -⟩ :=
    AgentConn.step_view hi.carried.allOk.known hi.carried.numbered (AgentConn.step_cases h) d
  · exact ⟨call, AgentConn.view_call (hsame.trans hv), hkind, hok⟩
  · obtain rfl := Option.some.inj (hcall.symm.trans (AgentConn.view_call hv'))
    refine ⟨v'.call, AgentConn.view_call hw, hstep.kind_eq.trans hkind, ?_⟩
    have ho : o ≠ some .take := fun ho =>
      hl v.call hcall (by rw [hkind]; rfl) (hlabel .take ho)
    rwa [hstep.taken_eq ho]
  · exact absurd (hnone.symm.trans hv) (Option.some_ne_none _).symm

theorem Inv.conn {l : ConnLabel π} {c' : AgentConn π} {out : Option Command} (hi : s.Inv)
    (hseq : AgentConn.Counts l = true → s.conn.seq + 1 < UInt64.size) (hl : s.leaves l = true)
    (hstart : ∀ kind, l ≠ .start kind) (h : s.conn.step l = some (c', out)) :
    ({ s with conn := c' } : StreamLink π).Inv := by
  have hin : AgentConn.incoming l = none := by
    cases l with
    | receive r => cases hl
    | start | call | put | drop | closeAll | closeDone => rfl
  refine ⟨hi.carried.step hin hseq h, hi.length.trans (AgentConn.step_length hstart h).symm,
    fun d k hk => conn_consumers hi (fun call hcall hkind he => ?_) h hk⟩
  subst he
  rw [leaves, hcall, Option.all_some, hkind] at hl
  cases hl

theorem Inv.start {kind : CallKind} {c' : AgentConn π} {out : Option Command}
    {k? : Option (StreamConsumer π)} (hi : s.Inv) (hseq : s.conn.seq + 1 < UInt64.size)
    (hk? : ∀ k, k? = some k → kind = .stream (streamReliable k.method) ∧ k.Ok [])
    (h : s.conn.step (.start kind) = some (c', out)) :
    ({ s with conn := c', consumers := s.consumers ++ [k?] } : StreamLink π).Inv := by
  have hcarried := hi.carried.step (l := .start kind) rfl (fun _ => hseq) h
  cases h
  refine ⟨hcarried, ?_, fun d k hk => ?_⟩
  · simp [hi.length]
  · obtain hold | ⟨rfl, hnew⟩ := List.getElem?_of_concat hk
    · obtain ⟨call, hcall, hrest⟩ := hi.consumers d k hold
      exact ⟨call, List.getElem?_append_of hcall _, hrest⟩
    · rw [hi.length]
      obtain ⟨hkind, hok⟩ := hk? k hnew.symm
      exact ⟨_, List.getElem?_concat_length .., hkind, hok⟩

theorem Inv.receive {r : Reply π} {up' : Fifo (Reply π)} {c' : AgentConn π}
    {out : Option Command} (hi : s.Inv) (hpop : s.up.pop? = some (r, up'))
    (h : s.conn.step (.receive r) = some (c', out)) :
    ({ s with up := up', conn := c' } : StreamLink π).Inv := by
  have hlength := AgentConn.step_length (l := .receive r) (fun _ he => by cases he) h
  have hconsumers := fun (d : Nat) (k : StreamConsumer π) =>
    conn_consumers (d := d) (k := k) (l := .receive r) hi (fun _ _ _ he => by cases he) h
  simp only [AgentConn.step] at h
  split at h
  · next hidle =>
    cases h
    exact ⟨hi.carried.receive hidle hpop, hi.length.trans hlength.symm, hconsumers⟩
  · cases h

theorem Inv.reply {r : Reply π} (hi : s.Inv) (h : s.asked r.requestId = true) :
    ({ s with up := s.up.push r } : StreamLink π).Inv := by
  refine ⟨hi.carried.sent (s.up.received_push r) fun r' hr' => ?_, hi.length, hi.consumers⟩
  obtain hr' | rfl := Fifo.mem_sent_of_push hr'
  · exact hi.carried.asked r' hr'
  · obtain ⟨call, hmem, hcall⟩ := List.any_eq_true.mp h
    obtain ⟨d, hd⟩ := List.mem_iff_getElem?.mp hmem
    rw [Bool.and_eq_true, decide_eq_true_iff, bne_iff_ne] at hcall
    exact ⟨d, call, hd, hcall⟩

inductive Step (s : StreamLink π) : StreamLabel π → StreamLink π → Prop
  | conn (l : ConnLabel π) (c' : AgentConn π) (out : Option Command) (hl : s.leaves l = true)
      (hstart : ∀ kind, l ≠ .start kind) (h : s.conn.step l = some (c', out)) :
      Step s (.conn l) { s with conn := c' }
  | start (l : StreamLabel π) (kind : CallKind) (c' : AgentConn π) (out : Option Command)
      (k? : Option (StreamConsumer π)) (hl : numbers l = true)
      (hk? : ∀ k, k? = some k → kind = .stream (streamReliable k.method) ∧ k.Ok [])
      (h : s.conn.step (.start kind) = some (c', out)) :
      Step s l { s with conn := c', consumers := s.consumers ++ [k?] }
  | reply (r : Reply π) (h : s.asked r.requestId = true) :
      Step s (.reply r) { s with up := s.up.push r }
  | receive (r : Reply π) (up' : Fifo (Reply π)) (c' : AgentConn π) (out : Option Command)
      (hpop : s.up.pop? = some (r, up')) (h : s.conn.step (.receive r) = some (c', out)) :
      Step s .receive { s with up := up', conn := c' }
  | broken : Step s .broken { s with up := s.up.fail }
  | moved (l : StreamLabel π) (t : StreamLink π) (d : Nat) (k k' : StreamConsumer π)
      (hl : numbers l = false) (h : s.Moved t d k k') : Step s l t

theorem step_cases {l : StreamLabel π} (h : s.step l = some t) : Step s l t := by
  cases l with
  | conn l =>
    simp only [step] at h
    split at h
    · next hl =>
      obtain ⟨⟨c', out⟩, hstep, rfl⟩ := Option.map_eq_some_iff.mp h
      cases l with
      | start kind => exact .start _ kind c' out none rfl (fun _ hk => by cases hk) hstep
      | call | receive | put | drop | closeAll | closeDone =>
        exact .conn _ c' out hl (fun _ he => by cases he) hstep
    · cases h
  | dispatchStream method relayed =>
    simp only [step] at h
    obtain ⟨⟨c', out⟩, hstep, rfl⟩ := Option.map_eq_some_iff.mp h
    refine .start _ _ c' out _ rfl (fun k hk => ?_) hstep
    cases hk
    refine ⟨rfl, ?_, fun _ f hf => by cases hf⟩
    cases relayed with
    | false => exact rfl
    | true => exact .init
  | reply r =>
    simp only [step] at h
    split at h
    · next hasked =>
      cases h
      exact .reply r hasked
    · cases h
  | receive =>
    obtain ⟨⟨r, up'⟩, hpop, h⟩ := Option.bind_eq_some_iff.mp h
    obtain ⟨⟨c', out⟩, hstep, h⟩ := Option.bind_eq_some_iff.mp h
    cases h
    exact .receive r up' c' out hpop hstep
  | broken =>
    cases h
    exact .broken
  | consume d l =>
    obtain ⟨k, hk, h⟩ := Option.bind_eq_some_iff.mp h
    obtain ⟨call, hcall, h⟩ := Option.bind_eq_some_iff.mp h
    have hk := Option.join_eq_some_iff.mp hk
    split at h
    · next hrelay =>
      obtain ⟨k', hmoved⟩ := consumeLocal_moved hk hcall hrelay h
      exact .moved _ _ d k k' rfl hmoved
    · next relay hrelay =>
      obtain ⟨k', hmoved⟩ := consumeRelayed_moved hk hrelay h
      exact .moved _ _ d k k' rfl hmoved
  | server d l =>
    obtain ⟨k, hk, h⟩ := Option.bind_eq_some_iff.mp h
    obtain ⟨relay, hrelay, h⟩ := Option.bind_eq_some_iff.mp h
    obtain ⟨call, hcall, h⟩ := Option.bind_eq_some_iff.mp h
    obtain ⟨k', hmoved⟩ := serve_moved (Option.join_eq_some_iff.mp hk) hcall hrelay h
    exact .moved _ _ d k k' rfl hmoved
  | client d l =>
    obtain ⟨k, hk, h⟩ := Option.bind_eq_some_iff.mp h
    obtain ⟨relay, hrelay, h⟩ := Option.bind_eq_some_iff.mp h
    obtain ⟨relay', hstep, rfl⟩ := Option.map_eq_some_iff.mp h
    obtain ⟨k', hmoved⟩ := setRelay_moved (Option.join_eq_some_iff.mp hk) hrelay
      fun _ _ hok => hok.stepClient hstep
    exact .moved _ _ d k k' rfl hmoved

theorem step_inv {l : StreamLabel π} (hi : s.Inv)
    (hseq : numbers l = true → s.conn.seq + 1 < UInt64.size) (h : s.step l = some t) : t.Inv := by
  replace h := step_cases h
  cases h with
  | conn l c' out hl hstart h => exact hi.conn hseq hl hstart h
  | start l kind c' out k? hl hk? h => exact hi.start (hseq hl) hk? h
  | reply r h => exact hi.reply h
  | receive r up' c' out hpop h => exact hi.receive hpop h
  | broken => exact ⟨hi.carried.sent rfl hi.carried.asked, hi.length, hi.consumers⟩
  | moved l t d k k' hl h => exact h.inv hi

theorem step_seq {l : StreamLabel π} (h : s.step l = some t) :
    t.conn.seq ≤ s.conn.seq + if numbers l then 1 else 0 := by
  replace h := step_cases h
  cases h with
  | conn l c' out hl hstart h => exact AgentConn.step_seq_le h
  | start l kind c' out k? hl hk? h =>
    rw [if_pos hl]
    exact AgentConn.step_seq_le (l := .start kind) h
  | reply | broken => exact Nat.le_add_right _ _
  | receive r up' c' out hpop h => exact AgentConn.step_seq_le (l := .receive r) h
  | moved l t d k k' hl h =>
    refine Nat.le_add_right_of_le ?_
    obtain ⟨hconn, -⟩ | ⟨call, frame, hcall, htake, -⟩ := h.conn
    · exact hconn ▸ Nat.le_refl _
    · obtain ⟨r, frames, -, -, hc'⟩ := takeFrame_eq_some hcall htake
      exact hc' ▸ Nat.le_refl _

theorem init_inv (agentId : String) : (init agentId : StreamLink π).Inv where
  carried := {
    allOk := (SharedConn.init_inv agentId).allOk.live AgentConn.live_idle.symm
    numbered := AgentConn.init_numbered agentId
    asked := fun _ h => by cases h
    lossless := fun _ _ h => by cases h }
  length := rfl
  consumers := fun _ _ h => by cases h

theorem inv_of_run {agentId : String} {ls : List (StreamLabel π)}
    (h : Lts.AnyRun step (init agentId) ls s) (hseq : ls.countP numbers < UInt64.size) :
    s.Inv :=
  h.invariant_below (fun _ _ _ hi hl hs => step_inv hi hl hs) (fun _ _ _ _ hs => step_seq hs)
    (init_inv agentId) rfl hseq

theorem Inv.passed_isPrefix (hi : s.Inv) (hk : s.consumers[d]? = some (some k))
    (hcall : s.conn.calls[d]? = some call) (hreliable : streamReliable k.method = true) :
    k.passed <+: s.sentFor call.requestId := by
  obtain ⟨call', hcall', hkind, hok⟩ := hi.consumers d k hk
  obtain rfl : call' = call := Option.some.inj (hcall'.symm.trans hcall)
  rw [hreliable] at hkind
  have hl := hi.carried.lossless d _ (AgentConn.view_eq hcall) hkind
  obtain ⟨rs, -, hfollows⟩ := hl.follows
  have htaken : call'.taken <+: AgentConn.receivedFor s.up call'.requestId := by
    refine List.IsPrefix.trans ?_ hfollows.1
    rw [List.append_assoc]
    exact List.prefix_append _ _
  have hreceived : AgentConn.receivedFor s.up call'.requestId <+:
      s.up.sent.filter (·.requestId = call'.requestId) := s.up.received_isPrefix.filter _
  exact hok.passed_isPrefix.trans ((htaken.trans hreceived).map Reply.frame)

/-- Whatever a reliable stream passes to `onFrame` is the start of what the agent sent for it, and
`onAbort` is only called for a stream whose final frame was not passed. -/
theorem passed_isPrefix_of_run {agentId : String} {ls : List (StreamLabel π)}
    (h : Lts.AnyRun step (init agentId) ls s) (hseq : ls.countP numbers < UInt64.size)
    (hk : s.consumers[d]? = some (some k)) (hcall : s.conn.calls[d]? = some call)
    (hreliable : streamReliable k.method = true) :
    k.passed <+: s.sentFor call.requestId ∧
      (k.pc = .returned true → ∀ f ∈ k.passed, f.final = false) := by
  have hi := inv_of_run h hseq
  refine ⟨hi.passed_isPrefix hk hcall hreliable, fun hpc => ?_⟩
  obtain ⟨_, -, -, hok⟩ := hi.consumers d k hk
  exact hok.notFinal (by rw [hpc]; exact fun he => by cases he)

def lostAgent : List (StreamLabel Nat) := [.dispatchStream "fs.read" true,
  .conn (.call 0 .register), .conn (.call 0 (.send none)), .reply (.progress "1" 7), .receive,
  .conn .put, .server 0 .frame, .server 0 (.sent true), .reply (.progress "1" 8), .receive,
  .client 0 .recv, .conn .closeAll, .conn .put, .conn (.closeDone 0), .server 0 .done,
  .server 0 .frame, .client 0 .put, .consume 0 (.frame false), .server 0 (.sent true),
  .server 0 .abort, .client 0 .recv, .client 0 .put, .client 0 .recvErr, .consume 0 .done,
  .consume 0 (.frame false), .consume 0 .abort]

theorem passed_isPrefix_of_run_lostAgent : ∃ (s : StreamLink Nat) (k : StreamConsumer Nat)
    (call : Call Nat), s.consumers[0]? = some (some k) ∧ s.conn.calls[0]? = some call ∧
      k.passed = [⟨7, false⟩, ⟨8, false⟩] ∧ k.pc = .returned true ∧
      k.passed <+: s.sentFor call.requestId ∧
      (k.pc = .returned true → ∀ f ∈ k.passed, f.final = false) := by
  let s := (Lts.exec step (init "a") lostAgent).get (by decide +kernel)
  have hrun := Lts.anyRun_of_exec (t := s) (Option.some_get _).symm
  have hk : ((s.consumers[0]?).join).isSome = true := by decide +kernel
  have hcall : (s.conn.calls[0]?).isSome = true := by decide +kernel
  have hpassed : ((s.consumers[0]?).join).all (fun k => streamReliable k.method &&
      k.passed = [⟨7, false⟩, ⟨8, false⟩] && k.pc = .returned true) = true := by decide +kernel
  obtain ⟨k, hk⟩ := Option.isSome_iff_exists.mp hk
  obtain ⟨call, hcall⟩ := Option.isSome_iff_exists.mp hcall
  rw [hk, Option.all_some, Bool.and_eq_true, Bool.and_eq_true, decide_eq_true_iff,
    decide_eq_true_iff] at hpassed
  have hk := Option.join_eq_some_iff.mp hk
  exact ⟨s, k, call, hk, hcall, hpassed.1.2, hpassed.2,
    passed_isPrefix_of_run hrun (by decide) hk hcall hpassed.1.1⟩

end StreamLink
end Hostlink.Controller
