import Hostlink.Link.UploadSteps

/-! A file that an upload reports as written holds the body of that upload. -/

namespace Hostlink
open Controller (AgentConn Reply Command Call CallKind ConnLabel CallLabel BodySender BodyLabel)
open Agent (Bytes UploadChunk Inbound InboundLabel UploadHandler)

def Known (c : AgentConn Nat) (cmds : List UploadCommand) : Prop :=
  ∀ cmd ∈ cmds, ∀ id, cmd.names id = true → ∃ (d : Nat) (call : Call Nat),
    c.calls[d]? = some call ∧ call.requestId = id ∧ call.pc.sent = true

theorem Known.names_eq_false {c : AgentConn Nat} {cmds : List UploadCommand} {d : Nat}
    {call : Call Nat} (h : Known c cmds) (hn : c.Numbered) (hcall : c.calls[d]? = some call)
    (hpc : call.pc.sent = false) : ∀ cmd ∈ cmds, cmd.names call.requestId = false := by
  intro cmd hcmd
  by_contra hnames
  obtain ⟨e, other, hother, hid, hsent⟩ := h cmd hcmd _ (eq_true_of_ne_false hnames)
  obtain rfl : d = e := AgentConn.HasId.inj hn (AgentConn.hasId_of_call hcall)
    (hid ▸ AgentConn.hasId_of_call hother)
  obtain rfl := Option.some.inj (hcall.symm.trans hother)
  exact absurd (hpc.symm.trans hsent) Bool.false_ne_true

namespace UploadLink
variable {s t : UploadLink} {d : Nat} {u : UploadSender} {call : Call Nat}

def Answers (s : UploadLink) (r : Reply Nat) : Prop :=
  (∃ id code, r = .result id code ∧ s.agent.Finished id code) ∨
    ∃ (d : Nat) (call : Call Nat), s.conn.calls[d]? = some call ∧ call.requestId = r.requestId ∧
      call.kind ≠ .upload

structure StreamsOk (s : UploadLink) : Prop where
  conn : s.conn.Sourced s.up
  known : Known s.conn s.down.sent
  opened : Opened s.down.sent
  routed : s.agent.Routed (chunksFor s.down.received)
  handlers : ∀ id ∈ s.agent.ids, .opening id ∈ s.down.received
  answers : ∀ r ∈ s.up.sent, s.Answers r

def SenderOk (s : UploadLink) (d : Nat) (u : UploadSender) : Prop :=
  ∃ call, s.conn.calls[d]? = some call ∧ call.kind = .upload ∧
    u.Ok (chunksFor s.down.sent call.requestId) (!s.down.failed) ∧
    ∀ r, u.Holds r → r ∈ s.up.sent ∧ r.requestId = call.requestId

structure Inv (s : UploadLink) : Prop where
  streams : s.StreamsOk
  length : s.senders.length = s.conn.calls.length
  senders : ∀ (d : Nat) (u : UploadSender), s.senders[d]? = some (some u) → s.SenderOk d u

/-! ### Sending a command -/

section Push
variable {down : Fifo UploadCommand} {cmd : UploadCommand}

theorem opened_push (h : Opened down.sent)
    (hnew : ∀ id, cmd = .opening id → ∀ x ∈ down.sent, x.names id = false) :
    Opened (down.push cmd).sent := by
  rw [Fifo.sent_push]
  split
  · rwa [List.append_nil]
  · exact h.concat hnew

theorem chunksFor_push (id : String) : chunksFor (down.push cmd).sent id =
    chunksFor down.sent id ++ if !down.failed then (cmd.chunkFor id).toList else [] := by
  rw [Fifo.sent_push]
  cases down.failed with
  | true => exact congrArg (chunksFor · id) (List.append_nil _) |>.trans (List.append_nil _).symm
  | false => exact chunksFor_concat down.sent cmd id

theorem chunksFor_push_of_none {id : String} (h : cmd.chunkFor id = none) :
    chunksFor (down.push cmd).sent id = chunksFor down.sent id := by
  rw [chunksFor_push, h]
  cases down.failed <;> exact List.append_nil _

end Push

/-! ### Steps of the connection -/

def sendDown (down : Fifo UploadCommand) : Option Command → Fifo UploadCommand
  | some cmd => down.push (toCommand cmd)
  | none => down

theorem connStep_eq_some {l : ConnLabel Nat} (h : s.connStep l = some t) :
    ∃ c' out, s.conn.step l = some (c', out) ∧
      t = { s with conn := c', down := sendDown s.down out } := by
  obtain ⟨⟨c', out⟩, hstep, rfl⟩ := Option.map_eq_some_iff.mp h
  refine ⟨c', out, hstep, ?_⟩
  cases out <;> rfl

theorem conn_sends {c c' : AgentConn Nat} {l : ConnLabel Nat} {out : Option Command}
    (hl : ∀ d last err, l ≠ .call d (.chunk last err)) (h : c.step l = some (c', out)) :
    out = none ∨ ∃ cmd, out = some cmd ∧ (toCommand cmd = .other ∨
      ∃ (d : Nat) (call call' : Call Nat), toCommand cmd = .opening call.requestId ∧
        c.calls[d]? = some call ∧ call.pc = .send ∧ c'.calls[d]? = some call' ∧
        call'.requestId = call.requestId ∧ call'.pc.sent = true) := by
  replace h := AgentConn.step_cases h
  cases h with
  | start | delivery | closeAll | closeDone => exact .inl rfl
  | call d call l c' out hcall h =>
    cases h with
    | sent err hpc =>
      cases err with
      | some err => exact .inl rfl
      | none =>
        refine .inr ⟨_, rfl, ?_⟩
        cases hkind : call.kind with
        | upload =>
          refine .inr ⟨d, call, _, rfl, hcall, hpc, AgentConn.getElem?_setCall hcall, rfl, ?_⟩
          simp only [Call.afterSend, hkind]
          rfl
        | unary | stream => exact .inl rfl
    | chunk last err hpc => exact absurd rfl (hl d last err)
    | cancelSent failed err hpc =>
      cases err with
      | some err => exact .inl rfl
      | none => exact .inr ⟨_, rfl, .inl rfl⟩
    | refused | registered | registeredStream | await | ctxDone | tookResult | tookClosed | tookFrame
    | unregistered | cancelLive | cancelGone | cancelClosed => exact .inl rfl

section ConnStep
variable {l : ConnLabel Nat} {c' : AgentConn Nat} {out : Option Command}

theorem StreamsOk.known_step (hi : s.StreamsOk) (h : s.conn.step l = some (c', out)) :
    Known c' s.down.sent := by
  intro cmd hcmd id hid
  obtain ⟨d, call, hcall, hcid, hpc⟩ := hi.known cmd hcmd id hid
  obtain ⟨call', hcall', -, hid', -, hpc'⟩ := hi.conn.allOk.call_step hi.conn.numbered h hcall
  exact ⟨d, call', hcall', hid'.trans hcid, hpc' hpc⟩

theorem StreamsOk.answers_step (hi : s.StreamsOk) (h : s.conn.step l = some (c', out))
    (down : Fifo UploadCommand) :
    ∀ r ∈ s.up.sent, ({ s with conn := c', down := down } : UploadLink).Answers r := by
  intro r hr
  obtain hr | ⟨d, call, hcall, hid, hkind⟩ := hi.answers r hr
  · exact .inl hr
  · obtain ⟨call', hcall', hkind', hid', -⟩ := hi.conn.allOk.call_step hi.conn.numbered h hcall
    exact .inr ⟨d, call', hcall', hid'.trans hid, hkind' ▸ hkind⟩

theorem StreamsOk.connStep (hi : s.StreamsOk) (hl : ∀ d last err, l ≠ .call d (.chunk last err))
    (hin : ∀ r, AgentConn.incoming l = some r → r ∈ s.up.sent)
    (hseq : AgentConn.Counts l = true → s.conn.seq + 1 < UInt64.size)
    (h : s.conn.step l = some (c', out)) :
    ({ s with conn := c', down := sendDown s.down out } : UploadLink).StreamsOk := by
  have hconn := hi.conn.step hin hseq h
  have hknown := hi.known_step h
  have hanswers := hi.answers_step h (sendDown s.down out)
  obtain rfl | ⟨cmd, rfl, hcmd⟩ := conn_sends hl h
  · exact ⟨hconn, hknown, hi.opened, hi.routed, hi.handlers, hanswers⟩
  · have hreceived := s.down.received_push (toCommand cmd)
    refine ⟨hconn, fun x hx id hid => ?_, opened_push hi.opened fun id hid => ?_, ?_, ?_, hanswers⟩
    · obtain hx | rfl := Fifo.mem_sent_of_push hx
      · exact hknown x hx id hid
      · obtain hcmd | ⟨d, call, call', hcmd, -, -, hcall', hid', hpc'⟩ := hcmd
        · rw [hcmd] at hid
          cases hid
        · rw [hcmd] at hid
          exact ⟨d, call', hcall', hid'.trans (of_decide_eq_true hid), hpc'⟩
    · obtain hcmd | ⟨d, call, call', hcmd, hcall, hpc, -⟩ := hcmd
      · cases hcmd.symm.trans hid
      · cases hcmd.symm.trans hid
        exact hi.known.names_eq_false hi.conn.numbered hcall (by rw [hpc]; rfl)
    · show s.agent.Routed (chunksFor (s.down.push (toCommand cmd)).received)
      rw [hreceived]
      exact hi.routed
    · show ∀ id ∈ s.agent.ids, _ ∈ (s.down.push (toCommand cmd)).received
      rw [hreceived]
      exact hi.handlers

theorem toCommand_chunkFor (cmd : Command) (id : String) : (toCommand cmd).chunkFor id = none := by
  cases cmd with
  | request id' kind d => cases kind <;> rfl
  | chunk | cancel => rfl

theorem SenderOk.connStep (hi : s.StreamsOk) (hu : s.SenderOk d u)
    (h : s.conn.step l = some (c', out)) :
    ({ s with conn := c', down := sendDown s.down out } : UploadLink).SenderOk d u := by
  obtain ⟨call, hcall, hkind, hok, hholds⟩ := hu
  obtain ⟨call', hcall', hkind', hid', -⟩ := hi.conn.allOk.call_step hi.conn.numbered h hcall
  refine ⟨call', hcall', hkind'.trans hkind, ?_, hid'.symm ▸ hholds⟩
  rw [hid']
  cases out with
  | none => exact hok
  | some cmd =>
    show u.Ok (chunksFor (s.down.push (toCommand cmd)).sent _) (!(s.down.push (toCommand cmd)).failed)
    rwa [chunksFor_push_of_none (toCommand_chunkFor cmd _), Fifo.failed_push]

end ConnStep

theorem Inv.connStep {l : ConnLabel Nat} (hi : s.Inv)
    (hl : ∀ d last err, l ≠ .call d (.chunk last err)) (hstart : ∀ kind, l ≠ .start kind)
    (hin : ∀ r, AgentConn.incoming l = some r → r ∈ s.up.sent)
    (hseq : AgentConn.Counts l = true → s.conn.seq + 1 < UInt64.size)
    (h : s.connStep l = some t) : t.Inv := by
  obtain ⟨c', out, hstep, rfl⟩ := connStep_eq_some h
  exact ⟨hi.streams.connStep hl hin hseq hstep,
    hi.length.trans (AgentConn.step_length hstart hstep).symm,
    fun d u hu => (hi.senders d u hu).connStep hi.streams hstep⟩

theorem Inv.start {kind : CallKind} {u? : Option UploadSender} (hi : s.Inv)
    (hseq : s.conn.seq + 1 < UInt64.size)
    (hu? : ∀ u, u? = some u → kind = .upload ∧ (∀ live, u.Ok [] live) ∧ ∀ r, ¬u.Holds r)
    (h : s.connStep (.start kind) = some t) :
    ({ t with senders := t.senders ++ [u?] } : UploadLink).Inv := by
  obtain ⟨c', out, hstep, rfl⟩ := connStep_eq_some h
  have hstreams := hi.streams.connStep (l := .start kind) (fun _ _ _ he => by cases he)
    (fun _ he => by cases he) (fun _ => hseq) hstep
  have hsenders := fun d u hu => (hi.senders d u hu).connStep hi.streams hstep
  cases hstep
  refine ⟨⟨hstreams.1, hstreams.2, hstreams.3, hstreams.4, hstreams.5, hstreams.6⟩, ?_,
    fun d u hu => ?_⟩
  · simp [hi.length]
  · obtain hold | ⟨rfl, hnew⟩ := List.getElem?_of_concat hu
    · exact hsenders d u hold
    · rw [hi.length]
      obtain ⟨hkind, hok, hholds⟩ := hu? u hnew.symm
      have hcall := List.getElem?_concat_length (l := s.conn.calls)
        (a := { kind := kind, id := s.conn.nextSeq })
      refine ⟨_, hcall, hkind, ?_, fun r hr => absurd hr (hholds r)⟩
      -- nothing names the number of a new request
      have hnone : chunksFor s.down.sent (Strconv.formatUint s.conn.nextSeq) = [] :=
        chunksFor_eq_nil (hstreams.known.names_eq_false hstreams.conn.numbered hcall rfl)
      exact hnone ▸ hok _

/-! ### Steps of an upload -/

theorem mem_pushChunk {down : Fifo UploadCommand} {id : String} {chunk? : Option UploadChunk}
    {x : UploadCommand} (h : x ∈ (pushChunk down id chunk?).sent) :
    x ∈ down.sent ∨ ∃ chunk, chunk? = some chunk ∧ x = .chunk id chunk := by
  cases chunk? with
  | none => exact .inl h
  | some chunk => exact (Fifo.mem_sent_of_push h).imp_right fun hx => ⟨chunk, rfl, hx.symm⟩

theorem received_pushChunk (down : Fifo UploadCommand) (id : String) (chunk? : Option UploadChunk) :
    (pushChunk down id chunk?).received = down.received := by
  cases chunk? with
  | none => rfl
  | some chunk => exact down.received_push _

theorem failed_pushChunk (down : Fifo UploadCommand) (id : String) (chunk? : Option UploadChunk) :
    (pushChunk down id chunk?).failed = down.failed := by
  cases chunk? with
  | none => rfl
  | some chunk => exact down.failed_push _

theorem chunksFor_pushChunk_self (down : Fifo UploadCommand) (id : String)
    (chunk? : Option UploadChunk) : chunksFor (pushChunk down id chunk?).sent id =
      chunksFor down.sent id ++ if !down.failed then chunk?.toList else [] := by
  cases chunk? with
  | none => cases down.failed <;> exact (List.append_nil _).symm
  | some chunk => rw [pushChunk, chunksFor_push, UploadCommand.chunkFor, if_pos rfl]

theorem chunksFor_pushChunk_ne (down : Fifo UploadCommand) {id id' : String} (hne : id ≠ id')
    (chunk? : Option UploadChunk) :
    chunksFor (pushChunk down id chunk?).sent id' = chunksFor down.sent id' := by
  cases chunk? with
  | none => rfl
  | some chunk => exact chunksFor_push_of_none (if_neg hne)

theorem Moved.inv {u' : UploadSender} {chunk? : Option UploadChunk} (hi : s.Inv)
    (h : s.Moved t d u u' call chunk?) : t.Inv := by
  obtain ⟨hu, hcall, hsends, rfl, hok, hholds⟩ := h
  have hst := hi.streams
  have hreceived := received_pushChunk s.down call.requestId chunk?
  refine ⟨⟨hst.conn, fun x hx id hid => ?_, ?_, ?_, ?_, hst.answers⟩, ?_, fun e w hw => ?_⟩
  · obtain hx | ⟨chunk, rfl, rfl⟩ := mem_pushChunk hx
    · exact hst.known x hx id hid
    · exact ⟨d, call, hcall, of_decide_eq_true hid, by rw [hsends rfl]; rfl⟩
  · cases chunk? with
    | none => exact hst.opened
    | some chunk => exact opened_push hst.opened fun _ he => by cases he
  · show s.agent.Routed (chunksFor (pushChunk s.down call.requestId chunk?).received)
    rw [hreceived]
    exact hst.routed
  · show ∀ id ∈ s.agent.ids, _ ∈ (pushChunk s.down call.requestId chunk?).received
    rw [hreceived]
    exact hst.handlers
  · exact (List.length_set ..).trans hi.length
  · obtain ⟨hne, hw⟩ | ⟨rfl, heq⟩ := List.getElem?_of_set hw
    · obtain ⟨other, hother, hkind, hwok, hwholds⟩ := hi.senders e w hw
      have hid := AgentConn.requestId_ne hst.conn.numbered hcall hother hne
      refine ⟨other, hother, hkind, ?_, hwholds⟩
      show w.Ok (chunksFor (pushChunk s.down call.requestId chunk?).sent _)
        (!(pushChunk s.down call.requestId chunk?).failed)
      rwa [chunksFor_pushChunk_ne s.down hid.symm, failed_pushChunk]
    · obtain rfl := Option.some.inj heq
      obtain ⟨call', hcall', hkind, huok, huholds⟩ := hi.senders e u hu
      obtain rfl := Option.some.inj (hcall.symm.trans hcall')
      refine ⟨call, hcall, hkind, ?_, fun r hr => ?_⟩
      · show UploadSender.Ok _ (chunksFor (pushChunk s.down call.requestId chunk?).sent _)
          (!(pushChunk s.down call.requestId chunk?).failed)
        rw [chunksFor_pushChunk_self, failed_pushChunk]
        exact hok _ _ huok
      · obtain hr | hr := hholds r hr
        · exact huholds r hr
        -- the result comes from the dispatcher's channel
        · unfold awaited at hr
          split at hr
          · exact hst.conn.taken hcall (by rw [hkind]; rfl) (List.mem_of_head? hr)
          · cases hr

/-! ### Steps of the agent -/

theorem Inv.recv {before : Option Bytes} {exclusive : Bool} {cmd : UploadCommand}
    {down : Fifo UploadCommand} (hi : s.Inv) (hidle : s.agent.routing = none)
    (hpop : s.down.pop? = some (cmd, down)) :
    ({ s with
      down := down
      agent := receiveCommand s.agent before exclusive cmd } : UploadLink).Inv := by
  have hst := hi.streams
  obtain ⟨hopen, hopen', hsent, -, -⟩ := Fifo.pop?_eq_some hpop
  have hreceived := Fifo.received_pop? hpop
  have hchunks : ∀ id, chunksFor down.received id =
      chunksFor s.down.received id ++ (cmd.chunkFor id).toList := fun id => by
    rw [hreceived, chunksFor_concat]
  have hmem : ∀ x ∈ s.down.received, x ∈ down.received := fun x hx =>
    hreceived ▸ List.mem_append_left _ hx
  have hsame : (∀ id, cmd.chunkFor id = none) →
      chunksFor down.received = chunksFor s.down.received := fun hnone => by
    refine funext fun id => (hchunks id).trans ?_
    rw [hnone]
    exact List.append_nil _
  have hsenders : ∀ (d : Nat) (u : UploadSender), s.senders[d]? = some (some u) →
      ({ s with
        down := down
        agent := receiveCommand s.agent before exclusive cmd } : UploadLink).SenderOk d u := by
    intro d u hu
    obtain ⟨call, hcall, hkind, hok, hholds⟩ := hi.senders d u hu
    refine ⟨call, hcall, hkind, ?_, hholds⟩
    show u.Ok (chunksFor down.sent _) (!down.failed)
    rwa [hsent, hopen', ← hopen]
  refine ⟨⟨hst.conn, hsent ▸ hst.known, hsent ▸ hst.opened, ?_, fun id hid => ?_, fun r hr => ?_⟩,
    hi.length, hsenders⟩
  · cases cmd with
    | opening id =>
      obtain ⟨rest, hrest⟩ := Fifo.sent_of_pop? hpop
      have hfirst := hst.opened s.down.received id rest hrest
      show Inbound.Routed _ (chunksFor down.received)
      rw [hsame fun _ => rfl]
      refine hst.routed.registerInbound hidle (fun x hx hxid => ?_) (chunksFor_eq_nil hfirst) _ _
      have hopening := hst.handlers x.requestId (List.mem_map_of_mem hx)
      have hnot := hfirst _ (hxid ▸ hopening)
      exact absurd (hnot.symm.trans (decide_eq_true rfl)) Bool.false_ne_true
    | chunk id c =>
      refine hst.routed.routeChunk hidle fun id' => (hchunks id').trans ?_
      by_cases hid : id = id'
      · rw [UploadCommand.chunkFor, if_pos hid, if_pos hid.symm]
        rfl
      · rw [UploadCommand.chunkFor, if_neg hid, if_neg (Ne.symm hid)]
        rfl
    | other =>
      show s.agent.Routed (chunksFor down.received)
      rw [hsame fun _ => rfl]
      exact hst.routed
  · cases cmd with
    | opening id' =>
      have hids : (s.agent.registerInbound id' before exclusive).ids = s.agent.ids ++ [id'] :=
        Inbound.ids_registerInbound ..
      replace hid : id ∈ s.agent.ids ++ [id'] := hids ▸ hid
      rw [List.mem_append, List.mem_singleton] at hid
      obtain hid | rfl := hid
      · exact hmem _ (hst.handlers id hid)
      · exact hreceived ▸ List.mem_append_right _ (List.mem_singleton.mpr rfl)
    | chunk id' c =>
      have hids : (s.agent.routeChunk id' c).ids = s.agent.ids :=
        congrArg (List.map _) (Inbound.handlers_routeChunk ..)
      exact hmem _ (hst.handlers id (hids ▸ hid))
    | other => exact hmem _ (hst.handlers id hid)
  · obtain ⟨id, code, rfl, hf⟩ | hr := hst.answers r hr
    · refine .inl ⟨id, code, rfl, ?_⟩
      cases cmd with
      | opening id' => exact hf.registerInbound id' before exclusive
      | chunk id' c =>
        show Inbound.Finished (s.agent.routeChunk id' c) id code
        rwa [Inbound.Finished, Inbound.handlers_routeChunk]
      | other => exact hf
    · exact .inr hr

theorem Inv.agent {a : Inbound} {up : Fifo (Reply Nat)} (hi : s.Inv)
    (hrouted : a.Routed (chunksFor s.down.received)) (hids : a.ids = s.agent.ids)
    (hfinished : ∀ id code, s.agent.Finished id code → a.Finished id code)
    (hup : s.up.sent ⊆ up.sent)
    (hnew : ∀ r ∈ up.sent, r ∈ s.up.sent ∨ ({ s with up := up, agent := a } : UploadLink).Answers r) :
    ({ s with up := up, agent := a } : UploadLink).Inv := by
  have hst := hi.streams
  refine ⟨⟨hst.conn.mono hup, hst.known, hst.opened, hrouted, hids ▸ hst.handlers, fun r hr => ?_⟩,
    hi.length, fun d u hu => ?_⟩
  · obtain hr | hr := hnew r hr
    · obtain ⟨id, code, rfl, hf⟩ | hr := hst.answers r hr
      · exact .inl ⟨id, code, rfl, hfinished id code hf⟩
      · exact .inr hr
    · exact hr
  · obtain ⟨call, hcall, hkind, hok, hholds⟩ := hi.senders d u hu
    exact ⟨call, hcall, hkind, hok, fun r hr => ⟨hup (hholds r hr).1, (hholds r hr).2⟩⟩

theorem Inv.uploadReply {h : Nat} {ok : Bool} {x : UploadHandler} (hi : s.Inv)
    (hx : s.agent.handlers[h]? = some x) (ht : s.uploadReply h ok x = some t) : t.Inv := by
  unfold UploadLink.uploadReply at ht
  split at ht
  · next code hpc =>
    split at ht
    · cases ht
    · cases ht
      have hxok := hi.streams.routed.ok h x hx
      have hkept : ∀ id code, s.agent.Finished id code →
          (s.agent.setHandler h { x with replied := true }).Finished id code := fun _ _ hf =>
        hf.setHandler hx rfl fun hpc => hpc
      refine hi.agent (hi.streams.routed.setHandler hx rfl ⟨hxok.1, hxok.2, hxok.3⟩ rfl
        (hi.streams.routed.done h x hx)) (Inbound.ids_setHandler hx rfl) hkept ?_ fun r hr => ?_
      · cases ok with
        | true => exact (s.up.prefix_push _).subset
        | false => exact fun _ hr => hr
      · cases ok with
        | true =>
          refine (Fifo.mem_sent_of_push hr).imp_right fun hr => .inl ⟨x.requestId, code, hr.symm, ?_⟩
          exact hkept _ _ ⟨h, x, hx, rfl, hpc⟩
        | false => exact .inl hr
  · cases ht

theorem Inv.reply {r : Reply Nat} (hi : s.Inv)
    (h : s.conn.calls.any (fun call => call.requestId = r.requestId && call.kind != .upload) = true) :
    ({ s with up := s.up.push r } : UploadLink).Inv := by
  refine hi.agent hi.streams.routed rfl (fun _ _ hf => hf) (s.up.prefix_push r).subset fun r' hr' => ?_
  refine (Fifo.mem_sent_of_push hr').imp_right fun hr' => .inr ?_
  subst hr'
  obtain ⟨call, hmem, hcall⟩ := List.any_eq_true.mp h
  obtain ⟨d, hd⟩ := List.mem_iff_getElem?.mp hmem
  rw [Bool.and_eq_true, decide_eq_true_iff, bne_iff_ne] at hcall
  exact ⟨d, call, hd, hcall⟩

theorem Inv.broken (hi : s.Inv) :
    ({ s with up := s.up.fail, down := s.down.fail } : UploadLink).Inv := by
  have hst := hi.streams
  refine ⟨⟨hst.conn.mono fun _ hr => hr, hst.known, hst.opened, hst.routed, hst.handlers,
    hst.answers⟩, hi.length, fun d u hu => ?_⟩
  obtain ⟨call, hcall, hkind, hok, hholds⟩ := hi.senders d u hu
  exact ⟨call, hcall, hkind, hok.down_broken, hholds⟩

/-! ### Every step -/

inductive Step (s : UploadLink) : UploadLinkLabel → UploadLink → Prop
  | conn (l : UploadLinkLabel) (k : ConnLabel Nat) (t : UploadLink)
      (hl : AgentConn.Counts k = numbers l) (hchunk : ∀ d last err, k ≠ .call d (.chunk last err))
      (hstart : ∀ kind, k ≠ .start kind) (hin : AgentConn.incoming k = none)
      (h : s.connStep k = some t) : Step s l t
  | start (l : UploadLinkLabel) (kind : CallKind) (t : UploadLink) (u? : Option UploadSender)
      (hl : numbers l = true)
      (hu? : ∀ u, u? = some u → kind = .upload ∧ (∀ live, u.Ok [] live) ∧ ∀ r, ¬u.Holds r)
      (h : s.connStep (.start kind) = some t) :
      Step s l { t with senders := t.senders ++ [u?] }
  | moved (l : UploadLinkLabel) (t : UploadLink) (d : Nat) (u u' : UploadSender) (call : Call Nat)
      (chunk? : Option UploadChunk) (hl : numbers l = false) (h : s.Moved t d u u' call chunk?) :
      Step s l t
  | serve (r : Reply Nat) (up : Fifo (Reply Nat)) (t : UploadLink) (hpop : s.up.pop? = some (r, up))
      (h : s.connStep (.receive r) = some t) : Step s .serve { t with up := up }
  | recv (before : Option Bytes) (exclusive : Bool) (cmd : UploadCommand)
      (down : Fifo UploadCommand) (hidle : s.agent.routing = none)
      (hpop : s.down.pop? = some (cmd, down)) :
      Step s (.recv before exclusive)
        { s with down := down, agent := receiveCommand s.agent before exclusive cmd }
  | agent (l : InboundLabel) (a : Inbound) (h : s.agent.step l = some a) :
      Step s (.agent l) { s with agent := a }
  | uploadReply (h : Nat) (ok : Bool) (x : UploadHandler) (t : UploadLink)
      (hx : s.agent.handlers[h]? = some x) (ht : s.uploadReply h ok x = some t) :
      Step s (.uploadReply h ok) t
  | reply (r : Reply Nat)
      (h : s.conn.calls.any (fun call => call.requestId = r.requestId && call.kind != .upload) =
        true) : Step s (.reply r) { s with up := s.up.push r }
  | broken : Step s .broken { s with up := s.up.fail, down := s.down.fail }

theorem newSender_ok (relayed : Bool) :
    (∀ live, ({ relay := if relayed then some {} else none } : UploadSender).Ok [] live) ∧
      ∀ r, ¬({ relay := if relayed then some {} else none } : UploadSender).Holds r := by
  have hbody : ({} : BodySender).Ok := ⟨rfl, rfl, rfl⟩
  cases relayed with
  | false =>
    refine ⟨fun live => ⟨hbody, .of_eq rfl⟩, fun r hr => ?_⟩
    obtain hr | ⟨relay, hrelay, -⟩ := hr
    · cases hr
    · cases hrelay
  | true =>
    refine ⟨fun live => ⟨hbody, rfl, rfl, List.prefix_rfl, fun _ _ => rfl⟩, fun r hr => ?_⟩
    obtain hr | ⟨relay, hrelay, hr⟩ := hr
    · cases hr
    · cases hrelay
      cases hr

theorem step_cases {l : UploadLinkLabel} (h : s.step l = some t) : Step s l t := by
  cases l with
  | conn l =>
    simp only [step] at h
    split at h
    · next hl =>
      obtain ⟨t, hstep, rfl⟩ := Option.map_eq_some_iff.mp h
      cases l with
      | start kind => exact .start _ kind t none rfl (fun _ hu => by cases hu) hstep
      | receive r => cases hl
      | call d l =>
        refine .conn _ (.call d l) _ rfl (fun d' last err he => ?_) (fun _ he => by cases he) rfl
          hstep
        cases he
        cases hl
      | put =>
        exact .conn _ .put _ rfl (fun _ _ _ he => by cases he) (fun _ he => by cases he) rfl hstep
      | drop =>
        exact .conn _ .drop _ rfl (fun _ _ _ he => by cases he) (fun _ he => by cases he) rfl hstep
      | closeAll =>
        exact .conn _ .closeAll _ rfl (fun _ _ _ he => by cases he) (fun _ he => by cases he) rfl
          hstep
      | closeDone d =>
        exact .conn _ (.closeDone d) _ rfl (fun _ _ _ he => by cases he) (fun _ he => by cases he)
          rfl hstep
    · cases h
  | dispatchUpload relayed =>
    simp only [step] at h
    obtain ⟨t, hstep, rfl⟩ := Option.map_eq_some_iff.mp h
    refine .start _ _ t _ rfl (fun u hu => ?_) hstep
    cases hu
    exact ⟨rfl, newSender_ok relayed⟩
  | body d l =>
    obtain ⟨u, hu, h⟩ := Option.bind_eq_some_iff.mp h
    obtain ⟨call, hcall, h⟩ := Option.bind_eq_some_iff.mp h
    have hu := Option.join_eq_some_iff.mp hu
    split at h
    · next hrelay =>
      obtain ⟨u', chunk?, hmoved⟩ := bodyLocal_moved hu hcall hrelay h
      exact .moved _ _ d u u' call chunk? rfl hmoved
    · next relay hrelay =>
      obtain ⟨u', chunk?, hmoved⟩ := bodyRelayed_moved hu hcall hrelay h
      exact .moved _ _ d u u' call chunk? rfl hmoved
  | server d l =>
    obtain ⟨u, hu, h⟩ := Option.bind_eq_some_iff.mp h
    obtain ⟨relay, hrelay, h⟩ := Option.bind_eq_some_iff.mp h
    obtain ⟨call, hcall, h⟩ := Option.bind_eq_some_iff.mp h
    obtain ⟨u', chunk?, hmoved⟩ :=
      serverStep_moved (Option.join_eq_some_iff.mp hu) hcall hrelay h
    exact .moved _ _ d u u' call chunk? rfl hmoved
  | await d =>
    obtain ⟨u, hu, h⟩ := Option.bind_eq_some_iff.mp h
    split at h
    · exact .conn _ (.call d .await) _ rfl (fun _ _ _ he => by cases he) (fun _ he => by cases he)
        rfl h
    · cases h
  | result d =>
    obtain ⟨u, hu, h⟩ := Option.bind_eq_some_iff.mp h
    obtain ⟨call, hcall, h⟩ := Option.bind_eq_some_iff.mp h
    obtain ⟨r, hr, h⟩ := Option.bind_eq_some_iff.mp h
    cases h
    exact .moved _ _ d u _ call none rfl (result_moved (Option.join_eq_some_iff.mp hu) hcall hr)
  | serve =>
    obtain ⟨⟨r, up⟩, hpop, h⟩ := Option.bind_eq_some_iff.mp h
    obtain ⟨t, hstep, h⟩ := Option.bind_eq_some_iff.mp h
    cases h
    exact .serve r up t hpop hstep
  | recv before exclusive =>
    simp only [step] at h
    split at h
    · next hidle =>
      obtain ⟨⟨cmd, down⟩, hpop, rfl⟩ := Option.map_eq_some_iff.mp h
      exact .recv before exclusive cmd down (Option.isNone_iff_eq_none.mp hidle) hpop
    · cases h
  | agent l =>
    obtain ⟨a, hstep, rfl⟩ := Option.map_eq_some_iff.mp h
    exact .agent l a hstep
  | uploadReply h' ok =>
    obtain ⟨x, hx, h⟩ := Option.bind_eq_some_iff.mp h
    exact .uploadReply h' ok x t hx h
  | reply r =>
    simp only [step] at h
    split at h
    · next hany =>
      cases h
      exact .reply r hany
    · cases h
  | broken =>
    cases h
    exact .broken

theorem Inv.serve {r : Reply Nat} {up : Fifo (Reply Nat)} (hi : s.Inv)
    (hpop : s.up.pop? = some (r, up)) (h : s.connStep (.receive r) = some t) :
    ({ t with up := up } : UploadLink).Inv := by
  obtain ⟨-, -, hsent, -, hr⟩ := Fifo.pop?_eq_some hpop
  have ht : t.Inv := hi.connStep (l := .receive r) (fun _ _ _ he => by cases he)
    (fun _ he => by cases he) (fun r' hr' => Option.some.inj hr' ▸ List.mem_of_getElem? hr)
    (fun he => by cases he) h
  obtain ⟨c', out, -, rfl⟩ := connStep_eq_some h
  have hup : s.up.sent ⊆ up.sent := by
    rw [hsent]
    exact fun _ hr => hr
  exact ht.agent ht.streams.routed rfl (fun _ _ hf => hf) hup fun r' hr' => .inl (hsent ▸ hr')

theorem step_inv {l : UploadLinkLabel} (hi : s.Inv)
    (hseq : numbers l = true → s.conn.seq + 1 < UInt64.size) (h : s.step l = some t) : t.Inv := by
  replace h := step_cases h
  cases h with
  | conn l k t hl hchunk hstart hin h =>
    exact hi.connStep hchunk hstart (fun r hr => by rw [hin] at hr; cases hr)
      (fun hk => hseq (hl ▸ hk)) h
  | start l kind t u? hl hu? h => exact hi.start (hseq hl) hu? h
  | moved l t d u u' call chunk? hl h => exact h.inv hi
  | serve r up t hpop h => exact hi.serve hpop h
  | recv before exclusive cmd down hidle hpop => exact hi.recv hidle hpop
  | agent l a h =>
    exact hi.agent (Inbound.step_routed hi.streams.routed h) (Inbound.ids_step h)
      (fun _ _ hf => hf.step h) (fun _ hr => hr) fun _ hr => .inl hr
  | uploadReply h ok x t hx ht => exact hi.uploadReply hx ht
  | reply r h => exact hi.reply h
  | broken => exact hi.broken

theorem connStep_seq {l : ConnLabel Nat} (h : s.connStep l = some t) :
    t.conn.seq ≤ s.conn.seq + if AgentConn.Counts l then 1 else 0 := by
  obtain ⟨c', out, hstep, rfl⟩ := connStep_eq_some h
  exact AgentConn.step_seq_le hstep

theorem step_seq {l : UploadLinkLabel} (h : s.step l = some t) :
    t.conn.seq ≤ s.conn.seq + if numbers l then 1 else 0 := by
  replace h := step_cases h
  cases h with
  | conn l k t hl hchunk hstart hin h => exact hl ▸ connStep_seq h
  | start l kind t u? hl hu? h =>
    rw [if_pos hl]
    exact connStep_seq (t := t) h
  | moved l t d u u' call chunk? hl h =>
    rw [h.after]
    exact Nat.le_add_right _ _
  | serve r up t hpop h => exact connStep_seq (t := t) h
  | uploadReply h ok x t hx ht =>
    unfold uploadReply at ht
    split at ht
    · split at ht
      · cases ht
      · cases ht
        exact Nat.le_add_right _ _
    · cases ht
  | recv | agent | reply | broken => exact Nat.le_add_right _ _

theorem init_inv (agentId : String) : (init agentId).Inv where
  streams := {
    conn := {
      allOk := (Controller.SharedConn.init_inv agentId).allOk.live AgentConn.live_idle.symm
      numbered := AgentConn.init_numbered agentId
      carries := fun r hr => absurd hr (AgentConn.not_carries_init agentId r)
      took := fun _ _ h => by cases h }
    known := fun _ h => by cases h
    opened := fun l₁ _ _ h => by cases l₁ <;> cases h
    routed := .init
    handlers := fun _ h => by cases h
    answers := fun _ h => by cases h }
  length := rfl
  senders := fun _ _ h => by cases h

theorem inv_of_run {agentId : String} {ls : List UploadLinkLabel}
    (h : Lts.AnyRun step (init agentId) ls s) (hseq : ls.countP numbers < UInt64.size) :
    s.Inv :=
  h.invariant_below (fun _ _ _ hi hl hs => step_inv hi hl hs) (fun _ _ _ _ hs => step_seq hs)
    (init_inv agentId) rfl hseq

/-! ### Whole files -/

theorem Inv.committed {h : Nat} {x : UploadHandler} (hi : s.Inv)
    (hu : s.senders[d]? = some (some u)) (hcall : s.conn.calls[d]? = some call)
    (hx : s.agent.handlers[h]? = some x) (hid : x.requestId = call.requestId)
    (hpc : x.upload.pc.committing = true) :
    u.body.atEof = true ∧ Agent.fullBody x.upload.req.chunks = u.body.read := by
  obtain ⟨call', hcall', -, hok, -⟩ := hi.senders d u hu
  obtain rfl := Option.some.inj (hcall.symm.trans hcall')
  have hreceived : x.upload.req.chunks <+: chunksFor s.down.received call.requestId :=
    hid ▸ hi.streams.routed.taken_isPrefix hx
  have hsent := hreceived.trans (chunksFor_isPrefix s.down.received_isPrefix)
  exact hok.body.of_hasLast (hsent.trans hok.down_isPrefix)
    ((hi.streams.routed.ok h x hx).committing hpc)

theorem Inv.finished {r : Reply Nat} (hi : s.Inv) (hu : s.senders[d]? = some (some u))
    (hcall : s.conn.calls[d]? = some call) (hr : u.result = some r) :
    ∃ code, r = .result call.requestId code ∧ s.agent.Finished call.requestId code := by
  obtain ⟨call', hcall', hkind, -, hholds⟩ := hi.senders d u hu
  obtain rfl := Option.some.inj (hcall.symm.trans hcall')
  obtain ⟨hsent, hid⟩ := hholds r (.inl hr)
  obtain ⟨id, code, rfl, hf⟩ | ⟨e, other, hother, hoid, hne⟩ := hi.streams.answers r hsent
  · obtain rfl : id = call.requestId := hid
    exact ⟨code, rfl, hf⟩
  · obtain rfl : d = e := AgentConn.HasId.inj hi.streams.conn.numbered
      (AgentConn.hasId_of_call hcall) (hid ▸ hoid ▸ AgentConn.hasId_of_call hother)
    obtain rfl := Option.some.inj (hcall.symm.trans hother)
    exact absurd hkind hne

/-- An upload that returns 201, relayed or not, has written the body up to its end to the file of
its one handler; as long as the end of the body has not been read, no handler of the upload commits
its file. -/
theorem uploads_intact_of_run {agentId : String} {ls : List UploadLinkLabel}
    (h : Lts.AnyRun step (init agentId) ls s) (hseq : ls.countP numbers < UInt64.size)
    (hu : s.senders[d]? = some (some u)) (hcall : s.conn.calls[d]? = some call) :
    (∀ r, u.result = some r → r.body = 201 → u.body.atEof = true ∧
      ∃ (h : Nat) (x : UploadHandler), s.agent.handlers[h]? = some x ∧
        x.requestId = call.requestId ∧ x.upload.pc = .finished 201 ∧
        x.file.content = some u.body.read) ∧
    (∀ (h h' : Nat) (x x' : UploadHandler), s.agent.handlers[h]? = some x →
      s.agent.handlers[h']? = some x' → x.requestId = call.requestId →
      x'.requestId = call.requestId → h = h') ∧
    (u.body.atEof = false → ∀ (h : Nat) (x : UploadHandler), s.agent.handlers[h]? = some x →
      x.requestId = call.requestId → x.upload.pc.committing = false) := by
  have hi := inv_of_run h hseq
  refine ⟨fun r hr hbody => ?_, fun h h' x x' hx hx' hid hid' => ?_, fun heof h x hx hid => ?_⟩
  · obtain ⟨code, rfl, h, x, hx, hid, hpc⟩ := hi.finished hu hcall hr
    obtain rfl : code = 201 := hbody
    obtain ⟨heof, hread⟩ := hi.committed hu hcall hx hid (by rw [hpc]; rfl)
    refine ⟨heof, h, x, hx, hid, hpc, ?_⟩
    rw [← hread]
    exact (hi.streams.routed.ok h x hx).content hpc
  · exact hi.streams.routed.unique h h' x x' hx hx' (hid.trans hid'.symm)
  · by_contra hpc
    have := (hi.committed hu hcall hx hid (eq_true_of_ne_false hpc)).1
    exact absurd (heof.symm.trans this) Bool.false_ne_true

def sideBySide : List UploadLinkLabel := [.dispatchUpload false, .dispatchUpload true,
  .conn (.call 0 .register), .conn (.call 1 .register), .conn (.call 1 (.send none)),
  .conn (.call 0 (.send none)), .recv none true, .recv (some [5]) false,
  .agent (.handler 0 (.upload (.prepare none))), .agent (.handler 1 (.upload (.prepare none))),
  .agent (.handler 0 (.upload (.openFile none))), .agent (.handler 1 (.upload (.openFile none))),
  .body 0 (.read [1, 2] none), .body 1 (.read [9] none), .body 0 (.sent none),
  .body 1 (.sent none), .body 0 (.read [] none), .server 1 .recv, .server 1 (.sent none),
  .body 0 (.read [3] (some .eof)), .body 1 (.read [] (some .eof)), .body 0 (.sent none),
  .body 1 (.sent none), .body 0 (.sent none), .server 1 .recv, .server 1 (.sent none),
  .await 0, .await 1,
  .recv none false, .agent .put, .recv none false, .agent .put, .agent (.handler 0 (.take 1 none)),
  .agent (.handler 1 (.take 2 none)), .recv none false, .agent .put, .recv none false, .agent .put,
  .recv none false, .agent .put, .agent (.handler 1 (.take 1 none)),
  .agent (.handler 0 (.take 0 none)), .agent (.handler 1 (.take 0 none)),
  .agent (.handler 0 (.upload (.sync none))), .agent (.handler 1 (.upload (.sync none))),
  .agent (.handler 0 (.upload .close)), .agent (.handler 1 (.upload .close)),
  .uploadReply 1 true, .uploadReply 0 true, .serve, .conn .put, .serve, .conn .put,
  .conn (.call 0 .take), .conn (.call 0 .unregister), .result 0, .conn (.call 1 .take),
  .conn (.call 1 .unregister), .server 1 .sendAndClose, .result 1]

theorem uploads_intact_of_run_sideBySide : ∃ s : UploadLink,
    ∀ (d : Nat) (body : Bytes), (d, body) ∈ [(0, [1, 2, 3]), (1, [9])] →
      ∃ (h : Nat) (x : UploadHandler), s.agent.handlers[h]? = some x ∧
        x.upload.pc = .finished 201 ∧ x.file.content = some body := by
  let s := (Lts.exec step (init "a") sideBySide).get (by decide +kernel)
  have hrun := Lts.anyRun_of_exec (t := s) (Option.some_get _).symm
  refine ⟨s, fun d body hd => ?_⟩
  have hfact : ∀ x ∈ [(0, [1, 2, 3]), (1, [9])], (s.conn.calls[x.1]?).isSome = true ∧
      ((s.senders[x.1]?).join).isSome = true ∧ ((s.senders[x.1]?).join).all (fun u =>
        u.body.read = x.2 && u.result.map Reply.body = some 201) = true := by decide +kernel
  obtain ⟨hcall, hu, hread⟩ := hfact (d, body) hd
  obtain ⟨call, hcall⟩ := Option.isSome_iff_exists.mp hcall
  obtain ⟨u, hu⟩ := Option.isSome_iff_exists.mp hu
  rw [hu, Option.all_some, Bool.and_eq_true, decide_eq_true_iff, decide_eq_true_iff] at hread
  obtain ⟨r, hr, hcode⟩ := Option.map_eq_some_iff.mp hread.2
  obtain ⟨-, h, x, hx, -, hpc, hcontent⟩ :=
    (uploads_intact_of_run hrun (by decide) (Option.join_eq_some_iff.mp hu) hcall).1 r hr hcode
  exact ⟨h, x, hx, hpc, hcontent.trans (congrArg some hread.1)⟩

end UploadLink
end Hostlink
