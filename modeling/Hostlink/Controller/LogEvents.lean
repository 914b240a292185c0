import Hostlink.Agent.LogReplies
import Hostlink.Controller.Download
import Hostlink.Lib.Sse
import Hostlink.Lib.Strconv

/-! A container's log on its way to a client: `handleLogs` on the agent, the stream to the controller,
`serveSSEStream`, and what a client reads from any part of the response that reaches it. -/

namespace Hostlink.Controller
open Agent
open GoJson

structure StreamDoneFrame where
  done : Bool := true
  code : Nat := 0
  error : String := ""
  deriving DecidableEq, Repr

/-- `json.Marshal` of a `streamDoneFrame`: no code and no error where they are zero. -/
def StreamDoneFrame.marshal (f : StreamDoneFrame) : List Char :=
  (if f.done then "\x7b\"done\":true" else "\x7b\"done\":false").toList ++
    (if f.code = 0 then [] else ",\"code\":".toList ++ (Strconv.formatUint f.code).toList) ++
    (if f.error = "" then [] else ',' :: member "error" (f.error.toList.map some)) ++ ['\x7d']

def StreamDoneFrame.payload (f : StreamDoneFrame) : Bytes := Utf8.encode f.marshal

structure SseResponse where
  status : Option Nat := none
  body : Bytes := []
  error : Option String := none
  returned : Bool := false

namespace SseResponse

def writeSSERaw (r : SseResponse) (payload : Bytes) : SseResponse :=
  { r with body := r.body ++ "data: ".toUTF8.data.toList ++ payload ++ "\n\n".toUTF8.data.toList }

def writeSSEEvent (r : SseResponse) (f : StreamDoneFrame) : SseResponse := r.writeSSERaw f.payload

def emit (r : SseResponse) (frame : StreamFrame AgentResult) (writeErr : Bool) : SseResponse :=
  if frame.final then
    { r.writeSSEEvent { code := frame.body.code, error := frame.body.error } with returned := true }
  else { r.writeSSERaw frame.body.payload with returned := writeErr }

def onAbort (r : SseResponse) : SseResponse := r.writeSSEEvent { error := "agent disconnected" }

/-- `consumeStream` with `emit` and `onAbort`. -/
def consume (r : SseResponse) : List ConsumeEvent → SseResponse
  | [] => r
  | .ctxDone :: _ => { r with returned := true }
  | .abort :: _ => { r.onAbort with returned := true }
  | .frame frame writeErr :: events =>
    let r := r.emit frame writeErr
    if r.returned then r else r.consume events

end SseResponse

def serveSSEStream (canFlush : Bool) (events : List ConsumeEvent) : SseResponse :=
  if canFlush then ({ status := some 200 } : SseResponse).consume events
  else { status := some 500, error := some "streaming unsupported", returned := true }

def logsFrames (run : LogsRun) : List (StreamFrame AgentResult) :=
  run.frames.map (fun f => ⟨{ payload := f.payload }, false⟩) ++ [⟨{ code := run.code, error := run.error }, true⟩]

def StreamConsumer.events (k : StreamConsumer AgentResult) : List ConsumeEvent :=
  k.passed.map (.frame · false) ++ if k.pc = .returned true then [.abort] else []

/-! ### The response as a list of events -/

def ssePayloads : List ConsumeEvent → List Bytes
  | [] | .ctxDone :: _ => []
  | .abort :: _ => [StreamDoneFrame.payload { error := "agent disconnected" }]
  | .frame frame writeErr :: events =>
    if frame.final then [StreamDoneFrame.payload { code := frame.body.code, error := frame.body.error }]
    else frame.body.payload :: if writeErr then [] else ssePayloads events

theorem SseResponse.body_writeSSERaw (r : SseResponse) (payload : Bytes) :
    (r.writeSSERaw payload).body = r.body ++ Sse.event payload := by
  have hfield : "data: ".toUTF8.data.toList = Sse.dataField ++ [Sse.colon, Sse.space] := by decide +kernel
  have hend : "\n\n".toUTF8.data.toList = [Sse.lineFeed, Sse.lineFeed] := by decide +kernel
  simp only [writeSSERaw, Sse.event, hfield, hend, List.append_assoc]

theorem SseResponse.body_consume (r : SseResponse) (events : List ConsumeEvent) :
    (r.consume events).body = r.body ++ (ssePayloads events).flatMap Sse.event := by
  induction events generalizing r with
  | nil => exact (List.append_nil _).symm
  | cons event events ih =>
    cases event with
    | ctxDone => exact (List.append_nil _).symm
    | abort =>
      rw [ssePayloads, List.flatMap_singleton]
      exact r.body_writeSSERaw _
    | frame frame writeErr =>
      rw [SseResponse.consume, ssePayloads]
      cases hfinal : frame.final with
      | true =>
        simp only [emit, hfinal, if_true, List.flatMap_singleton]
        exact r.body_writeSSERaw _
      | false =>
        simp only [emit, hfinal, Bool.false_eq_true, if_false, List.flatMap_cons]
        cases writeErr with
        | true =>
          simp only [if_true, List.flatMap_nil, List.append_nil]
          exact r.body_writeSSERaw _
        | false =>
          simp only [Bool.false_eq_true, if_false]
          rw [ih, r.body_writeSSERaw, List.append_assoc]

theorem body_serveSSEStream (events : List ConsumeEvent) :
    (serveSSEStream true events).body = (ssePayloads events).flatMap Sse.event :=
  SseResponse.body_consume { status := some 200 } events

/-! ### Every payload stays within its event -/

theorem oneLine_encode {text : List Char} (h : Printable text) : Sse.OneLine (Utf8.encode text) := by
  have hnot : ∀ b : UInt8, b.toNat < 32 → b ∉ Utf8.encode text := by
    intro b hlt hb
    obtain ⟨c, hc, heq⟩ := Utf8.mem_encode_of_lt hb (by omega)
    have hle := printable_iff.mp h c hc
    omega
  exact ⟨hnot _ (by decide), hnot _ (by decide)⟩

theorem printable_formatUint (n : Nat) : Printable (Strconv.formatUint n).toList := by
  rw [printable_iff, Strconv.toList_formatUint]
  intro c hc
  have hdigit := Nat.isDigit_of_mem_toDigits (by decide) (by decide) hc
  have hle := (Char.isDigit_iff_toNat.mp hdigit).1
  exact Nat.le_trans (by decide) hle

theorem StreamDoneFrame.printable_marshal (f : StreamDoneFrame) : Printable f.marshal := by
  have hdone : Printable (if f.done then "\x7b\"done\":true" else "\x7b\"done\":false").toList := by
    cases f.done <;> decide
  have hcode : Printable
      (if f.code = 0 then [] else ",\"code\":".toList ++ (Strconv.formatUint f.code).toList) := by
    split
    · rfl
    · exact printable_append (by decide) (printable_formatUint _)
  have herror : Printable (if f.error = "" then [] else ',' :: member "error" (f.error.toList.map some)) := by
    split
    · rfl
    · have hcomma : Printable [','] := by decide
      show Printable ([','] ++ member "error" _)
      exact printable_append hcomma (printable_member _ _)
  have hclose : Printable ['\x7d'] := by decide
  exact printable_append (printable_append (printable_append hdone hcode) herror) hclose

/-! ### What a client reads -/

def logPayloads (lines : List LogFrame) (done : Option StreamDoneFrame) : List Bytes :=
  lines.map LogFrame.payload ++ done.toList.map StreamDoneFrame.payload

theorem oneLine_logPayloads (lines : List LogFrame) (done : Option StreamDoneFrame) :
    ∀ payload ∈ logPayloads lines done, Sse.OneLine payload := by
  intro payload hpayload
  rcases List.mem_append.mp hpayload with hline | hdone
  · obtain ⟨f, -, rfl⟩ := List.mem_map.mp hline
    exact oneLine_encode f.printable_marshal
  · obtain ⟨f, -, rfl⟩ := List.mem_map.mp hdone
    exact oneLine_encode f.printable_marshal

theorem isPrefix_logPayloads {payloads : List Bytes} {lines : List LogFrame} {done : Option StreamDoneFrame}
    (h : payloads <+: logPayloads lines done) :
    (∃ seen, payloads = logPayloads seen none ∧ seen <+: lines) ∨ payloads = logPayloads lines done := by
  have hlines : payloads <+: lines.map LogFrame.payload →
      ∃ seen, payloads = logPayloads seen none ∧ seen <+: lines := by
    intro hprefix
    obtain ⟨seen, hseen, rfl⟩ := List.prefix_map_iff.mp hprefix
    exact ⟨seen, (List.append_nil _).symm, hseen⟩
  cases done with
  | none =>
    rw [logPayloads, Option.toList_none, List.map_nil, List.append_nil] at h
    exact .inl (hlines h)
  | some d =>
    rcases List.prefix_concat_iff.mp h with heq | hprefix
    · exact .inr heq
    · exact .inl (hlines hprefix)

theorem ssePayloads_lines (lines : List LogFrame) (events : List ConsumeEvent) :
    ssePayloads ((lines.map fun f => .frame ⟨{ payload := f.payload }, false⟩ false) ++ events) =
      lines.map LogFrame.payload ++ ssePayloads events := by
  induction lines with
  | nil => rfl
  | cons f lines ih => exact congrArg (f.payload :: ·) ih

def Ends (run : LogsRun) (lines : List LogFrame) (done : StreamDoneFrame) : Prop :=
  done = { error := "agent disconnected" } ∨ lines = run.frames ∧ done = { code := run.code, error := run.error }

theorem ssePayloads_events {run : LogsRun} {k : StreamConsumer AgentResult} (h : k.passed <+: logsFrames run) :
    ∃ lines done, ssePayloads k.events = logPayloads lines done ∧ lines <+: run.frames ∧
      ∀ d, done = some d → Ends run lines d := by
  rw [logsFrames] at h
  rcases List.prefix_concat_iff.mp h with heq | hprefix
  · refine ⟨run.frames, some { code := run.code, error := run.error }, ?_, List.prefix_rfl, ?_⟩
    · rw [StreamConsumer.events, heq, List.map_append, List.map_map, List.append_assoc]
      exact ssePayloads_lines run.frames _
    · rintro d ⟨⟩
      exact .inr ⟨rfl, rfl⟩
  · obtain ⟨lines, hlines, heq⟩ := List.prefix_map_iff.mp hprefix
    have hevents : k.events = (lines.map fun f => .frame ⟨{ payload := f.payload }, false⟩ false) ++
        if k.pc = .returned true then [.abort] else [] := by
      rw [StreamConsumer.events, heq, List.map_map]
      rfl
    rw [hevents, ssePayloads_lines]
    split
    · refine ⟨lines, some { error := "agent disconnected" }, rfl, hlines, ?_⟩
      rintro d ⟨⟩
      exact .inl rfl
    · refine ⟨lines, none, rfl, hlines, ?_⟩
      rintro d ⟨⟩

theorem ofStream_handleLogs {setup : LogsSetup} {copy : LogsCopy} {lines : List LogFrame}
    (h : lines <+: (handleLogs setup copy).frames) (channel : LogChannel)
    (hshort : ShortLines (chunksOf channel copy.writes).flatten) :
    ofStream channel lines <+:
      (segments (chunksOf channel copy.writes).flatten).map fun line => ⟨channel.name, trimReturn line⟩ := by
  rw [handleLogs] at h
  split at h
  · obtain rfl := List.prefix_nil.mp h
    exact List.nil_prefix
  · have hchannel := h.filter fun f => f.stream = channel.name
    have hframes := containerLogs_ofStream copy.writes channel
    rw [LogLineWriter.frames, LogLineWriter.writeAll_frames { stream := channel.name } _ List.not_mem_nil hshort]
      at hframes
    rw [ofStream] at hframes
    rw [hframes] at hchannel
    exact hchannel

/-- For every run of the stream between agent and controller, and whatever part of the response
reaches the client: it reads the lines of the log from the start and without a gap, each with its
channel and its text, where the lines of a channel, if none is too long, are what the container wrote
between two newlines; and the terminal event, if it reads one, stands after them and, unless it says
that the agent was lost, these lines are all. -/
theorem log_lines_of_run {agentId : String} {ls : List (StreamLabel AgentResult)} {s : StreamLink AgentResult}
    (h : Lts.AnyRun StreamLink.step (.init agentId) ls s) (hseq : ls.countP StreamLink.numbers < UInt64.size)
    {d : Nat} {k : StreamConsumer AgentResult} {call : Call AgentResult}
    (hk : s.consumers[d]? = some (some k)) (hcall : s.conn.calls[d]? = some call)
    (hmethod : k.method = "containers.logs") {setup : LogsSetup} {copy : LogsCopy}
    (hsent : s.sentFor call.requestId <+: logsFrames (handleLogs setup copy)) {received : Bytes}
    (hreceived : received <+: (serveSSEStream true k.events).body) :
    ∃ lines done, Sse.events received = logPayloads lines done ∧ lines <+: (handleLogs setup copy).frames ∧
      (lines.map LogFrame.payload).map LogLine.unmarshal = lines.map (some ·.text) ∧
      (∀ channel, ShortLines (chunksOf channel copy.writes).flatten → ofStream channel lines <+:
        (segments (chunksOf channel copy.writes).flatten).map fun line => ⟨channel.name, trimReturn line⟩) ∧
      ∀ f, done = some f → Ends (handleLogs setup copy) lines f := by
  have hreliable : streamReliable k.method = true := by
    rw [hmethod]
    decide
  have hpassed := ((StreamLink.inv_of_run h hseq).passed_isPrefix hk hcall hreliable).trans hsent
  obtain ⟨lines, done, hpayloads, hlines, hends⟩ := ssePayloads_events hpassed
  rw [body_serveSSEStream, hpayloads] at hreceived
  have hevents := Sse.events_isPrefix hreceived
  rw [Sse.events_flatMap_event (oneLine_logPayloads lines done)] at hevents
  have hread : ∀ seen : List LogFrame,
      (seen.map LogFrame.payload).map LogLine.unmarshal = seen.map (some ·.text) := by
    intro seen
    rw [List.map_map]
    apply List.map_congr_left
    intro f _
    rw [Function.comp_apply, f.unmarshal_payload]
  rcases isPrefix_logPayloads hevents with ⟨seen, heq, hseen⟩ | heq
  · have hseen' := hseen.trans hlines
    exact ⟨seen, none, heq, hseen', hread seen, ofStream_handleLogs hseen', by rintro f ⟨⟩⟩
  · exact ⟨lines, done, heq, hlines, hread lines, ofStream_handleLogs hlines, hends⟩

def twoLines : LogsCopy := { writes := [(.stdout, [97, 10, 98, 255])] }

def twoLinesStream : List (StreamLabel AgentResult) :=
  [.dispatchStream "containers.logs" false, .conn (.call 0 .register), .conn (.call 0 (.send none)),
    .reply (.progress "1" { payload := LogFrame.payload ⟨"stdout", [97]⟩ }), .receive, .conn .put,
    .consume 0 (.frame false), .reply (.progress "1" { payload := LogFrame.payload ⟨"stdout", [98, 255]⟩ }),
    .receive, .conn .put, .consume 0 (.frame false)]

theorem log_lines_of_twoLines : ∃ (s : StreamLink AgentResult) (k : StreamConsumer AgentResult) (received : Bytes)
    (lines : List LogFrame) (done : Option StreamDoneFrame),
    Lts.AnyRun StreamLink.step (.init "a") twoLinesStream s ∧ s.consumers[0]? = some (some k) ∧
    received = (serveSSEStream true k.events).body.dropLast ∧ Sse.events received = logPayloads lines done ∧
    lines <+: (handleLogs { id := "c" } twoLines).frames := by
  let s := (Lts.exec StreamLink.step (.init "a") twoLinesStream).get (by decide +kernel)
  have hrun := Lts.anyRun_of_exec (t := s) (Option.some_get _).symm
  have hk : ((s.consumers[0]?).join).isSome = true := by decide +kernel
  have hcall : (s.conn.calls[0]?).isSome = true := by decide +kernel
  have hconsumer : ((s.consumers[0]?).join).all (·.method = "containers.logs") = true := by decide +kernel
  have hsent : (s.conn.calls[0]?).all (fun call => s.sentFor call.requestId =
      (logsFrames (handleLogs { id := "c" } twoLines)).dropLast) = true := by decide +kernel
  obtain ⟨k, hk⟩ := Option.isSome_iff_exists.mp hk
  obtain ⟨call, hcall⟩ := Option.isSome_iff_exists.mp hcall
  rw [hk, Option.all_some, decide_eq_true_iff] at hconsumer
  rw [hcall, Option.all_some, decide_eq_true_iff] at hsent
  have hk := Option.join_eq_some_iff.mp hk
  have hpart : s.sentFor call.requestId <+: logsFrames (handleLogs { id := "c" } twoLines) := by
    rw [hsent]
    exact List.dropLast_prefix _
  obtain ⟨lines, done, hevents, hlines, -⟩ :=
    log_lines_of_run hrun (by decide) hk hcall hconsumer hpart (List.dropLast_prefix _)
  exact ⟨s, k, _, lines, done, hrun, hk, rfl, hevents, hlines⟩

end Hostlink.Controller
