import Hostlink.Agent.ReadFile
import Hostlink.Controller.Responses
import Hostlink.Controller.StreamDelivery

/-! Downloads: `streamDownload` writes what `consumeStream` passes to it. The headers besides the
status are left out. -/

namespace Hostlink.Controller
open Agent (Bytes ReadSetup ReadTurn ReadRun readFile)

/-- The frames `handleRead` sends: the chunks, then the result. -/
def readFrames (run : ReadRun) : List (StreamFrame AgentResult) :=
  run.chunks.map (fun chunk => ⟨{ payload := chunk }, false⟩) ++
    run.outcome.toList.map fun outcome => ⟨{ code := outcome.1, error := outcome.2 }, true⟩

/-- What `consumeStream` meets; `writeErr` says that the response could not be written. -/
inductive ConsumeEvent where
  | frame (frame : StreamFrame AgentResult) (writeErr : Bool)
  | ctxDone
  | abort
  deriving DecidableEq, Repr

/-- The response so far, and whether the handler has returned; it always returns normally. -/
structure Download where
  headerWritten : Bool := false
  status : Option Nat := none
  body : Bytes := []
  error : Option String := none
  returned : Bool := false
  deriving DecidableEq, Repr

namespace Download

def writeHeader (r : Download) : Download :=
  if r.headerWritten then r else { r with headerWritten := true, status := some 200 }

def json (r : Download) (code : Nat) (msg : String) : Download :=
  { r with status := some code, error := some msg }

def emit (r : Download) (frame : StreamFrame AgentResult) (writeErr : Bool) : Download :=
  if frame.final then
    if !r.headerWritten && frame.body.code ≠ 0 && frame.body.code ≠ 200 then
      { r.json frame.body.code frame.body.error with returned := true }
    else { r.writeHeader with returned := true }
  else
    if writeErr then { r.writeHeader with returned := true }
    else { r.writeHeader with body := r.body ++ frame.body.payload }

def onAbort (r : Download) : Download :=
  if r.headerWritten then r else r.json 502 "agent disconnected"

/-- `consumeStream` with `emit` and `onAbort`. -/
def consume (r : Download) : List ConsumeEvent → Download
  | [] => r
  | .ctxDone :: _ => { r with returned := true }
  | .abort :: _ => { r.onAbort with returned := true }
  | .frame frame writeErr :: events =>
    let r := r.emit frame writeErr
    if r.returned then r else r.consume events

end Download

def streamDownload (dispatchErr : Option GoError) (canFlush : Bool) (events : List ConsumeEvent) :
    Download :=
  match dispatchErr with
  | some err =>
    let response := mapDispatchError err
    { status := some response.status
      error := match response.body with
        | .error msg => some msg
        | _ => none
      returned := true }
  | none =>
    if canFlush then ({} : Download).consume events
    else { status := some 500, error := some "streaming unsupported", returned := true }

/-! ### What a finished download says -/

def framesOf (events : List ConsumeEvent) : List (StreamFrame AgentResult) :=
  events.filterMap fun
    | .frame frame _ => some frame
    | _ => none

def failed : List ConsumeEvent → Bool
  | [] => false
  | .ctxDone :: _ | .abort :: _ => true
  | .frame frame writeErr :: events =>
    if frame.final then frame.body.code ≠ 200 else writeErr || failed events

def startsWithChunk : List ConsumeEvent → Bool
  | .frame frame _ :: _ => !frame.final
  | _ => false

/-- A download that returned with status 200 wrote the whole file and did not fail. -/
def Intact (content : Bytes) (events : List ConsumeEvent) (r : Download) : Prop :=
  r.returned = true → r.status = some 200 → r.body = content ∧ failed events = false

namespace Download
variable {r : Download} {frame : StreamFrame AgentResult} {writeErr : Bool}
  {events : List ConsumeEvent}

structure Flowing (r : Download) : Prop where
  headerWritten : r.headerWritten = true
  status : r.status = some 200

theorem flowing_writeHeader (r : Download) (h : r.headerWritten = true → r.status = some 200) :
    r.writeHeader.Flowing := by
  unfold writeHeader
  split
  · next hw => exact ⟨hw, h hw⟩
  · exact ⟨rfl, rfl⟩

theorem Flowing.emit (h : r.Flowing) : (r.emit frame writeErr).Flowing := by
  have hheader := r.flowing_writeHeader fun _ => h.status
  unfold Download.emit
  split
  · split
    · next hrefused =>
      rw [h.headerWritten] at hrefused
      cases hrefused
    · exact ⟨hheader.headerWritten, hheader.status⟩
  · split <;> exact ⟨hheader.headerWritten, hheader.status⟩

theorem Flowing.consume (h : r.Flowing) (events : List ConsumeEvent) :
    (r.consume events).Flowing := by
  induction events generalizing r with
  | nil => exact h
  | cons event events ih =>
    match event with
    | .ctxDone => exact ⟨h.headerWritten, h.status⟩
    | .abort =>
      have habort : r.onAbort = r := if_pos h.headerWritten
      rw [Download.consume, habort]
      exact ⟨h.headerWritten, h.status⟩
    | .frame frame writeErr =>
      rw [Download.consume]
      split
      · exact h.emit
      · exact ih h.emit

theorem emit_chunk (writeErr : Bool) (hfinal : frame.final = false)
    (hflows : r.headerWritten = true → r.status = some 200) (hrun : r.returned = false) :
    (r.emit frame writeErr).Flowing ∧
      (r.emit frame writeErr).returned = writeErr ∧
      (writeErr = false → (r.emit frame writeErr).body = r.body ++ frame.body.payload) := by
  have hheader := r.flowing_writeHeader hflows
  have hreturned : r.writeHeader.returned = false := by
    unfold writeHeader
    split <;> exact hrun
  rw [emit, hfinal, if_neg Bool.false_ne_true]
  cases writeErr with
  | true => exact ⟨⟨hheader.headerWritten, hheader.status⟩, rfl, fun h => by cases h⟩
  | false => exact ⟨⟨hheader.headerWritten, hheader.status⟩, hreturned, fun _ => rfl⟩

theorem returned_emit_final (hfinal : frame.final = true) :
    (r.emit frame writeErr).returned = true := by
  rw [emit, if_pos hfinal]
  split <;> rfl

theorem returned_of_failed (hrun : r.returned = false)
    (hflows : r.headerWritten = true → r.status = some 200) (h : failed events = true) :
    (r.consume events).returned = true := by
  induction events generalizing r with
  | nil => cases h
  | cons event events ih =>
    match event with
    | .ctxDone | .abort => rfl
    | .frame frame writeErr =>
      rw [consume]
      split
      · next hreturned => exact hreturned
      · next hreturned =>
        cases hfinal : frame.final with
        | true => exact absurd (returned_emit_final hfinal) hreturned
        | false =>
          obtain ⟨hflowing, hret, -⟩ := emit_chunk writeErr hfinal hflows hrun
          rw [failed, hfinal, if_neg Bool.false_ne_true] at h
          have hrest : failed events = true := by
            rw [hret] at hreturned
            simpa [hreturned] using h
          exact ih (by simpa using hreturned) (fun _ => hflowing.status) hrest

theorem consume_succeeded (hflowing : r.Flowing) (hrun : r.returned = false)
    (hok : failed events = false) (hreturned : (r.consume events).returned = true) :
    ∃ chunks last rest, framesOf events = chunks ++ last :: rest ∧
      (∀ f ∈ chunks, f.final = false) ∧ last.final = true ∧ last.body.code = 200 ∧
      (r.consume events).body = r.body ++ (chunks.map fun f => f.body.payload).flatten := by
  induction events generalizing r with
  | nil => exact absurd (hrun.symm.trans hreturned) Bool.false_ne_true
  | cons event events ih =>
    match event with
    | .ctxDone | .abort => cases hok
    | .frame frame writeErr =>
      rw [consume] at hreturned ⊢
      cases hfinal : frame.final with
      | true =>
        rw [failed, if_pos hfinal, decide_eq_false_iff_not, not_not] at hok
        refine ⟨[], frame, framesOf events, rfl, fun _ h => (by cases h), hfinal, hok, ?_⟩
        rw [if_pos (returned_emit_final hfinal), emit, if_pos hfinal, hflowing.headerWritten]
        have hbody : r.writeHeader.body = r.body := by
          rw [writeHeader, if_pos hflowing.headerWritten]
        simpa using hbody
      | false =>
        rw [failed, hfinal, if_neg Bool.false_ne_true, Bool.or_eq_false_iff] at hok
        obtain ⟨rfl, hok⟩ := hok
        obtain ⟨hflowing', hret, hbody⟩ := emit_chunk false hfinal
          (fun _ => hflowing.status) hrun
        rw [hret, if_neg Bool.false_ne_true] at hreturned ⊢
        obtain ⟨chunks, last, rest, hframes, hchunks, hlast, hcode, heq⟩ :=
          ih hflowing' hret hok hreturned
        refine ⟨frame :: chunks, last, rest, ?_, ?_, hlast, hcode, ?_⟩
        · show frame :: framesOf events = _
          rw [hframes]
          rfl
        · rintro f (_ | ⟨_, hf⟩)
          · exact hfinal
          · exact hchunks f hf
        · rw [heq, hbody rfl, List.map_cons, List.flatten_cons, List.append_assoc]

end Download

theorem eq_of_final {run : ReadRun} {l rest : List (StreamFrame AgentResult)}
    {last : StreamFrame AgentResult} (hl : ∀ f ∈ l, f.final = false) (hlast : last.final = true)
    (h : l ++ last :: rest <+: readFrames run) :
    l = run.chunks.map (fun chunk => ⟨{ payload := chunk }, false⟩) ∧
      run.outcome = some (last.body.code, last.body.error) := by
  obtain ⟨chunks, outcome⟩ := run
  simp only [readFrames] at h ⊢
  induction l generalizing chunks with
  | nil =>
    cases chunks with
    | nil =>
      cases outcome with
      | none => exact absurd (List.prefix_nil.mp h) (List.cons_ne_nil _ _)
      | some outcome =>
        obtain ⟨rfl, -⟩ := List.cons_prefix_cons.mp h
        exact ⟨rfl, rfl⟩
    | cons chunk chunks =>
      obtain ⟨rfl, -⟩ := List.cons_prefix_cons.mp h
      cases hlast
  | cons f l ih =>
    cases chunks with
    | nil =>
      cases outcome with
      | none => exact absurd (List.prefix_nil.mp h) (List.cons_ne_nil _ _)
      | some outcome =>
        obtain ⟨-, h⟩ := List.cons_prefix_cons.mp h
        exact absurd (List.prefix_nil.mp h) (by simp)
    | cons chunk chunks =>
      obtain ⟨rfl, hrest⟩ := List.cons_prefix_cons.mp h
      obtain ⟨rfl, houtcome⟩ := ih (fun f hf => hl f (List.mem_cons_of_mem _ hf)) chunks hrest
      exact ⟨rfl, houtcome⟩

section Intact
variable {setup : ReadSetup} {content : Bytes} {turns : List ReadTurn} {events : List ConsumeEvent}

theorem chunks_of_success {l rest : List (StreamFrame AgentResult)}
    {last : StreamFrame AgentResult} (hl : ∀ f ∈ l, f.final = false) (hlast : last.final = true)
    (h : l ++ last :: rest <+: readFrames (readFile setup content turns)) :
    last.body.code ≠ 0 ∧
      (last.body.code = 200 → (l.map fun f => f.body.payload).flatten = content) := by
  obtain ⟨rfl, houtcome⟩ := eq_of_final hl hlast h
  obtain ⟨hne, hall⟩ := (Agent.readFile_of setup content turns).code _ _ houtcome
  refine ⟨hne, fun h200 => ?_⟩
  rw [List.map_map]
  exact (congrArg List.flatten (List.map_id _)).trans (hall h200)

theorem intact_of_not_startsWithChunk
    (h : framesOf events <+: readFrames (readFile setup content turns))
    (hstart : startsWithChunk events = false) :
    Intact content events (({} : Download).consume events) := by
  intro hreturned hstatus
  match events with
  | [] => cases hreturned
  | .ctxDone :: events => cases hstatus
  | .abort :: events => cases hstatus
  | .frame frame writeErr :: events =>
    have hfinal : frame.final = true := by simpa [startsWithChunk] using hstart
    obtain ⟨hne, hall⟩ := chunks_of_success (l := []) (fun _ hf => by cases hf) hfinal h
    have h200 : frame.body.code = 200 := by
      by_contra h200
      simp [Download.consume, Download.emit, Download.json, hfinal, hne, h200] at hstatus
    have hcontent : [] = content := hall h200
    simp [Download.consume, Download.emit, Download.writeHeader, failed, hfinal, h200, ← hcontent]

theorem intact_of_not_failed (h : framesOf events <+: readFrames (readFile setup content turns))
    (hstart : startsWithChunk events = true) (hok : failed events = false) :
    Intact content events (({} : Download).consume events) := by
  intro hreturned _
  refine ⟨?_, hok⟩
  match events with
  | .frame frame writeErr :: events =>
    have hfinal : frame.final = false := by simpa [startsWithChunk] using hstart
    rw [failed, hfinal, if_neg Bool.false_ne_true, Bool.or_eq_false_iff] at hok
    obtain ⟨rfl, hok⟩ := hok
    obtain ⟨hflowing, hrun, hbody⟩ :=
      Download.emit_chunk (r := {}) false hfinal (fun h => by cases h) rfl
    rw [Download.consume, hrun, if_neg Bool.false_ne_true] at hreturned ⊢
    obtain ⟨chunks, last, rest, hframes, hchunks, hlast, hcode, heq⟩ :=
      Download.consume_succeeded hflowing hrun hok hreturned
    rw [heq, hbody rfl]
    have hall : framesOf (.frame frame false :: events) = (frame :: chunks) ++ last :: rest :=
      congrArg (frame :: ·) hframes
    rw [hall] at h
    refine (chunks_of_success (fun f hf => ?_) hlast h).2 hcode
    obtain _ | ⟨_, hf⟩ := hf
    · exact hfinal
    · exact hchunks f hf

theorem status_of_failed (hstart : startsWithChunk events = true) (hfailed : failed events = true) :
    (({} : Download).consume events).returned = true ∧
      (({} : Download).consume events).status = some 200 := by
  refine ⟨Download.returned_of_failed rfl (fun h => by cases h) hfailed, ?_⟩
  match events with
  | .frame frame writeErr :: events =>
    have hfinal : frame.final = false := by simpa [startsWithChunk] using hstart
    obtain ⟨hflowing, -, -⟩ :=
      Download.emit_chunk (r := {}) writeErr hfinal (fun h => by cases h) rfl
    rw [Download.consume]
    split
    · exact hflowing.status
    · exact (hflowing.consume events).status

theorem intact_refused {r : Download} (h : r.status ≠ some 200) : Intact content events r :=
  fun _ hstatus => absurd hstatus h

theorem mapDispatchError_status (err : GoError) : (mapDispatchError err).status ≠ 200 := by
  unfold mapDispatchError
  split_ifs <;> decide

/-- A download is intact unless it fails after its first chunk. -/
theorem streamDownload_intact_iff {agentId : String} {ls : List (StreamLabel AgentResult)}
    {s : StreamLink AgentResult} {d : Nat} {k : StreamConsumer AgentResult}
    {call : Call AgentResult} (h : Lts.AnyRun StreamLink.step (.init agentId) ls s)
    (hseq : ls.countP StreamLink.numbers < UInt64.size)
    (hk : s.consumers[d]? = some (some k)) (hcall : s.conn.calls[d]? = some call)
    (hmethod : k.method = "fs.read")
    (hsent : s.sentFor call.requestId <+: readFrames (readFile setup content turns))
    (hevents : framesOf events = k.passed) (dispatchErr : Option GoError) (canFlush : Bool) :
    Intact content events (streamDownload dispatchErr canFlush events) ↔
      (dispatchErr = none → canFlush = true → startsWithChunk events = true →
        failed events = false) := by
  have hpassed : framesOf events <+: readFrames (readFile setup content turns) := by
    rw [hevents]
    exact ((StreamLink.inv_of_run h hseq).passed_isPrefix hk hcall (by rw [hmethod]; rfl)).trans
      hsent
  constructor
  · rintro hintact rfl rfl hstart
    by_contra hfailed
    obtain ⟨hreturned, hstatus⟩ := status_of_failed hstart (eq_true_of_ne_false hfailed)
    exact hfailed (hintact hreturned hstatus).2
  · intro hcond
    cases dispatchErr with
    | some err => exact intact_refused fun he => mapDispatchError_status err (Option.some.inj he)
    | none =>
      cases canFlush with
      | false => exact intact_refused fun he => absurd (Option.some.inj he) (by decide)
      | true =>
        cases hstart : startsWithChunk events with
        | true => exact intact_of_not_failed hpassed hstart (hcond rfl rfl hstart)
        | false => exact intact_of_not_startsWithChunk hpassed hstart

def wholeFile : List (StreamLabel AgentResult) := [.dispatchStream "fs.read" false,
  .conn (.call 0 .register), .conn (.call 0 (.send none)),
  .reply (.progress "1" { payload := [1] }), .receive, .conn .put, .consume 0 (.frame false),
  .reply (.progress "1" { payload := [2] }), .receive, .conn .put,
  .reply (.progress "1" { payload := [3] }), .receive, .conn .put,
  .reply (.result "1" { code := 200 }), .receive, .conn .put, .consume 0 (.frame false),
  .consume 0 (.frame false), .consume 0 (.frame false)]

def wholeFileEvents : List ConsumeEvent :=
  [.frame ⟨{ payload := [1] }, false⟩ false, .frame ⟨{ payload := [2] }, false⟩ false,
    .frame ⟨{ payload := [3] }, false⟩ false, .frame ⟨{ code := 200 }, true⟩ false]

theorem streamDownload_intact_iff_wholeFile :
    Intact [1, 2, 3] wholeFileEvents (streamDownload none true wholeFileEvents) ∧
      (streamDownload none true wholeFileEvents).body = [1, 2, 3] := by
  let s := (Lts.exec StreamLink.step (.init "a") wholeFile).get (by decide +kernel)
  have hrun := Lts.anyRun_of_exec (t := s) (Option.some_get _).symm
  have hk : ((s.consumers[0]?).join).isSome = true := by decide +kernel
  have hcall : (s.conn.calls[0]?).isSome = true := by decide +kernel
  have hpassed : ((s.consumers[0]?).join).all (fun k => k.method = "fs.read" &&
      framesOf wholeFileEvents = k.passed) = true := by decide +kernel
  have hsent : (s.conn.calls[0]?).all (fun call => s.sentFor call.requestId =
      readFrames (readFile {} [1, 2, 3] [⟨1, none, none, none⟩, ⟨1, none, none, none⟩,
        ⟨1, none, none, none⟩, ⟨1, none, none, none⟩])) = true := by decide +kernel
  obtain ⟨k, hk⟩ := Option.isSome_iff_exists.mp hk
  obtain ⟨call, hcall⟩ := Option.isSome_iff_exists.mp hcall
  rw [hk, Option.all_some, Bool.and_eq_true, decide_eq_true_iff, decide_eq_true_iff] at hpassed
  rw [hcall, Option.all_some, decide_eq_true_iff] at hsent
  have hiff := streamDownload_intact_iff hrun (by decide) (Option.join_eq_some_iff.mp hk) hcall
    hpassed.1 ⟨[], by rw [List.append_nil, hsent]⟩ hpassed.2 none true
  exact ⟨hiff.mpr fun _ _ _ => by decide, by decide⟩

/-- The agent fails to read on after the first byte: the client is given that byte, status 200 and
a body that ends like any other. -/
theorem streamDownload_truncated :
    let turns : List ReadTurn := [⟨1, none, none, none⟩,
      ⟨0, none, some ⟨.new "input/output error", by decide⟩, none⟩]
    let events : List ConsumeEvent :=
      [.frame ⟨{ payload := [1] }, false⟩ false,
        .frame ⟨{ code := 500, error := "input/output error" }, true⟩ false]
    readFrames (readFile {} [1, 2, 3] turns) = framesOf events ∧
      streamDownload none true events =
        { headerWritten := true, status := some 200, body := [1], returned := true } ∧
      ¬Intact [1, 2, 3] events (streamDownload none true events) := by
  refine ⟨by decide +kernel, by decide, fun hintact => ?_⟩
  exact absurd (hintact (by decide) (by decide)).2 (by decide)

end Intact

end Hostlink.Controller
