import Hostlink.Controller.MergedSeries

/-! A scrape from the exporter's reads to `foldBody`: the body arrives as it was read, or not at all. -/

namespace Hostlink.Agent

def bodyOf : List BodyRead → Bytes
  | [] => []
  | read :: reads => read.data ++ if read.err.isSome then [] else bodyOf reads

def readErr : List BodyRead → Option GoError
  | [] => none
  | read :: reads => read.err.or (readErr reads)

namespace Fetch

/-- The body of a response with status 200 that was read to EOF and is at most 16 MiB long. -/
def exposition : Fetch → Option Bytes
  | .response status reads =>
    if status = 200 ∧ (readErr reads).any (·.is .eof) ∧ (bodyOf reads).length ≤ scrapeMaxBodySize then
      some (bodyOf reads)
    else none
  | .requestErr _ | .doErr _ => none

def Completes : Fetch → Prop
  | .response _ reads => (∀ read ∈ reads, read.ctxErr = false) ∧
      ((readErr reads).isSome ∨ scrapeMaxBodySize < (bodyOf reads).length)
  | .requestErr _ | .doErr _ => True

def ErrorsHaveText : Fetch → Prop
  | .response _ reads => ∀ read ∈ reads, ∀ err, read.err = some err → err.text ≠ ""
  | .requestErr err | .doErr err => err.text ≠ ""

end Fetch

structure TargetTurn.Completes (turn : TargetTurn) : Prop where
  ctx : turn.ctxErr = false
  fetch : turn.fetch.Completes
  texts : turn.fetch.ErrorsHaveText

end Hostlink.Agent

namespace Hostlink.Controller
open Agent (BodyRead Bytes Fetch MetricsFrame ScrapeTarget TargetTurn bodyOf readErr scrapeMaxBodySize)

namespace ScrapeAccumulator

def foldCall (acc : ScrapeAccumulator) (mf : MetricsFrame) : Option (String × Bytes) :=
  if mf.done ∧ mf.error = "" then (acc.buffers.get mf.exporter).map fun body => (mf.exporter, body)
  else none

theorem ingest_of_done (parser : TextParser) (acc : ScrapeAccumulator) {mf : MetricsFrame}
    (h : mf.done = true) :
    acc.ingest parser mf =
      let acc' := { acc with buffers := acc.buffers.erase mf.exporter }
      match acc.foldCall mf with
      | some (exporter, body) =>
        let r := acc'.foldBody parser body (acc'.constLabels exporter)
        r.1.targetUp exporter r.2
      | none => acc'.targetUp mf.exporter (mf.error = "") := by
  unfold ingest foldCall
  by_cases herr : mf.error = ""
  · cases hbuf : acc.buffers.get mf.exporter <;> simp [h, herr]
  · simp [h, herr]

def foldCalls (parser : TextParser) (acc : ScrapeAccumulator) : List ScrapeFrame → List (String × Bytes)
  | [] => []
  | frame :: frames =>
    let r := acc.onFrame parser frame
    if r.2 then []
    else (frame.payload.bind acc.foldCall).toList ++ foldCalls parser r.1 frames

end ScrapeAccumulator

def Completion.call (c : Completion) : Option (String × Bytes) :=
  if c.failed then none else c.body.map fun body => (c.exporter, body)

namespace ScrapeAccumulator
variable {parser : TextParser} {acc : ScrapeAccumulator} {seen : List MetricsFrame}

theorem foldCall_eq (h : acc.Buffers seen) (mf : MetricsFrame) :
    (acc.foldCall mf).toList = (completion seen mf).filterMap Completion.call := by
  unfold foldCall completion
  rw [h mf.exporter]
  cases hdone : mf.done with
  | false => rfl
  | true =>
    by_cases herr : mf.error = ""
    · cases hbuf : buffered mf.exporter seen <;> simp [herr, Completion.call]
    · simp [herr, Completion.call]

theorem foldCalls_eq (frames : List ScrapeFrame) (h : acc.Buffers seen) :
    acc.foldCalls parser frames = (completions seen frames).filterMap Completion.call := by
  induction frames generalizing acc seen with
  | nil => rfl
  | cons frame frames ih =>
    unfold foldCalls completions onFrame
    by_cases hfinal : frame.final
    · rw [if_pos hfinal, if_pos hfinal]
      rfl
    · rw [if_neg hfinal, if_neg hfinal]
      cases hpayload : frame.payload with
      | none => exact ih h
      | some mf =>
        show (acc.foldCall mf).toList ++ (acc.ingest parser mf).foldCalls parser frames = _
        rw [foldCall_eq h, ih (ingest_buffers h mf), List.filterMap_append]

end ScrapeAccumulator

/-! ### The frames of a target -/

def progress (frames : List MetricsFrame) : List ScrapeFrame := frames.map fun mf => { payload := some mf }

theorem completions_progress (seen frames : List MetricsFrame) (rest : List ScrapeFrame) :
    completions seen (progress frames ++ rest) =
      completions seen (progress frames) ++ completions (frames.reverse ++ seen) rest := by
  induction frames generalizing seen with
  | nil => rfl
  | cons mf frames ih =>
    show completion seen mf ++ completions (mf :: seen) (progress frames ++ rest) =
      completion seen mf ++ completions (mf :: seen) (progress frames) ++ _
    rw [ih, List.append_assoc, List.reverse_cons, List.append_assoc]
    rfl

structure Finishes (exporter : String) (seen frames : List MetricsFrame) (c : Completion) : Prop where
  completes : completions seen (progress frames) = [c]
  own : buffered exporter (frames.reverse ++ seen) = none
  others : ∀ other, other ≠ exporter →
    buffered other (frames.reverse ++ seen) = buffered other seen

theorem finishes_done (exporter error : String) (seen : List MetricsFrame) :
    Finishes exporter seen [{ exporter := exporter, done := true, error := error }]
      ⟨exporter, error ≠ "", buffered exporter seen⟩ := by
  refine ⟨rfl, ?_, fun other hne => ?_⟩
  · show buffered exporter ({ exporter := exporter, done := true, error := error } :: seen) = none
    simp [buffered]
  · show buffered other ({ exporter := exporter, done := true, error := error } :: seen) = _
    simp [buffered, hne.symm]

theorem Finishes.chunk {exporter : String} {seen frames : List MetricsFrame} {c : Completion}
    {chunk : Bytes} (h : Finishes exporter ({ exporter := exporter, chunk := chunk } :: seen) frames c) :
    Finishes exporter seen ({ exporter := exporter, chunk := chunk } :: frames) c := by
  have hrev : ({ exporter := exporter, chunk := chunk } :: frames : List MetricsFrame).reverse ++ seen =
      frames.reverse ++ { exporter := exporter, chunk := chunk } :: seen := by
    rw [List.reverse_cons, List.append_assoc]
    rfl
  refine ⟨h.completes, hrev ▸ h.own, fun other hne => ?_⟩
  rw [hrev, h.others other hne]
  simp [buffered, hne.symm]

def bufferOf (body : Bytes) : Option Bytes := if body = [] then none else some body

theorem buffered_chunk {exporter : String} {seen : List MetricsFrame} {body chunk : Bytes}
    (h : buffered exporter seen = bufferOf body) (hchunk : chunk ≠ []) :
    buffered exporter ({ exporter := exporter, chunk := chunk } :: seen) = bufferOf (body ++ chunk) := by
  have hne : body ++ chunk ≠ [] := fun hnil => hchunk (List.append_eq_nil_iff.mp hnil).2
  rw [bufferOf, if_neg hne]
  simp only [buffered, h, bufferOf, hchunk]
  by_cases hbody : body = []
  · simp [hbody]
  · simp [hbody]

structure Delivers (exporter : String) (exposition : Option Bytes) (c : Completion) : Prop where
  exporter : c.exporter = exporter
  failed : c.failed = exposition.isNone
  body : ∀ body, exposition = some body → c.body = bufferOf body

def expositionFrom (body : Bytes) (reads : List BodyRead) : Option Bytes :=
  if (readErr reads).any (·.is .eof) ∧ (body ++ bodyOf reads).length ≤ scrapeMaxBodySize then
    some (body ++ bodyOf reads)
  else none

theorem expositionFrom_of_lt {body : Bytes} {reads : List BodyRead}
    (h : scrapeMaxBodySize < (body ++ bodyOf reads).length) : expositionFrom body reads = none :=
  if_neg fun hn => absurd hn.2 (Nat.not_le.mpr h)

theorem expositionFrom_cons {body : Bytes} {read : BodyRead} {reads : List BodyRead}
    (h : read.err = none) :
    expositionFrom body (read :: reads) = expositionFrom (body ++ read.data) reads := by
  simp [expositionFrom, readErr, bodyOf, h]

theorem delivers_last {exporter : String} {seen : List MetricsFrame} {body : Bytes} {read : BodyRead}
    {err : GoError} (reads : List BodyRead) (herr : read.err = some err) (htext : err.text ≠ "")
    (hbuf : buffered exporter seen = bufferOf (body ++ read.data))
    (hsize : (body ++ read.data).length ≤ scrapeMaxBodySize) :
    Delivers exporter (expositionFrom body (read :: reads))
      ⟨exporter, (if err.is .eof then "" else err.text) ≠ "", buffered exporter seen⟩ := by
  cases heof : err.is .eof with
  | true =>
    have hexp : expositionFrom body (read :: reads) = some (body ++ read.data) := by
      simpa [expositionFrom, readErr, bodyOf, herr, heof] using hsize
    rw [hexp]
    refine ⟨rfl, by simp, fun body' hbody => ?_⟩
    rw [← Option.some.inj hbody]
    exact hbuf
  | false =>
    have hexp : expositionFrom body (read :: reads) = none := by
      simp [expositionFrom, readErr, herr, heof]
    rw [hexp]
    refine ⟨rfl, by simp [htext], ?_⟩
    rintro body' ⟨⟩

theorem streamBody_delivers {exporter : String} {reads : List BodyRead} (seen : List MetricsFrame)
    (body : Bytes) (hbuf : buffered exporter seen = bufferOf body)
    (hsize : body.length ≤ scrapeMaxBodySize) (hctx : ∀ read ∈ reads, read.ctxErr = false)
    (htext : ∀ read ∈ reads, ∀ err, read.err = some err → err.text ≠ "")
    (hend : (readErr reads).isSome ∨ scrapeMaxBodySize < (body ++ bodyOf reads).length) :
    (Agent.streamBody exporter body.length reads).2 = false ∧
      ∃ c, Finishes exporter seen (Agent.streamBody exporter body.length reads).1 c ∧
        Delivers exporter (expositionFrom body reads) c := by
  induction reads generalizing seen body with
  | nil =>
    rw [bodyOf, List.append_nil] at hend
    exact absurd hend (not_or.mpr ⟨Bool.false_ne_true, Nat.not_lt.mpr hsize⟩)
  | cons read reads ih =>
    have hlen : body.length + read.data.length = (body ++ read.data).length := List.length_append.symm
    rw [Agent.streamBody, hlen]
    by_cases hover : read.data ≠ [] ∧ (body ++ read.data).length > scrapeMaxBodySize
    · simp only [if_pos hover, true_and]
      have hnone : expositionFrom body (read :: reads) = none := by
        apply expositionFrom_of_lt
        rw [bodyOf, ← List.append_assoc, List.length_append]
        exact Nat.lt_of_lt_of_le hover.2 (Nat.le_add_right _ _)
      rw [hnone]
      refine ⟨_, finishes_done exporter _ seen, rfl, rfl, ?_⟩
      rintro body' ⟨⟩
    · have hsize' : (body ++ read.data).length ≤ scrapeMaxBodySize := by
        by_contra hlt
        by_cases hdata : read.data = []
        · rw [hdata, List.append_nil] at hlt
          exact hlt hsize
        · exact hover ⟨hdata, Nat.not_le.mp hlt⟩
      rw [if_neg hover]
      -- the read's chunk, if any, only extends what is seen
      obtain ⟨chunk, hchunk, seen', hbuf', hback⟩ : ∃ chunk : List MetricsFrame,
          (if read.data ≠ [] then [{ exporter := exporter, chunk := read.data }] else []) = chunk ∧
          ∃ seen', buffered exporter seen' = bufferOf (body ++ read.data) ∧
            ∀ frames c, Finishes exporter seen' frames c → Finishes exporter seen (chunk ++ frames) c := by
        by_cases hdata : read.data = []
        · refine ⟨[], if_neg (not_not.mpr hdata), seen, ?_, fun _ _ h => h⟩
          rw [hdata, List.append_nil, hbuf]
        · exact ⟨_, if_pos hdata, _, buffered_chunk hbuf hdata, fun _ _ h => h.chunk⟩
      simp only [hchunk]
      cases herr : read.err with
      | some err =>
        have hdelivers := delivers_last reads herr (htext read List.mem_cons_self err herr) hbuf' hsize'
        exact ⟨rfl, _, hback _ _ (finishes_done exporter _ seen'), hdelivers⟩
      | none =>
        have hend' : (readErr reads).isSome ∨
            scrapeMaxBodySize < (body ++ read.data ++ bodyOf reads).length := by
          simpa [readErr, bodyOf, herr, List.append_assoc] using hend
        obtain ⟨hdone, c, hfinishes, hdelivers⟩ := ih seen' (body ++ read.data) hbuf' hsize'
          (fun r hr => hctx r (List.mem_cons_of_mem _ hr))
          (fun r hr => htext r (List.mem_cons_of_mem _ hr)) hend'
        simp only [hctx read List.mem_cons_self, Bool.false_eq_true, if_false]
        rw [expositionFrom_cons herr]
        exact ⟨hdone, c, hback _ _ hfinishes, hdelivers⟩

theorem delivers_failure {exporter text : String} (htext : text ≠ "") (seen : List MetricsFrame) :
    Delivers exporter none ⟨exporter, text ≠ "", buffered exporter seen⟩ := by
  refine ⟨rfl, by simp [htext], ?_⟩
  rintro body ⟨⟩

theorem streamTarget_delivers {target : ScrapeTarget} {turn : TargetTurn} {seen : List MetricsFrame}
    (h : turn.Completes) (hseen : buffered target.name seen = none) :
    (Agent.streamTarget target turn.fetch).2 = false ∧
      ∃ c, Finishes target.name seen (Agent.streamTarget target turn.fetch).1 c ∧
        Delivers target.name turn.fetch.exposition c := by
  obtain ⟨-, hfetch, htexts⟩ := h
  generalize turn.fetch = fetch at hfetch htexts ⊢
  cases fetch with
  | requestErr err | doErr err => exact ⟨rfl, _, finishes_done .., delivers_failure htexts seen⟩
  | response status reads =>
    unfold Agent.streamTarget Fetch.exposition
    by_cases hstatus : status = 200
    · obtain ⟨hctx, hend⟩ := hfetch
      have hbody := streamBody_delivers seen [] hseen (Nat.zero_le _) hctx htexts hend
      simp only [hstatus, ne_eq, not_true, if_false, true_and]
      exact hbody
    · simp only [hstatus, ne_eq, not_false_eq_true, if_true, false_and, if_false, true_and]
      refine ⟨_, finishes_done .., delivers_failure ?_ seen⟩
      intro hempty
      have := congrArg String.length hempty
      simp [String.length_append] at this

/-! ### The whole stream -/

def Idle (seen : List MetricsFrame) : Prop := ∀ exporter, buffered exporter seen = none

theorem Finishes.idle {exporter : String} {seen frames : List MetricsFrame} {c : Completion}
    (h : Finishes exporter seen frames c) (hseen : Idle seen) : Idle (frames.reverse ++ seen) := by
  intro other
  rcases eq_or_ne other exporter with rfl | hne
  · exact h.own
  · rw [h.others other hne, hseen other]

theorem completions_handleScrape (turns : List (ScrapeTarget × TargetTurn)) {seen : List MetricsFrame}
    (h : ∀ p ∈ turns, p.2.Completes) (hseen : Idle seen) :
    List.Forall₂ (fun p c => Delivers p.1.name p.2.fetch.exposition c) turns
      (completions seen (handleScrape turns)) := by
  induction turns generalizing seen with
  | nil => exact .nil
  | cons p turns ih =>
    obtain ⟨target, turn⟩ := p
    have hturn : turn.Completes := h _ List.mem_cons_self
    obtain ⟨hgoesOn, c, hfinishes, hdelivers⟩ := streamTarget_delivers hturn (hseen target.name)
    have hframes : handleScrape ((target, turn) :: turns) =
        progress (Agent.streamTarget target turn.fetch).1 ++ handleScrape turns := by
      simp [handleScrape, progress, Agent.scrapeFrames, hturn.ctx, hgoesOn]
    rw [hframes, completions_progress, hfinishes.completes, List.singleton_append]
    exact .cons hdelivers (ih (fun q hq => h q (List.mem_cons_of_mem _ hq)) (hfinishes.idle hseen))

theorem map_eq_of_forall₂ {α β γ : Type} {R : α → β → Prop} {f : α → γ} {g : β → γ} {l : List α}
    {m : List β} (h : List.Forall₂ R l m) (heq : ∀ a b, R a b → f a = g b) : l.map f = m.map g := by
  induction h with
  | nil => rfl
  | cons hab _ ih => rw [List.map_cons, List.map_cons, heq _ _ hab, ih]

/-- The body that is folded for a target: the exposition, unless it is empty. -/
def foldedBody (fetch : Fetch) : Option Bytes :=
  fetch.exposition.bind fun body => if body = [] then none else some body

def targetUpOf (parser : TextParser) (fetch : Fetch) : Bool :=
  match fetch.exposition with
  | none => false
  | some body => body = [] || (parser.families body).isSome

def targetLabels (agentId : String) (target : ScrapeTarget) : List LabelPair :=
  [⟨metricLabelAgent, agentId⟩, ⟨metricLabelExporter, target.name⟩]

def targetFamilies (parser : TextParser) (agentId : String) (target : ScrapeTarget) (fetch : Fetch) :
    List MetricFamily :=
  (((foldedBody fetch).bind parser.families).getD []).map (injectLabels (targetLabels agentId target)) ++
    [gaugeFamily metricTargetUp "1 if the agent scraped this exporter successfully, 0 otherwise."
      (upValue (targetUpOf parser fetch)) (targetLabels agentId target)]

theorem Delivers.call_eq {target : ScrapeTarget} {fetch : Fetch} {c : Completion}
    (h : Delivers target.name fetch.exposition c) :
    (foldedBody fetch).map (fun body => (target.name, body)) = c.call := by
  unfold foldedBody Completion.call
  cases hexp : fetch.exposition with
  | none =>
    rw [h.failed, hexp]
    rfl
  | some body =>
    rw [h.failed, hexp, h.body body hexp, h.exporter]
    by_cases hbody : body = []
    · simp [hbody, bufferOf]
    · simp [hbody, bufferOf]

theorem Delivers.items_eq (parser : TextParser) (agentId : String) {target : ScrapeTarget}
    {fetch : Fetch} {c : Completion} (h : Delivers target.name fetch.exposition c) :
    targetFamilies parser agentId target fetch = c.items parser agentId := by
  have hup : targetUpOf parser fetch = c.up parser := by
    unfold targetUpOf Completion.up
    cases hexp : fetch.exposition with
    | none => simp [h.failed, hexp]
    | some body =>
      rw [h.failed, hexp, h.body body hexp]
      by_cases hbody : body = []
      · simp [hbody, bufferOf]
      · simp [hbody, bufferOf]
  have hparsed : ((foldedBody fetch).bind parser.families).getD [] = c.parsed parser := by
    unfold foldedBody Completion.parsed
    cases hexp : fetch.exposition with
    | none => simp [h.failed, hexp]
    | some body =>
      rw [h.failed, hexp, h.body body hexp]
      by_cases hbody : body = []
      · simp [hbody, bufferOf]
      · simp [hbody, bufferOf]
  rw [targetFamilies, Completion.items, Completion.targetUp, Completion.labels, hup, hparsed, h.exporter]
  rfl

/-- An uncancelled scrape folds the body of each target whole, or nothing of it, and records one gauge
for each target. -/
theorem scrape_reassembled (parser : TextParser) (agentId : String)
    (turns : List (ScrapeTarget × TargetTurn)) (h : ∀ p ∈ turns, p.2.Completes) :
    let acc : ScrapeAccumulator := { agentId := agentId }
    acc.foldCalls parser (handleScrape turns) =
        turns.filterMap (fun p => (foldedBody p.2.fetch).map fun body => (p.1.name, body)) ∧
      (acc.consume parser (handleScrape turns)).added.flatten =
        turns.flatMap fun p => targetFamilies parser agentId p.1 p.2.fetch := by
  have hbuffers : ScrapeAccumulator.Buffers { agentId := agentId } [] := fun _ => rfl
  have hidle : Idle [] := fun _ => rfl
  have hdone := completions_handleScrape turns h hidle
  refine ⟨?_, ?_⟩
  · have hcalls := map_eq_of_forall₂ hdone fun p c hc => hc.call_eq
    have hall := congrArg (List.filterMap id) hcalls
    rw [List.filterMap_map, List.filterMap_map] at hall
    rw [ScrapeAccumulator.foldCalls_eq _ hbuffers]
    exact hall.symm
  · have hitems := map_eq_of_forall₂ hdone fun p c hc => hc.items_eq parser agentId
    rw [ScrapeAccumulator.consume_added _ hbuffers, List.flatten_nil, List.nil_append,
      List.flatMap_def, List.flatMap_def, hitems]

def threeTargets : List (ScrapeTarget × TargetTurn) :=
  [(⟨"node", "http://127.0.0.1:9100/metrics", .tcp⟩,
      { fetch := .response 200 [⟨[117, 112], none, false⟩, ⟨[32, 49], some .eof, false⟩] }),
    (⟨"idle", "http://127.0.0.1:9101/metrics", .tcp⟩,
      { fetch := .response 200 [⟨[], some .eof, false⟩] }),
    (⟨"dcgm", "http://127.0.0.1:9400/metrics", .tcp⟩,
      { fetch := .response 200 [⟨[117, 112], none, false⟩, ⟨[], some (.new "reset by peer"), false⟩] })]

theorem threeTargets_complete : ∀ p ∈ threeTargets, p.2.Completes := by
  have hcomplete : ∀ p ∈ threeTargets, p.2.ctxErr = false ∧ p.2.fetch.Completes := by
    unfold threeTargets
    simp [Fetch.Completes, readErr]
  have htexts : ∀ p ∈ threeTargets, p.2.fetch.ErrorsHaveText := by
    unfold threeTargets
    simp [Fetch.ErrorsHaveText, GoError.text, GoError.eof]
  exact fun p hp => ⟨(hcomplete p hp).1, (hcomplete p hp).2, htexts p hp⟩

theorem scrape_reassembled_three :
    (∀ p ∈ threeTargets, p.2.Completes) ∧
      ({ agentId := "node-1" } : ScrapeAccumulator).foldCalls lineParser (handleScrape threeTargets) =
        [("node", [117, 112, 32, 49])] ∧
      threeTargets.map (fun p => targetUpOf lineParser p.2.fetch) = [true, true, false] := by
  refine ⟨threeTargets_complete, ?_, by decide +kernel⟩
  rw [(scrape_reassembled lineParser "node-1" threeTargets threeTargets_complete).1]
  decide +kernel

end Hostlink.Controller
