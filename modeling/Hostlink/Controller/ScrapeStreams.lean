import Hostlink.Controller.Metrics

/-! What a scrape adds to the merger, exporter by exporter: each frame with `done` completes the
exposition of its exporter. -/

namespace Hostlink.Controller
open Agent (Bytes MetricsFrame)

/-- The chunks that came for an exporter since its exposition was last completed; the latest frame
comes first. -/
def buffered (exporter : String) : List MetricsFrame → Option Bytes
  | [] => none
  | mf :: seen =>
    if mf.exporter ≠ exporter then buffered exporter seen
    else if mf.done then none
    else if mf.chunk = [] then buffered exporter seen
    else some ((buffered exporter seen).getD [] ++ mf.chunk)

structure Completion where
  exporter : String
  failed : Bool
  body : Option Bytes
  deriving DecidableEq, Repr

def completion (seen : List MetricsFrame) (mf : MetricsFrame) : List Completion :=
  if mf.done then [⟨mf.exporter, mf.error ≠ "", buffered mf.exporter seen⟩] else []

def completions (seen : List MetricsFrame) : List ScrapeFrame → List Completion
  | [] => []
  | frame :: frames =>
    if frame.final then []
    else match frame.payload with
      | none => completions seen frames
      | some mf => completion seen mf ++ completions (mf :: seen) frames

namespace Completion
variable (parser : TextParser)

/-- The families of the exposition; none if it cannot be read or the exporter failed. -/
def parsed (c : Completion) : List MetricFamily :=
  if c.failed then [] else ((c.body.bind parser.families).getD [])

def up (c : Completion) : Bool :=
  !c.failed && (c.body.map fun body => (parser.families body).isSome).getD true

def labels (agentId : String) (c : Completion) : List LabelPair :=
  [⟨metricLabelAgent, agentId⟩, ⟨metricLabelExporter, c.exporter⟩]

def targetUp (agentId : String) (c : Completion) : MetricFamily :=
  gaugeFamily metricTargetUp "1 if the agent scraped this exporter successfully, 0 otherwise."
    (upValue (c.up parser)) (c.labels agentId)

def items (agentId : String) (c : Completion) : List MetricFamily :=
  (c.parsed parser).map (injectLabels (c.labels agentId)) ++ [c.targetUp parser agentId]

variable {parser}

theorem exists_of_mem_parsed {c : Completion} {fam : MetricFamily} (h : fam ∈ c.parsed parser) :
    ∃ body, parser.families body = some (c.parsed parser) := by
  unfold parsed at h ⊢
  split at h
  · cases h
  · next hfailed =>
    rw [if_neg hfailed]
    cases hfams : c.body.bind parser.families with
    | none =>
      rw [hfams] at h
      cases h
    | some fams =>
      obtain ⟨body, -, hbody⟩ := Option.bind_eq_some_iff.mp hfams
      exact ⟨body, hbody⟩

theorem metrics_ne_nil {c : Completion} {fam : MetricFamily} (h : fam ∈ c.parsed parser) :
    fam.metrics ≠ [] := by
  obtain ⟨body, hbody⟩ := exists_of_mem_parsed h
  exact parser.nonempty hbody fam h

end Completion

namespace ScrapedAgent

def frames (agent : ScrapedAgent) : List ScrapeFrame := agent.stream.getD []

def completed (agent : ScrapedAgent) : List Completion := completions [] agent.frames

def succeeded (agent : ScrapedAgent) : Bool :=
  (agent.frames.find? (·.final)).any fun frame => frame.code = 200

end ScrapedAgent

namespace ScrapeAccumulator
variable {parser : TextParser} {acc : ScrapeAccumulator} {seen : List MetricsFrame}

def Buffers (acc : ScrapeAccumulator) (seen : List MetricsFrame) : Prop :=
  ∀ exporter, acc.buffers.get exporter = buffered exporter seen

structure After (parser : TextParser) (acc acc' : ScrapeAccumulator) (done : List Completion) :
    Prop where
  agentId : acc'.agentId = acc.agentId
  completed : acc'.completed = acc.completed
  added : acc'.added.flatten = acc.added.flatten ++ done.flatMap (Completion.items parser acc.agentId)

theorem after_targetUp {acc' : ScrapeAccumulator} (c : Completion) (batch : List MetricFamily)
    (hid : acc'.agentId = acc.agentId) (hcompleted : acc'.completed = acc.completed)
    (hadded : acc'.added.flatten = acc.added.flatten ++ batch)
    (hbatch : batch = (c.parsed parser).map (injectLabels (c.labels acc.agentId))) :
    After parser acc (acc'.targetUp c.exporter (c.up parser)) [c] := by
  refine ⟨hid, hcompleted, ?_⟩
  show (acc'.added ++ [[_]]).flatten = _
  rw [List.flatten_append, hadded, hbatch, List.flatMap_singleton, Completion.items,
    List.append_assoc, Completion.targetUp, constLabels, hid]
  rfl

theorem ingest_added (parser : TextParser) (h : acc.Buffers seen) (mf : MetricsFrame) :
    After parser acc (acc.ingest parser mf) (completion seen mf) := by
  unfold ingest completion
  cases hdone : mf.done with
  | false =>
    rw [if_pos Bool.false_ne_true, if_neg Bool.false_ne_true]
    split
    · exact ⟨rfl, rfl, (List.append_nil _).symm⟩
    · exact ⟨rfl, rfl, (List.append_nil _).symm⟩
  | true =>
    rw [if_neg (not_not.mpr rfl), if_pos rfl, ← h mf.exporter]
    have hplain := (List.append_nil acc.added.flatten).symm
    split
    · next herr =>
      rw [decide_eq_true herr]
      exact after_targetUp ⟨mf.exporter, true, acc.buffers.get mf.exporter⟩ [] rfl rfl hplain rfl
    · next herr =>
      rw [decide_eq_false herr]
      cases hbuf : acc.buffers.get mf.exporter with
      | none => exact after_targetUp ⟨mf.exporter, false, none⟩ [] rfl rfl hplain rfl
      | some body =>
        let c : Completion := ⟨mf.exporter, false, some body⟩
        have hup : c.up parser = (parser.families body).isSome := rfl
        have hparsed : c.parsed parser = (parser.families body).getD [] := rfl
        simp only [foldBody]
        cases hfams : parser.families body with
        | none =>
          rw [hfams] at hup hparsed
          show After parser acc (targetUp _ c.exporter false) [c]
          rw [← Option.isSome_none (α := List MetricFamily), ← hup]
          exact after_targetUp c [] rfl rfl hplain (by rw [hparsed]; rfl)
        | some fams =>
          rw [hfams] at hup hparsed
          show After parser acc (targetUp _ c.exporter true) [c]
          rw [← Option.isSome_some (a := fams), ← hup]
          refine after_targetUp c (fams.map (injectLabels (c.labels acc.agentId))) rfl rfl ?_ ?_
          · show (acc.added ++ [_]).flatten = _
            rw [List.flatten_append, List.flatten_singleton]
            rfl
          · rw [hparsed]
            rfl

theorem buffers_of_done {mf : MetricsFrame} (hdone : mf.done = true) :
    (acc.ingest parser mf).buffers = acc.buffers.erase mf.exporter := by
  unfold ingest
  rw [if_neg (not_not.mpr hdone)]
  split
  · rfl
  · cases acc.buffers.get mf.exporter with
    | none => rfl
    | some body =>
      simp only [foldBody]
      cases parser.families body <;> rfl

theorem ingest_buffers (h : acc.Buffers seen) (mf : MetricsFrame) :
    (acc.ingest parser mf).Buffers (mf :: seen) := by
  intro exporter
  cases hdone : mf.done with
  | false =>
    unfold ingest
    rw [buffered, hdone, if_pos Bool.false_ne_true, if_neg Bool.false_ne_true]
    split
    · rw [h exporter, ite_self]
    · split
      · next hne => exact (GoMap.get_insert_of_ne _ (Ne.symm hne) _).trans (h exporter)
      · next heq =>
        obtain rfl := not_not.mp heq
        rw [← h mf.exporter]
        exact GoMap.get_insert_self ..
  | true =>
    rw [buffers_of_done hdone, buffered, hdone, if_pos rfl]
    split
    · next hne => exact (GoMap.get_erase_of_ne _ (Ne.symm hne)).trans (h exporter)
    · next heq =>
      obtain rfl := not_not.mp heq
      exact GoMap.get_erase_self ..

theorem consume_added (frames : List ScrapeFrame) (h : acc.Buffers seen) :
    (acc.consume parser frames).added.flatten = acc.added.flatten ++
      (completions seen frames).flatMap (Completion.items parser acc.agentId) := by
  induction frames generalizing acc seen with
  | nil => exact (List.append_nil _).symm
  | cons frame frames ih =>
    unfold consume completions onFrame
    by_cases hfinal : frame.final
    · rw [if_pos hfinal, if_pos hfinal]
      simp only [if_true]
      split <;> exact (List.append_nil _).symm
    · rw [if_neg hfinal, if_neg hfinal]
      cases hpayload : frame.payload with
      | none => exact ih h
      | some mf =>
        have hafter := ingest_added parser h mf
        show ((acc.ingest parser mf).consume parser frames).added.flatten = _
        rw [ih (ingest_buffers h mf), hafter.added, hafter.agentId, List.append_assoc,
          ← List.flatMap_append]

theorem consume_completed (frames : List ScrapeFrame) (h : acc.Buffers seen)
    (hcompleted : acc.completed = false) : (acc.consume parser frames).completed =
      (frames.find? (·.final)).any fun frame => frame.code = 200 := by
  induction frames generalizing acc seen with
  | nil => exact hcompleted
  | cons frame frames ih =>
    unfold consume onFrame
    by_cases hfinal : frame.final
    · rw [if_pos hfinal, List.find?_cons_of_pos hfinal]
      simp only [if_true]
      split
      · next hcode => exact (decide_eq_true hcode).symm
      · next hcode => exact hcompleted.trans (decide_eq_false hcode).symm
    · rw [if_neg hfinal, List.find?_cons_of_neg hfinal]
      cases hpayload : frame.payload with
      | none => exact ih h hcompleted
      | some mf =>
        have hafter := ingest_added parser h mf
        exact ih (ingest_buffers h mf) (hafter.completed.trans hcompleted)

end ScrapeAccumulator

theorem flatten_scrapeAgent (parser : TextParser) (agent : ScrapedAgent) :
    (scrapeAgent parser agent).flatten =
      agent.completed.flatMap (Completion.items parser agent.id) ++
        [agentUpFamily agent.id agent.succeeded] := by
  have hstart : ScrapeAccumulator.Buffers { agentId := agent.id } [] := fun _ => rfl
  unfold scrapeAgent ScrapedAgent.completed ScrapedAgent.succeeded ScrapedAgent.frames
  cases agent.stream with
  | none => rfl
  | some frames =>
    simp only [List.flatten_append, ScrapeAccumulator.consume_added frames hstart,
      ScrapeAccumulator.consume_completed frames hstart rfl, Option.getD_some]
    rfl

end Hostlink.Controller
