import Mathlib.Data.List.Flatten
import Hostlink.Controller.AgentUp
import Hostlink.Controller.FamilyMerge

/-! Series of different exporters are told apart by their labels `agent` and `exporter`. -/

namespace Hostlink.Controller
open Agent (MetricsFrame ScrapeTarget ScrapeTargetConfig TargetTurn UrlLib)

def handleScrape (turns : List (ScrapeTarget × TargetTurn)) : List ScrapeFrame :=
  (Agent.scrapeFrames turns).map (fun mf => { payload := some mf }) ++ [{ code := 200, final := true }]

/-- An agent with its configuration, how the fetches of its targets go, and how many of its frames
reach the accumulator. -/
structure FleetAgent where
  id : String
  configs : List ScrapeTargetConfig
  turns : List TargetTurn
  received : Option Nat
  deriving DecidableEq, Repr

/-- An agent whose configuration is refused does not start. -/
def FleetAgent.scraped (lib : UrlLib) (a : FleetAgent) : ScrapedAgent :=
  { id := a.id
    stream := match Agent.resolveScrapeTargets lib a.configs with
      | .error _ => none
      | .ok targets => a.received.map fun n => (handleScrape (targets.zip a.turns)).take n }

/-- `listAll` lists an agent once. -/
structure Fleet where
  agents : List FleetAgent
  nodup : (agents.map FleetAgent.id).Nodup

def Fleet.scraped (lib : UrlLib) (fleet : Fleet) : List ScrapedAgent :=
  fleet.agents.map (FleetAgent.scraped lib)

def Metric.SameLabels (m m' : Metric) : Prop := ∀ lp, lp ∈ m.labels ↔ lp ∈ m'.labels

def Distinct (series : List Metric) : Prop := series.Pairwise fun m m' => ¬ m.SameLabels m'

/-- What the scrape of an agent gives the merger: the families of every exposition that it completes,
with the labels of the agent and the exporter, and the gauges. -/
def FleetAgent.families (lib : UrlLib) (parser : TextParser) (a : FleetAgent) : List MetricFamily :=
  (a.scraped lib).completed.flatMap (Completion.items parser a.id) ++
    [agentUpFamily a.id (a.scraped lib).succeeded]

def Fleet.families (lib : UrlLib) (parser : TextParser) (fleet : Fleet) : List MetricFamily :=
  fleet.agents.flatMap (FleetAgent.families lib parser)

/-- The merger keeps the type of the family that comes first under a name. That may be the first of any
agent, and the families of the name with its type have to have no series in common. -/
def Fleet.SeriesApart (lib : UrlLib) (parser : TextParser) (fleet : Fleet) : Prop :=
  ∀ a ∈ fleet.agents, ∀ name ≠ "", ∀ first ∈ (named (a.families lib parser) name).head?,
    Distinct (seriesOf ((fleet.families lib parser).filter fun fam => fam.type = first.type) name)

/-- What keeps the series of the exporters of an agent apart: the targets have names of their own, and
no exposition uses the labels that are injected or the name of the gauge for its target. -/
structure FleetAgent.Separable (lib : UrlLib) (parser : TextParser) (a : FleetAgent) : Prop where
  names : (a.configs.map ScrapeTargetConfig.name).Nodup
  gauge : (a.scraped lib).LeavesName parser metricTargetUp
  labels : ∀ c ∈ (a.scraped lib).completed, ∀ fam ∈ c.parsed parser, ∀ m ∈ fam.metrics,
    m.hasLabel metricLabelAgent = false ∧ m.hasLabel metricLabelExporter = false

variable {lib : UrlLib} {parser : TextParser}

/-! ### Labels -/

def Metric.Labelled (m : Metric) (name value : String) : Prop :=
  ∀ v, ⟨name, v⟩ ∈ m.labels ↔ v = value

theorem Metric.not_sameLabels_of_labelled {m m' : Metric} {name value value' : String}
    (h : m.Labelled name value) (h' : m'.Labelled name value') (hne : value ≠ value') :
    ¬ m.SameLabels m' := by
  intro hsame
  exact hne ((h' value).mp ((hsame _).mp ((h value).mpr rfl)))

theorem Metric.not_sameLabels_of_hasLabel {m m' : Metric} {name : String}
    (h : m.hasLabel name = true) (h' : m'.hasLabel name = false) : ¬ m.SameLabels m' := by
  intro hsame
  obtain ⟨lp, hlp, hname⟩ := List.any_eq_true.mp h
  exact List.any_eq_false.mp h' lp ((hsame lp).mp hlp) hname

theorem Metric.mem_addLabel {m : Metric} {lp : LabelPair} (h : m.hasLabel lp.name = false)
    (lp' : LabelPair) : lp' ∈ (m.addLabel lp).labels ↔ lp' ∈ m.labels ∨ lp' = lp := by
  rw [addLabel, if_neg (by rw [h]; exact Bool.false_ne_true)]
  show lp' ∈ m.labels ++ [lp] ↔ _
  rw [List.mem_append, List.mem_singleton]

theorem Metric.mem_injectLabels {m : Metric} {c : Completion} {agentId : String}
    (hagent : m.hasLabel metricLabelAgent = false) (hexporter : m.hasLabel metricLabelExporter = false)
    (lp : LabelPair) : lp ∈ (m.injectLabels (c.labels agentId)).labels ↔
      lp ∈ m.labels ∨ lp = ⟨metricLabelAgent, agentId⟩ ∨ lp = ⟨metricLabelExporter, c.exporter⟩ := by
  have hexporter' : (m.addLabel ⟨metricLabelAgent, agentId⟩).hasLabel metricLabelExporter = false := by
    rw [hasLabel, List.any_eq_false]
    intro lp' hlp'
    rcases (mem_addLabel hagent lp').mp hlp' with hold | rfl
    · exact List.any_eq_false.mp hexporter lp' hold
    · have hnames : metricLabelAgent ≠ metricLabelExporter := by decide
      rw [decide_eq_true_eq]
      exact hnames
  show lp ∈ sortByName LabelPair.name
    ((m.addLabel ⟨metricLabelAgent, agentId⟩).addLabel ⟨metricLabelExporter, c.exporter⟩).labels ↔ _
  rw [sortByName, List.mem_insertionSort, mem_addLabel hexporter', mem_addLabel hagent, or_assoc]

structure Metric.OfExporter (m : Metric) (agentId exporter : String) : Prop where
  agent : m.Labelled metricLabelAgent agentId
  exporter : m.Labelled metricLabelExporter exporter

theorem Metric.ofExporter_of_mem {m : Metric} {agentId exporter : String} (base : List LabelPair)
    (hbase : ∀ lp ∈ base, lp.name ≠ metricLabelAgent ∧ lp.name ≠ metricLabelExporter)
    (h : ∀ lp, lp ∈ m.labels ↔
      lp ∈ base ∨ lp = ⟨metricLabelAgent, agentId⟩ ∨ lp = ⟨metricLabelExporter, exporter⟩) :
    m.OfExporter agentId exporter := by
  have hnames : metricLabelAgent ≠ metricLabelExporter := by decide
  constructor
  · intro v
    rw [h]
    constructor
    · rintro (hlp | hlp | hlp)
      · exact absurd rfl (hbase _ hlp).1
      · exact (LabelPair.mk.inj hlp).2
      · exact absurd (LabelPair.mk.inj hlp).1 hnames
    · rintro rfl
      exact .inr (.inl rfl)
  · intro v
    rw [h]
    constructor
    · rintro (hlp | hlp | hlp)
      · exact absurd rfl (hbase _ hlp).2
      · exact absurd (LabelPair.mk.inj hlp).1 hnames.symm
      · exact (LabelPair.mk.inj hlp).2
    · rintro rfl
      exact .inr (.inr rfl)

theorem Metric.name_ne_of_hasLabel {m : Metric} {name : String} (h : m.hasLabel name = false) :
    ∀ lp ∈ m.labels, lp.name ≠ name := by
  intro lp hlp hname
  exact List.any_eq_false.mp h lp hlp (decide_eq_true hname)

theorem Metric.ofExporter_injectLabels {m : Metric} {c : Completion} {agentId : String}
    (hagent : m.hasLabel metricLabelAgent = false)
    (hexporter : m.hasLabel metricLabelExporter = false) :
    (m.injectLabels (c.labels agentId)).OfExporter agentId c.exporter :=
  ofExporter_of_mem m.labels
    (fun lp hlp => ⟨name_ne_of_hasLabel hagent lp hlp, name_ne_of_hasLabel hexporter lp hlp⟩)
    (mem_injectLabels hagent hexporter)

theorem Metric.not_sameLabels_injectLabels {m m' : Metric} {c : Completion} {agentId : String}
    (hm : m.hasLabel metricLabelAgent = false ∧ m.hasLabel metricLabelExporter = false)
    (hm' : m'.hasLabel metricLabelAgent = false ∧ m'.hasLabel metricLabelExporter = false)
    (h : ¬ m.SameLabels m') :
    ¬ (m.injectLabels (c.labels agentId)).SameLabels (m'.injectLabels (c.labels agentId)) := by
  have hback : ∀ {m m' : Metric},
      m.hasLabel metricLabelAgent = false ∧ m.hasLabel metricLabelExporter = false →
      m'.hasLabel metricLabelAgent = false ∧ m'.hasLabel metricLabelExporter = false →
      (m.injectLabels (c.labels agentId)).SameLabels (m'.injectLabels (c.labels agentId)) →
      ∀ lp ∈ m.labels, lp ∈ m'.labels := by
    intro m m' hm hm' hsame lp hlp
    have hin := (hsame lp).mp ((mem_injectLabels hm.1 hm.2 lp).mpr (.inl hlp))
    rcases (mem_injectLabels hm'.1 hm'.2 lp).mp hin with hlp' | rfl | rfl
    · exact hlp'
    · exact absurd rfl (name_ne_of_hasLabel hm.1 _ hlp)
    · exact absurd rfl (name_ne_of_hasLabel hm.2 _ hlp)
  intro hsame
  exact h fun lp => ⟨hback hm hm' hsame lp, hback hm' hm (fun lp => (hsame lp).symm) lp⟩

/-! ### The series of one exporter -/

theorem seriesOf_append (items items' : List MetricFamily) (name : String) :
    seriesOf (items ++ items') name = seriesOf items name ++ seriesOf items' name := by
  rw [seriesOf, named, List.filter_append, List.flatMap_append]
  rfl

theorem seriesOf_flatMap {α : Type} (l : List α) (f : α → List MetricFamily) (name : String) :
    seriesOf (l.flatMap f) name = l.flatMap fun a => seriesOf (f a) name := by
  rw [seriesOf, named, List.filter_flatMap, List.flatMap_assoc]
  rfl

theorem seriesOf_singleton (fam : MetricFamily) (name : String) :
    seriesOf [fam] name = if fam.name = name then fam.metrics else [] := by
  rw [seriesOf, named, List.filter_singleton]
  by_cases h : fam.name = name
  · rw [if_pos h, decide_eq_true h, cond_true, List.flatMap_singleton]
  · rw [if_neg h, decide_eq_false h, cond_false, List.flatMap_nil]

theorem distinct_seriesOf {fams : List MetricFamily} (hnames : (fams.map (·.name)).Nodup)
    (h : ∀ fam ∈ fams, Distinct fam.metrics) (name : String) : Distinct (seriesOf fams name) := by
  refine List.pairwise_flatMap.mpr ⟨fun fam hfam => h fam (mem_named.mp hfam).1, ?_⟩
  have hpair : (named fams name).Pairwise fun f g => f.name ≠ g.name :=
    (List.pairwise_map.mp hnames).filter _
  refine hpair.imp_of_mem fun hf hg hne => absurd ?_ hne
  rw [(mem_named.mp hf).2, (mem_named.mp hg).2]

structure Completion.Plain (parser : TextParser) (c : Completion) : Prop where
  distinct : ∀ fam ∈ c.parsed parser, Distinct fam.metrics
  gauge : ∀ fam ∈ c.parsed parser, fam.name ≠ metricTargetUp
  labels : ∀ fam ∈ c.parsed parser, ∀ m ∈ fam.metrics,
    m.hasLabel metricLabelAgent = false ∧ m.hasLabel metricLabelExporter = false

namespace Completion
variable {c : Completion} {agentId : String}

theorem Plain.ofExporter (h : c.Plain parser) {name : String} {m : Metric}
    (hm : m ∈ seriesOf (c.items parser agentId) name) : m.OfExporter agentId c.exporter := by
  obtain ⟨fam, hfam, hm⟩ := List.mem_flatMap.mp hm
  rcases List.mem_append.mp (mem_named.mp hfam).1 with hparsed | hup
  · obtain ⟨source, hsource, rfl⟩ := List.mem_map.mp hparsed
    obtain ⟨m', hm', rfl⟩ := List.mem_map.mp hm
    have hlabels := h.labels source hsource m' hm'
    exact Metric.ofExporter_injectLabels hlabels.1 hlabels.2
  · rw [List.mem_singleton.mp hup] at hm
    rw [List.mem_singleton.mp hm]
    refine Metric.ofExporter_of_mem [] (fun lp hlp => absurd hlp List.not_mem_nil) fun lp => ?_
    show lp ∈ sortByName LabelPair.name (c.labels agentId) ↔ _
    rw [sortByName, List.mem_insertionSort, Completion.labels, List.mem_cons, List.mem_singleton]
    exact (or_iff_right List.not_mem_nil).symm

theorem parsed_nodup (c : Completion) : ((c.parsed parser).map (·.name)).Nodup := by
  cases hp : c.parsed parser with
  | nil => exact List.nodup_nil
  | cons fam fams =>
    have hmem : fam ∈ c.parsed parser := by
      rw [hp]
      exact List.mem_cons_self
    obtain ⟨body, hbody⟩ := exists_of_mem_parsed hmem
    rw [← hp]
    exact parser.nodup hbody

theorem Plain.distinct_injected (h : c.Plain parser) (name : String) :
    Distinct (seriesOf ((c.parsed parser).map (injectLabels (c.labels agentId))) name) := by
  refine distinct_seriesOf ?_ ?_ name
  · rw [List.map_map]
    exact parsed_nodup c
  · intro fam hfam
    obtain ⟨source, hsource, rfl⟩ := List.mem_map.mp hfam
    refine List.pairwise_map.mpr ((h.distinct source hsource).imp_of_mem fun hm hm' hne => ?_)
    exact Metric.not_sameLabels_injectLabels (h.labels source hsource _ hm)
      (h.labels source hsource _ hm') hne

theorem Plain.distinct_items (h : c.Plain parser) (name : String) :
    Distinct (seriesOf (c.items parser agentId) name) := by
  rw [items, seriesOf_append, seriesOf_singleton]
  split
  · next hname =>
    have hnone : seriesOf ((c.parsed parser).map (injectLabels (c.labels agentId))) name = [] := by
      refine List.flatMap_eq_nil_iff.mpr fun fam hfam => ?_
      obtain ⟨hmem, hfam⟩ := mem_named.mp hfam
      obtain ⟨source, hsource, rfl⟩ := List.mem_map.mp hmem
      exact absurd (hfam.trans hname.symm) (h.gauge source hsource)
    rw [hnone, List.nil_append]
    exact List.pairwise_singleton _ _
  · rw [List.append_nil]
    exact h.distinct_injected name

end Completion

/-! ### The series of one agent -/

theorem Metric.Labelled.hasLabel {m : Metric} {name value : String} (h : m.Labelled name value) :
    m.hasLabel name = true :=
  List.any_eq_true.mpr ⟨_, (h value).mpr rfl, decide_eq_true rfl⟩

theorem mem_seriesOf_agentUp {agent : ScrapedAgent} {name : String} {m : Metric}
    (h : m ∈ seriesOf [agentUpFamily agent.id agent.succeeded] name) : m = agent.upSeries := by
  rw [seriesOf_singleton] at h
  split at h
  · exact List.mem_singleton.mp h
  · cases h

theorem labelled_of_mem_scrapeAgent {agent : ScrapedAgent}
    (h : ∀ c ∈ agent.completed, c.Plain parser) {name : String} {m : Metric}
    (hm : m ∈ seriesOf (scrapeAgent parser agent).flatten name) :
    m.Labelled metricLabelAgent agent.id := by
  rw [flatten_scrapeAgent, seriesOf_append, seriesOf_flatMap] at hm
  rcases List.mem_append.mp hm with hm | hm
  · obtain ⟨c, hc, hm⟩ := List.mem_flatMap.mp hm
    exact ((h c hc).ofExporter hm).agent
  · rw [mem_seriesOf_agentUp hm]
    intro v
    rw [ScrapedAgent.upSeries, List.mem_singleton, LabelPair.mk.injEq, eq_self, true_and]

theorem distinct_scrapeAgent {agent : ScrapedAgent}
    (hnames : (agent.completed.map Completion.exporter).Nodup)
    (h : ∀ c ∈ agent.completed, c.Plain parser) (name : String) :
    Distinct (seriesOf (scrapeAgent parser agent).flatten name) := by
  rw [flatten_scrapeAgent, seriesOf_append, seriesOf_flatMap]
  refine List.pairwise_append.mpr ⟨List.pairwise_flatMap.mpr ⟨?_, ?_⟩, ?_, ?_⟩
  · exact fun c hc => (h c hc).distinct_items name
  · refine (List.pairwise_map.mp hnames).imp_of_mem fun hc hc' hne m hm m' hm' => ?_
    exact Metric.not_sameLabels_of_labelled ((h _ hc).ofExporter hm).exporter
      ((h _ hc').ofExporter hm').exporter hne
  · rw [seriesOf_singleton]
    split
    · exact List.pairwise_singleton _ _
    · exact List.Pairwise.nil
  · intro m hm m' hm'
    obtain ⟨c, hc, hm⟩ := List.mem_flatMap.mp hm
    rw [mem_seriesOf_agentUp hm']
    exact Metric.not_sameLabels_of_hasLabel ((h c hc).ofExporter hm).exporter.hasLabel rfl

/-! ### The exporters that a stream completes -/

def doneExporters (frames : List MetricsFrame) : List String :=
  (frames.filter MetricsFrame.done).map MetricsFrame.exporter

theorem doneExporters_append (frames frames' : List MetricsFrame) :
    doneExporters (frames ++ frames') = doneExporters frames ++ doneExporters frames' := by
  rw [doneExporters, List.filter_append, List.map_append]
  rfl

theorem completion_exporter (seen : List MetricsFrame) (mf : MetricsFrame) :
    (completion seen mf).map Completion.exporter = doneExporters [mf] := by
  rw [completion, doneExporters, List.filter_singleton]
  cases mf.done <;> rfl

theorem completions_exporters (seen : List MetricsFrame) (frames : List ScrapeFrame) :
    ((completions seen frames).map Completion.exporter).Sublist
      (doneExporters (frames.filterMap ScrapeFrame.payload)) := by
  induction frames generalizing seen with
  | nil => exact List.Sublist.refl _
  | cons frame frames ih =>
    unfold completions
    split
    · exact List.nil_sublist _
    · cases hpayload : frame.payload with
      | none =>
        rw [List.filterMap_cons_none hpayload]
        exact ih seen
      | some mf =>
        rw [List.filterMap_cons_some hpayload, ← List.singleton_append, doneExporters_append,
          List.map_append, completion_exporter]
        exact (List.Sublist.refl _).append (ih (mf :: seen))

theorem doneExporters_streamBody (exporter : String) (total : Nat) (reads : List Agent.BodyRead) :
    (doneExporters (Agent.streamBody exporter total reads).1).Sublist [exporter] := by
  induction reads generalizing total with
  | nil => exact List.nil_sublist _
  | cons read reads ih =>
    have hchunk : doneExporters
        (if read.data ≠ [] then [{ exporter := exporter, chunk := read.data }] else []) = [] := by
      split <;> rfl
    unfold Agent.streamBody
    dsimp only
    generalize (if read.data ≠ [] then [{ exporter := exporter, chunk := read.data }] else [] :
      List MetricsFrame) = chunk at hchunk ⊢
    split
    · exact List.Sublist.refl _
    · cases read.err with
      | some err =>
        dsimp only
        rw [doneExporters_append, hchunk]
        exact List.Sublist.refl _
      | none =>
        dsimp only
        split
        · dsimp only
          rw [hchunk]
          exact List.nil_sublist _
        · dsimp only
          rw [doneExporters_append, hchunk]
          exact ih _

theorem doneExporters_streamTarget (target : ScrapeTarget) (fetch : Agent.Fetch) :
    (doneExporters (Agent.streamTarget target fetch).1).Sublist [target.name] := by
  cases fetch with
  | requestErr err => exact List.Sublist.refl _
  | doErr err => exact List.Sublist.refl _
  | response status reads =>
    simp only [Agent.streamTarget]
    split
    · exact List.Sublist.refl _
    · exact doneExporters_streamBody target.name 0 reads

theorem doneExporters_scrapeFrames (turns : List (ScrapeTarget × TargetTurn)) :
    (doneExporters (Agent.scrapeFrames turns)).Sublist (turns.map fun p => p.1.name) := by
  induction turns with
  | nil => exact List.Sublist.refl _
  | cons p turns ih =>
    unfold Agent.scrapeFrames
    split
    · exact List.nil_sublist _
    · dsimp only
      rw [doneExporters_append, List.map_cons, ← List.singleton_append]
      refine (doneExporters_streamTarget p.1 p.2.fetch).append ?_
      split
      · exact List.nil_sublist _
      · exact ih

theorem resolveScrapeTarget_name {cfg : ScrapeTargetConfig} {target : ScrapeTarget}
    (h : Agent.resolveScrapeTarget lib cfg = .ok target) : target.name = cfg.name := by
  unfold Agent.resolveScrapeTarget at h
  repeat' split at h
  all_goals cases h <;> rfl

theorem resolveScrapeTargets_names {configs : List ScrapeTargetConfig} {targets : List ScrapeTarget}
    (h : Agent.resolveScrapeTargets lib configs = .ok targets) :
    targets.map ScrapeTarget.name = configs.map ScrapeTargetConfig.name := by
  induction configs generalizing targets with
  | nil =>
    obtain rfl := Except.ok.inj h
    rfl
  | cons cfg configs ih =>
    rw [Agent.resolveScrapeTargets, List.mapM_cons] at h
    cases hfirst : Agent.resolveScrapeTarget lib cfg with
    | error err =>
      rw [hfirst] at h
      cases h
    | ok target =>
      cases hrest : List.mapM (Agent.resolveScrapeTarget lib) configs with
      | error err =>
        rw [hfirst, hrest] at h
        cases h
      | ok rest =>
        rw [hfirst, hrest] at h
        obtain rfl := Except.ok.inj h
        rw [List.map_cons, List.map_cons, resolveScrapeTarget_name hfirst, ih hrest]

theorem payloads_handleScrape (turns : List (ScrapeTarget × TargetTurn)) :
    (handleScrape turns).filterMap ScrapeFrame.payload = Agent.scrapeFrames turns := by
  rw [handleScrape, List.filterMap_append, List.filterMap_map]
  exact (List.append_nil _).trans List.filterMap_some

theorem zip_names_sublist (targets : List ScrapeTarget) (turns : List TargetTurn) :
    ((targets.zip turns).map fun p => p.1.name).Sublist (targets.map ScrapeTarget.name) := by
  induction targets generalizing turns with
  | nil => exact List.Sublist.refl _
  | cons target targets ih =>
    cases turns with
    | nil => exact List.nil_sublist _
    | cons turn turns => exact (ih turns).cons_cons target.name

theorem FleetAgent.completed_exporters (lib : UrlLib) (a : FleetAgent) :
    ((a.scraped lib).completed.map Completion.exporter).Sublist
      (a.configs.map ScrapeTargetConfig.name) := by
  refine (completions_exporters [] _).trans ?_
  unfold FleetAgent.scraped ScrapedAgent.frames
  cases hresolve : Agent.resolveScrapeTargets lib a.configs with
  | error err => exact List.nil_sublist _
  | ok targets =>
    cases a.received with
    | none => exact List.nil_sublist _
    | some n =>
      show (doneExporters (((handleScrape (targets.zip a.turns)).take n).filterMap _)).Sublist _
      have hpayloads := (List.take_sublist n (handleScrape (targets.zip a.turns))).filterMap
        ScrapeFrame.payload
      rw [payloads_handleScrape] at hpayloads
      have hnames : ((targets.zip a.turns).map fun p => p.1.name).Sublist
          (a.configs.map ScrapeTargetConfig.name) := by
        rw [← resolveScrapeTargets_names hresolve]
        exact zip_names_sublist targets a.turns
      exact ((hpayloads.filter _).map _).trans ((doneExporters_scrapeFrames _).trans hnames)

/-! ### The merged exposition -/

theorem Distinct.perm {l l' : List Metric} (h : Distinct l) (hperm : l.Perm l') : Distinct l' :=
  hperm.pairwise h fun hne hsame => hne fun lp => (hsame lp).symm

theorem distinct_rest_start (parser : TextParser) {fleet : List ScrapedAgent}
    (hids : (fleet.map ScrapedAgent.id).Nodup)
    (hnames : ∀ a ∈ fleet, (a.completed.map Completion.exporter).Nodup)
    (h : ∀ a ∈ fleet, ∀ c ∈ a.completed, c.Plain parser) (name : String) :
    Distinct (seriesOf (ScrapeRound.start parser fleet).rest name) := by
  rw [rest_start, seriesOf_flatMap]
  refine List.pairwise_flatMap.mpr ⟨?_, ?_⟩
  · exact fun a ha => distinct_scrapeAgent (hnames a ha) (h a ha) name
  · refine (List.pairwise_map.mp hids).imp_of_mem fun ha hb hne m hm m' hm' => ?_
    exact Metric.not_sameLabels_of_labelled (labelled_of_mem_scrapeAgent (h _ ha) hm)
      (labelled_of_mem_scrapeAgent (h _ hb) hm') hne

theorem rest_fleet (lib : UrlLib) (parser : TextParser) (fleet : Fleet) :
    (ScrapeRound.start parser (fleet.scraped lib)).rest = fleet.families lib parser := by
  rw [rest_start, Fleet.scraped, List.flatMap_map]
  exact List.flatMap_congr fun a _ => flatten_scrapeAgent parser (a.scraped lib)

theorem Fleet.seriesApart_of_separable {fleet : Fleet}
    (hseparable : ∀ a ∈ fleet.agents, a.Separable lib parser)
    (hdistinct : ∀ a ∈ fleet.agents, ∀ c ∈ (a.scraped lib).completed, ∀ fam ∈ c.parsed parser,
      Distinct fam.metrics) : fleet.SeriesApart lib parser := by
  have hids : ((fleet.scraped lib).map ScrapedAgent.id).Nodup := by
    rw [Fleet.scraped, List.map_map]
    exact fleet.nodup
  intro a ha name hname first hfirst
  have hrest := distinct_rest_start parser hids ?_ ?_ name
  · rw [rest_fleet] at hrest
    refine hrest.sublist ?_
    rw [seriesOf, seriesOf]
    exact (List.filter_sublist.filter _).flatMap _
  · intro a ha
    obtain ⟨b, hb, rfl⟩ := List.mem_map.mp ha
    exact (hseparable b hb).names.sublist (b.completed_exporters lib)
  · intro a ha c hc
    obtain ⟨b, hb, rfl⟩ := List.mem_map.mp ha
    have hsep := hseparable b hb
    exact ⟨hdistinct b hb c hc, hsep.gauge c hc, hsep.labels c hc⟩

/-! ### The family that comes first -/

namespace ScrapeAccumulator
variable {acc : ScrapeAccumulator}

def AddsOnce (acc : ScrapeAccumulator) : Prop := ∀ batch ∈ acc.added, (batch.map (·.name)).Nodup

theorem AddsOnce.add (h : acc.AddsOnce) {batch : List MetricFamily}
    (hbatch : (batch.map (·.name)).Nodup) : (acc.add batch).AddsOnce := by
  intro batch' hb
  rcases List.mem_append.mp hb with hold | hnew
  · exact h batch' hold
  · rw [List.mem_singleton.mp hnew]
    exact hbatch

theorem AddsOnce.targetUp (h : acc.AddsOnce) (exporter : String) (up : Bool) :
    (acc.targetUp exporter up).AddsOnce :=
  h.add (List.nodup_singleton _)

theorem AddsOnce.ingest (h : acc.AddsOnce) (mf : MetricsFrame) : (acc.ingest parser mf).AddsOnce := by
  unfold ScrapeAccumulator.ingest
  split
  · split
    · exact h
    · exact h
  · have herased : AddsOnce { acc with buffers := acc.buffers.erase mf.exporter } := h
    dsimp only
    split
    · exact herased.targetUp _ _
    · split
      · exact herased.targetUp _ _
      · next body hbody =>
        simp only [foldBody]
        cases hfams : parser.families body with
        | none => exact herased.targetUp _ _
        | some fams =>
          refine AddsOnce.targetUp (herased.add ?_) _ _
          rw [List.map_map]
          exact parser.nodup hfams

theorem AddsOnce.consume (h : acc.AddsOnce) (frames : List ScrapeFrame) :
    (acc.consume parser frames).AddsOnce := by
  induction frames generalizing acc with
  | nil => exact h
  | cons frame frames ih =>
    unfold ScrapeAccumulator.consume onFrame
    split
    · simp only [if_true]
      split
      · exact h
      · exact h
    · cases frame.payload with
      | none => exact ih h
      | some mf => exact ih (h.ingest mf)

end ScrapeAccumulator

theorem scrapeAgent_nodup (agent : ScrapedAgent) :
    ∀ batch ∈ scrapeAgent parser agent, (batch.map (·.name)).Nodup := by
  have hempty : ScrapeAccumulator.AddsOnce { agentId := agent.id } := fun _ h => absurd h List.not_mem_nil
  unfold scrapeAgent
  cases agent.stream with
  | none => exact hempty.add (List.nodup_singleton _)
  | some frames => exact (hempty.consume frames).add (List.nodup_singleton _)

theorem length_named_le {fams : List MetricFamily} (h : (fams.map (·.name)).Nodup) (name : String) :
    (named fams name).length ≤ 1 := by
  have hpair : (named fams name).Pairwise fun f g => f.name ≠ g.name :=
    (List.pairwise_map.mp h).filter _
  cases hnamed : named fams name with
  | nil => exact Nat.zero_le 1
  | cons f fs =>
    cases fs with
    | nil => exact Nat.le_refl 1
    | cons g fs =>
      have hmem : ∀ fam ∈ f :: g :: fs, fam.name = name := by
        intro fam hfam
        rw [← hnamed] at hfam
        exact (mem_named.mp hfam).2
      rw [hnamed] at hpair
      refine absurd ?_ ((List.pairwise_cons.mp hpair).1 g List.mem_cons_self)
      rw [hmem f List.mem_cons_self, hmem g (List.mem_cons_of_mem _ List.mem_cons_self)]

theorem FamilyMerger.seriesOf_families_of_head {items : List MetricFamily} {first : MetricFamily}
    {name : String} (hname : name ≠ "") (h : (named items name).head? = some first) :
    seriesOf (items.foldl add {}).families name =
      seriesOf (items.filter fun fam => fam.type = first.type) name := by
  have hswap : named (items.filter fun fam => fam.type = first.type) name =
      (named items name).filter fun fam => fam.type = first.type := by
    rw [named, named, List.filter_filter, List.filter_filter]
    exact List.filter_congr fun fam _ => Bool.and_comm _ _
  rw [seriesOf_families items hname, seriesOf, hswap]
  cases hnamed : named items name with
  | nil =>
    rw [hnamed] at h
    cases h
  | cons f fs =>
    rw [hnamed] at h
    obtain rfl := Option.some.inj h
    exact (List.append_nil _).trans (MetricFamily.foldl_merge_metrics_filter f fs).2

theorem Distinct.seriesOf_perm {items items' : List MetricFamily} {p : MetricFamily → Bool}
    {name : String} (h : Distinct (seriesOf (items.filter p) name)) (hperm : items.Perm items') :
    Distinct (seriesOf (items'.filter p) name) :=
  h.perm (((hperm.filter p).filter _).flatMap_right MetricFamily.metrics)

theorem Fleet.SeriesApart.distinct {fleet : Fleet} (h : fleet.SeriesApart lib parser)
    {order : List (Nat × Nat)} {t : ScrapeRound}
    (hrun : Lts.AnyRun ScrapeRound.step (.start parser (fleet.scraped lib)) order t)
    (hfinished : t.finished) (name : String) : Distinct (seriesOf t.acc.families name) := by
  obtain ⟨items, hacc, hperm, hfirst⟩ := Feed.run_items_first (fun fam => fam.name = name) hrun
  rw [Feed.State.finished_iff.mp hfinished, List.append_nil, rest_fleet] at hperm
  rw [hacc]
  show Distinct (seriesOf (items.foldl FamilyMerger.add {}).families name)
  by_cases hname : name = ""
  · subst hname
    rw [seriesOf, FamilyMerger.named_families, FamilyMerger.get_foldl_empty]
    exact List.Pairwise.nil
  · cases hnamed : named items name with
    | nil =>
      rw [FamilyMerger.seriesOf_families items hname, hnamed]
      exact List.Pairwise.nil
    | cons first fams =>
      have hhead : (named items name).head? = some first := by rw [hnamed, List.head?_cons]
      rw [named] at hnamed
      rw [hnamed] at hfirst
      -- the family that came first is the first of its name in the scrape of its agent
      obtain ⟨batches, hb, hmem⟩ := hfirst
      obtain ⟨_, hscraped, rfl⟩ := List.mem_map.mp hb
      obtain ⟨a, ha, rfl⟩ := List.mem_map.mp hscraped
      have hone : ∀ batch ∈ scrapeAgent parser (a.scraped lib), (named batch name).length ≤ 1 :=
        fun batch hbatch => length_named_le (scrapeAgent_nodup _ batch hbatch) name
      rw [Feed.firstOf_eq_head hone, Option.mem_toList, flatten_scrapeAgent] at hmem
      rw [FamilyMerger.seriesOf_families_of_head hname hhead]
      exact (h a ha name hname first hmem).seriesOf_perm hperm

/-- An agent whose scrape is merged before all others has its families first. -/
theorem Fleet.seriesApart_of_distinct {fleet : Fleet}
    (h : ∀ order t, Lts.AnyRun ScrapeRound.step (.start parser (fleet.scraped lib)) order t →
      t.finished → ∀ name, Distinct (seriesOf t.acc.families name)) : fleet.SeriesApart lib parser := by
  intro a ha name hname first hfirst
  obtain ⟨i, hi⟩ := List.getElem?_of_mem ha
  have hpending : (ScrapeRound.start parser (fleet.scraped lib)).pending[i]? =
      some (scrapeAgent parser (a.scraped lib)) := by
    rw [ScrapeRound.start, Fleet.scraped, List.getElem?_map, List.getElem?_map, hi, Option.map_some,
      Option.map_some]
  obtain ⟨order, s, hrun, hacc, hperm⟩ := Feed.exists_run_alone FamilyMerger.add hpending
  obtain ⟨order', t, hrun', hfinished⟩ := Feed.exists_run_finished FamilyMerger.add s
  obtain ⟨later, hlater, hperm'⟩ := Feed.run_items_of_finished hrun' hfinished
  have hdistinct := h (order ++ order') t (hrun.trans hrun') hfinished name
  rw [hlater, hacc, flatten_scrapeAgent] at hdistinct
  rw [rest_fleet, flatten_scrapeAgent] at hperm
  have hhead : (named (a.families lib parser ++ later) name).head? = some first := by
    rw [named, List.filter_append, List.head?_append, ← named, Option.mem_def.mp hfirst, Option.some_or]
  rw [← List.foldl_append] at hdistinct
  have heq := FamilyMerger.seriesOf_families_of_head hname hhead
  exact (heq ▸ hdistinct : Distinct _).seriesOf_perm
    (hperm.trans (hperm'.append_left _)).symm

/-- The merged exposition has no two series of a family with one label set, in every order of the
merging, if and only if `SeriesApart` holds. It does if each exposition has no two such series and each
agent keeps its exporters apart. -/
theorem merged_series_distinct_iff (lib : UrlLib) (parser : TextParser) (fleet : Fleet) :
    ((∀ order t, Lts.AnyRun ScrapeRound.step (.start parser (fleet.scraped lib)) order t →
        t.finished → ∀ name, Distinct (seriesOf t.acc.families name)) ↔
      fleet.SeriesApart lib parser) ∧
    ((∀ a ∈ fleet.agents, a.Separable lib parser) →
      (∀ a ∈ fleet.agents, ∀ c ∈ (a.scraped lib).completed, ∀ fam ∈ c.parsed parser,
        Distinct fam.metrics) → fleet.SeriesApart lib parser) := by
  refine ⟨⟨Fleet.seriesApart_of_distinct, ?_⟩, Fleet.seriesApart_of_separable⟩
  intro h order t hrun hfinished name
  exact h.distinct hrun hfinished name

def hostLib : UrlLib where
  parse url := .ok ⟨"http", GoStrings.trimPrefix url "http://", "", "", ""⟩
  string u := u.scheme ++ "://" ++ u.host ++ u.path
  quote text := "\"" ++ text ++ "\""

def served (body : String) : TargetTurn :=
  { fetch := .response 200 [⟨body.toUTF8.data.toList, none, false⟩, ⟨[], some .eof, false⟩] }

def twoExporters (id name name' : String) : FleetAgent :=
  { id := id
    configs := [⟨name, "http://127.0.0.1:9100", ""⟩, ⟨name', "http://127.0.0.1:9400", ""⟩]
    turns := [served "up 1", served "up 1"]
    received := some 5 }

theorem distinct_lineParser {c : Completion} {fam : MetricFamily} (h : fam ∈ c.parsed lineParser) :
    Distinct fam.metrics := by
  obtain ⟨body, hbody⟩ := Completion.exists_of_mem_parsed h
  rw [← Option.some.inj hbody] at h
  rw [List.mem_singleton.mp h]
  exact List.pairwise_singleton _ _

def smallFleet : Fleet where
  agents := [twoExporters "node-1" "node" "dcgm", twoExporters "node-2" "node" "dcgm"]
  nodup := by decide

theorem smallFleet_separable : ∀ a ∈ smallFleet.agents, a.Separable hostLib lineParser := by
  intro a ha
  rcases List.mem_cons.mp ha with rfl | ha
  · exact ⟨by decide +kernel, by decide +kernel, by decide +kernel⟩
  · rw [List.mem_singleton.mp ha]
    exact ⟨by decide +kernel, by decide +kernel, by decide +kernel⟩

theorem merged_series_distinct_iff_small : ∃ order t,
    Lts.AnyRun ScrapeRound.step (.start lineParser (smallFleet.scraped hostLib)) order t ∧
      t.finished ∧ (seriesOf t.acc.families "up").length = 4 ∧
      Distinct (seriesOf t.acc.families "up") := by
  let order : List (Nat × Nat) :=
    [(0, 0), (1, 0), (0, 0), (1, 0), (1, 0), (0, 0), (0, 0), (1, 0), (1, 0), (0, 0)]
  let t := (Lts.exec ScrapeRound.step (.start lineParser (smallFleet.scraped hostLib)) order).get
    (by decide +kernel)
  have hrun := Lts.anyRun_of_exec (t := t) (Option.some_get _).symm
  have hfinished : t.finished := by decide +kernel
  have hiff := merged_series_distinct_iff hostLib lineParser smallFleet
  have hapart := hiff.2 smallFleet_separable fun _ _ _ _ _ hfam => distinct_lineParser hfam
  exact ⟨order, t, hrun, hfinished, by decide +kernel, hiff.1.mpr hapart order t hrun hfinished "up"⟩

def sameNames : Fleet where
  agents := [twoExporters "node-1" "node" "node"]
  nodup := by decide

theorem merged_series_repeated : ∃ order t,
    Lts.AnyRun ScrapeRound.step (.start lineParser (sameNames.scraped hostLib)) order t ∧
      t.finished ∧
      (∀ a ∈ sameNames.agents, ∀ c ∈ (a.scraped hostLib).completed, ∀ fam ∈ c.parsed lineParser,
        Distinct fam.metrics) ∧
      ¬ Distinct (seriesOf t.acc.families "up") := by
  let order : List (Nat × Nat) := [(0, 0), (0, 0), (0, 0), (0, 0), (0, 0)]
  let t := (Lts.exec ScrapeRound.step (.start lineParser (sameNames.scraped hostLib)) order).get
    (by decide +kernel)
  have hrun := Lts.anyRun_of_exec (t := t) (Option.some_get _).symm
  have htwice : seriesOf t.acc.families "up" =
      [⟨[⟨"agent", "node-1"⟩, ⟨"exporter", "node"⟩], .other "1"⟩,
        ⟨[⟨"agent", "node-1"⟩, ⟨"exporter", "node"⟩], .other "1"⟩] := by
    decide +kernel
  refine ⟨order, t, hrun, by decide +kernel, fun _ _ _ _ _ hfam => distinct_lineParser hfam, ?_⟩
  rw [htwice]
  exact fun h => (List.pairwise_cons.mp h).1 _ List.mem_cons_self fun _ => Iff.rfl

end Hostlink.Controller
