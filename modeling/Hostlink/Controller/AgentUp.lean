import Hostlink.Controller.ScrapeStreams

/-! The health gauge `agent_up`: it is right in every order of the merging exactly if no exporter
uses its name. -/

namespace Hostlink.Controller
variable {parser : TextParser} {fleet : List ScrapedAgent}

def ScrapedAgent.upSeries (agent : ScrapedAgent) : Metric :=
  ⟨[⟨metricLabelAgent, agent.id⟩], .gauge (upValue agent.succeeded)⟩

def AgentUpExact (fleet : List ScrapedAgent) (fams : List MetricFamily) : Prop :=
  (seriesOf fams metricAgentUp).Perm (fleet.map ScrapedAgent.upSeries)

instance (fleet : List ScrapedAgent) (fams : List MetricFamily) : Decidable (AgentUpExact fleet fams) :=
  inferInstanceAs (Decidable (List.Perm _ _))

def ScrapedAgent.LeavesName (parser : TextParser) (name : String) (agent : ScrapedAgent) : Prop :=
  ∀ c ∈ agent.completed, ∀ fam ∈ c.parsed parser, fam.name ≠ name

instance (parser : TextParser) (name : String) (agent : ScrapedAgent) :
    Decidable (agent.LeavesName parser name) :=
  inferInstanceAs (Decidable (∀ c ∈ agent.completed, ∀ fam ∈ c.parsed parser, fam.name ≠ name))

/-! ### Labels -/

theorem Metric.hasLabel_addLabel (m : Metric) (lp : LabelPair) {name : String}
    (h : m.hasLabel name = true ∨ lp.name = name) : (m.addLabel lp).hasLabel name = true := by
  unfold addLabel
  split
  · next hlp =>
    rcases h with h | rfl
    · exact h
    · exact hlp
  · unfold hasLabel at h ⊢
    rw [List.any_append, Bool.or_eq_true]
    refine h.imp_right ?_
    rintro rfl
    simp only [List.any_cons, List.any_nil, decide_true, Bool.or_false]

theorem Metric.hasLabel_foldl_addLabel (constLabels : List LabelPair) (m : Metric) {name : String}
    (h : m.hasLabel name = true ∨ ∃ lp ∈ constLabels, lp.name = name) :
    (constLabels.foldl addLabel m).hasLabel name = true := by
  induction constLabels generalizing m with
  | nil =>
    rcases h with h | ⟨lp, hlp, -⟩
    · exact h
    · cases hlp
  | cons lp constLabels ih =>
    refine ih (m.addLabel lp) ?_
    rcases h with h | ⟨lp', hlp', hname⟩
    · exact .inl (m.hasLabel_addLabel lp (.inl h))
    · rcases List.mem_cons.mp hlp' with rfl | hrest
      · exact .inl (m.hasLabel_addLabel lp' (.inr hname))
      · exact .inr ⟨lp', hrest, hname⟩

theorem Metric.hasLabel_injectLabels {constLabels : List LabelPair} (m : Metric) {lp : LabelPair}
    (h : lp ∈ constLabels) : (m.injectLabels constLabels).hasLabel lp.name = true := by
  have hadded := hasLabel_foldl_addLabel constLabels m (.inr ⟨lp, h, rfl⟩)
  unfold hasLabel at hadded ⊢
  rw [List.any_eq_true] at hadded ⊢
  obtain ⟨lp', hlp', hname⟩ := hadded
  exact ⟨lp', List.mem_insertionSort _ |>.mpr hlp', hname⟩

/-! ### What the scrapes add under the name -/

theorem named_items (c : Completion) (agentId : String)
    (h : ∀ fam ∈ c.parsed parser, fam.name ≠ metricAgentUp) :
    named (c.items parser agentId) metricAgentUp = [] := by
  refine List.eq_nil_iff_forall_not_mem.mpr fun fam hfam => ?_
  obtain ⟨hmem, hname⟩ := mem_named.mp hfam
  rcases List.mem_append.mp hmem with hparsed | hup
  · obtain ⟨fam', hfam', rfl⟩ := List.mem_map.mp hparsed
    exact h fam' hfam' hname
  · rw [List.mem_singleton.mp hup] at hname
    have hnames : metricTargetUp ≠ metricAgentUp := by decide
    exact absurd hname hnames

theorem named_scrapeAgent {agent : ScrapedAgent} (h : agent.LeavesName parser metricAgentUp) :
    named (scrapeAgent parser agent).flatten metricAgentUp =
      [agentUpFamily agent.id agent.succeeded] := by
  rw [flatten_scrapeAgent, named, List.filter_append]
  have hnone : (agent.completed.flatMap (Completion.items parser agent.id)).filter
      (fun fam => fam.name = metricAgentUp) = [] := by
    rw [List.filter_flatMap, List.flatMap_eq_nil_iff]
    exact fun c hc => named_items c agent.id (h c hc)
  rw [hnone, List.nil_append]
  rfl

theorem rest_start (parser : TextParser) (fleet : List ScrapedAgent) :
    (ScrapeRound.start parser fleet).rest = fleet.flatMap fun a => (scrapeAgent parser a).flatten := by
  rw [Feed.State.rest, ScrapeRound.start, List.map_map, List.flatMap_def]
  rfl

theorem named_rest_start (h : ∀ a ∈ fleet, a.LeavesName parser metricAgentUp) :
    named (ScrapeRound.start parser fleet).rest metricAgentUp =
      fleet.map fun a => agentUpFamily a.id a.succeeded := by
  rw [rest_start, named, List.filter_flatMap]
  induction fleet with
  | nil => rfl
  | cons a fleet ih =>
    rw [List.flatMap_cons, List.map_cons, ih fun b hb => h b (List.mem_cons_of_mem _ hb)]
    exact congrArg (· ++ _) (named_scrapeAgent (h a List.mem_cons_self))

/-- Without an exporter of that name all gauges of the name are of one type, so none is lost. -/
theorem agentUpExact_of_leavesName {order : List (Nat × Nat)} {t : ScrapeRound}
    (h : ∀ a ∈ fleet, a.LeavesName parser metricAgentUp)
    (hrun : Lts.AnyRun ScrapeRound.step (.start parser fleet) order t) (hfinished : t.finished) :
    AgentUpExact fleet t.acc.families := by
  obtain ⟨items, hacc, hperm⟩ := Feed.run_items_of_finished hrun hfinished
  have hnamed : (named items metricAgentUp).Perm
      (fleet.map fun a => agentUpFamily a.id a.succeeded) := by
    rw [← named_rest_start h]
    exact (hperm.filter _).symm
  have htype : ∀ fam ∈ named items metricAgentUp, fam.type = .gauge := by
    intro fam hfam
    obtain ⟨a, -, rfl⟩ := List.mem_map.mp (hnamed.subset hfam)
    rfl
  rw [AgentUpExact, hacc]
  show (seriesOf (items.foldl FamilyMerger.add {}).families metricAgentUp).Perm _
  rw [FamilyMerger.seriesOf_families_of_type (by decide) htype]
  have hseries := hnamed.flatMap_right MetricFamily.metrics
  rw [List.flatMap_map] at hseries
  rw [List.map_eq_flatMap]
  exact hseries

theorem exists_series_of_mem_named {c : Completion} {agentId : String} {fam : MetricFamily}
    (h : fam ∈ named (c.items parser agentId) metricAgentUp) :
    ∃ m ∈ fam.metrics, m.hasLabel metricLabelExporter = true := by
  obtain ⟨hmem, hname⟩ := mem_named.mp h
  rcases List.mem_append.mp hmem with hparsed | hup
  · obtain ⟨source, hsource, rfl⟩ := List.mem_map.mp hparsed
    obtain ⟨m, ms, hms⟩ := List.exists_cons_of_ne_nil (c.metrics_ne_nil hsource)
    refine ⟨m.injectLabels (c.labels agentId), ?_, ?_⟩
    · exact List.mem_map_of_mem (by rw [hms]; exact List.mem_cons_self)
    · have hexporter : ⟨metricLabelExporter, c.exporter⟩ ∈ c.labels agentId :=
        List.mem_cons_of_mem _ List.mem_cons_self
      exact m.hasLabel_injectLabels hexporter
  · rw [List.mem_singleton.mp hup] at hname
    have hnames : metricTargetUp ≠ metricAgentUp := by decide
    exact absurd hname hnames

theorem not_agentUpExact {first later : List MetricFamily} {fam : MetricFamily}
    {fams : List MetricFamily} {m : Metric} (hfirst : named first metricAgentUp = fam :: fams)
    (hm : m ∈ fam.metrics) (hlabel : m.hasLabel metricLabelExporter = true) :
    ¬ AgentUpExact fleet ((first ++ later).foldl FamilyMerger.add {}).families := by
  intro hexact
  rw [AgentUpExact, FamilyMerger.seriesOf_families _ (by decide), named, List.filter_append] at hexact
  rw [named] at hfirst
  rw [hfirst] at hexact
  have hmem : m ∈ fleet.map ScrapedAgent.upSeries := by
    refine hexact.subset ?_
    show m ∈ (List.foldl MetricFamily.merge fam _).metrics ++ []
    rw [List.append_nil]
    exact MetricFamily.subset_foldl_merge fam _ hm
  obtain ⟨a, -, rfl⟩ := List.mem_map.mp hmem
  have hnone : a.upSeries.hasLabel metricLabelExporter = false := rfl
  rw [hnone] at hlabel
  cases hlabel

theorem exists_run_not_exact {a : ScrapedAgent} (ha : a ∈ fleet)
    (h : ¬ a.LeavesName parser metricAgentUp) :
    ∃ order t, Lts.AnyRun ScrapeRound.step (.start parser fleet) order t ∧ t.finished ∧
      ¬ AgentUpExact fleet t.acc.families := by
  obtain ⟨i, hi⟩ := List.getElem?_of_mem ha
  have hpending : (ScrapeRound.start parser fleet).pending[i]? = some (scrapeAgent parser a) := by
    rw [ScrapeRound.start, List.getElem?_map, hi, Option.map_some]
  obtain ⟨order, s, hrun, hacc, -⟩ := Feed.exists_run_alone FamilyMerger.add hpending
  obtain ⟨order', t, hrun', hfinished⟩ := Feed.exists_run_finished FamilyMerger.add s
  obtain ⟨later, hlater, -⟩ := Feed.run_items hrun'
  refine ⟨order ++ order', t, hrun.trans hrun', hfinished, ?_⟩
  have hfirst : ∃ fam fams, named (a.completed.flatMap (Completion.items parser a.id)) metricAgentUp =
      fam :: fams := by
    refine List.exists_cons_of_ne_nil fun hnil => h fun c hc fam hfam hname => ?_
    have hmem : injectLabels (c.labels a.id) fam ∈
        named (a.completed.flatMap (Completion.items parser a.id)) metricAgentUp :=
      mem_named.mpr ⟨List.mem_flatMap.mpr ⟨c, hc, List.mem_append_left _ (List.mem_map_of_mem hfam)⟩,
        hname⟩
    rw [hnil] at hmem
    cases hmem
  obtain ⟨fam, fams, hfirst⟩ := hfirst
  have hfam : fam ∈ named (a.completed.flatMap (Completion.items parser a.id)) metricAgentUp := by
    rw [hfirst]
    exact List.mem_cons_self
  obtain ⟨hmem, hname⟩ := mem_named.mp hfam
  obtain ⟨c, -, hc⟩ := List.mem_flatMap.mp hmem
  obtain ⟨m, hm, hlabel⟩ := exists_series_of_mem_named (mem_named.mpr ⟨hc, hname⟩)
  have hacc' : t.acc = (a.completed.flatMap (Completion.items parser a.id) ++
      ([agentUpFamily a.id a.succeeded] ++ later)).foldl FamilyMerger.add {} := by
    rw [hlater, hacc, flatten_scrapeAgent, ← List.append_assoc]
    exact List.foldl_append.symm
  rw [hacc']
  exact not_agentUpExact hfirst hm hlabel

/-- The output has exactly one `agent_up` series for each listed agent, with the value 1 exactly if
its stream ended with a terminal 200 frame, in every order of the merging: that is so if and only if
no exposition has a family of that name. -/
theorem agent_up_exact_iff (parser : TextParser) (fleet : List ScrapedAgent) :
    (∀ order t, Lts.AnyRun ScrapeRound.step (.start parser fleet) order t → t.finished →
      AgentUpExact fleet t.acc.families) ↔
    ∀ a ∈ fleet, a.LeavesName parser metricAgentUp := by
  constructor
  · intro h a ha
    by_contra hnot
    obtain ⟨order, t, hrun, hfinished, hexact⟩ := exists_run_not_exact ha hnot
    exact hexact (h order t hrun hfinished)
  · exact fun h order t hrun hfinished => agentUpExact_of_leavesName h hrun hfinished

def lineParser : TextParser where
  families body :=
    let line := body.map fun b => Char.ofNat b.toNat
    let name := String.ofList (line.takeWhile (· ≠ ' '))
    let value := String.ofList ((line.dropWhile (· ≠ ' ')).drop 1)
    some [⟨name, "", .untyped, [⟨[], .other value⟩]⟩]
  nodup := by
    intro body fams h
    obtain rfl := Option.some.inj h
    exact List.nodup_singleton _
  nonempty := by
    intro body fams h fam hfam
    obtain rfl := Option.some.inj h
    rw [List.mem_singleton.mp hfam]
    exact List.cons_ne_nil _ _
  labels := by
    intro body fams h fam hfam m hm
    obtain rfl := Option.some.inj h
    rw [List.mem_singleton.mp hfam] at hm
    rw [List.mem_singleton.mp hm]
    exact List.nodup_nil

def oneExporter (exporter body : String) : List ScrapeFrame :=
  [{ payload := some { exporter := exporter, chunk := body.toUTF8.data.toList } },
    { payload := some { exporter := exporter, done := true } },
    { code := 200, final := true }]

theorem agent_up_exact_iff_offline : ∃ order t, Lts.AnyRun ScrapeRound.step
    (.start lineParser [⟨"node-1", oneExporter "node" "up 1"⟩, ⟨"node-2", none⟩]) order t ∧
    t.finished ∧
    AgentUpExact [⟨"node-1", oneExporter "node" "up 1"⟩, ⟨"node-2", none⟩] t.acc.families := by
  let order : List (Nat × Nat) := [(0, 0), (1, 0), (0, 0), (0, 0)]
  let t := (Lts.exec ScrapeRound.step
    (.start lineParser [⟨"node-1", oneExporter "node" "up 1"⟩, ⟨"node-2", none⟩]) order).get
    (by decide +kernel)
  have hrun := Lts.anyRun_of_exec (t := t) (Option.some_get _).symm
  have hfinished : t.finished := by decide +kernel
  exact ⟨order, t, hrun, hfinished,
    (agent_up_exact_iff lineParser _).mpr (by decide +kernel) order t hrun hfinished⟩

/-- One exporter that has a family `agent_up` of another type takes the gauge from all agents. -/
theorem agent_up_taken : ∃ order t, Lts.AnyRun ScrapeRound.step
    (.start lineParser [⟨"node-1", oneExporter "node" "agent_up 1"⟩, ⟨"node-2", none⟩]) order t ∧
    t.finished ∧
    ¬ AgentUpExact [⟨"node-1", oneExporter "node" "agent_up 1"⟩, ⟨"node-2", none⟩] t.acc.families ∧
    seriesOf t.acc.families metricAgentUp =
      [⟨[⟨"agent", "node-1"⟩, ⟨"exporter", "node"⟩], .other "1"⟩] := by
  let order : List (Nat × Nat) := [(0, 0), (0, 0), (1, 0), (0, 0)]
  let t := (Lts.exec ScrapeRound.step
    (.start lineParser [⟨"node-1", oneExporter "node" "agent_up 1"⟩, ⟨"node-2", none⟩]) order).get
    (by decide +kernel)
  have hrun := Lts.anyRun_of_exec (t := t) (Option.some_get _).symm
  exact ⟨order, t, hrun, by decide +kernel, by decide +kernel, by decide +kernel⟩

end Hostlink.Controller
