import Mathlib.Data.List.Dedup
import Mathlib.Data.List.Sort
import Hostlink.Agent.Scrape
import Hostlink.Lib.Feed
import Hostlink.Lib.GoMap

/-! `GET /api/v1/metrics`: one scrape per listed agent, all of them merging families into one
exposition. -/

namespace Hostlink.Controller
open Agent (Bytes MetricsFrame)

def metricLabelAgent : String := "agent"
def metricLabelExporter : String := "exporter"
def metricAgentUp : String := "agent_up"
def metricTargetUp : String := "hostlink_scrape_target_up"

inductive MetricType where
  | counter
  | gauge
  | summary
  | untyped
  | histogram
  | gaugeHistogram
  deriving DecidableEq, Repr

/-- A gauge is the bits of its `float64`; the values of the other types are not read here. -/
inductive MetricValue where
  | gauge (bits : UInt64)
  | other (text : String)
  deriving DecidableEq, Repr

structure LabelPair where
  name : String
  value : String
  deriving DecidableEq, Repr

structure Metric where
  labels : List LabelPair
  value : MetricValue
  deriving DecidableEq, Repr

structure MetricFamily where
  name : String
  help : String
  type : MetricType
  metrics : List Metric
  deriving DecidableEq, Repr

/-- `TextToMetricFamilies`: the families of an exposition by name, each with a series at least. A
series has one value for a label. -/
structure TextParser where
  families : Bytes → Option (List MetricFamily)
  nodup : ∀ {body fams}, families body = some fams → (fams.map (·.name)).Nodup
  nonempty : ∀ {body fams}, families body = some fams → ∀ fam ∈ fams, fam.metrics ≠ []
  labels : ∀ {body fams}, families body = some fams → ∀ fam ∈ fams, ∀ m ∈ fam.metrics,
    (m.labels.map (·.name)).Nodup

/-- `sort.Slice` and `sort.Strings` by a name; Go compares strings by their bytes. -/
def sortByName {α : Type} (name : α → String) (l : List α) : List α :=
  l.insertionSort fun a b => GoStrings.le (name a) (name b) = true

def Metric.hasLabel (m : Metric) (name : String) : Bool := m.labels.any fun lp => lp.name = name

def Metric.addLabel (m : Metric) (lp : LabelPair) : Metric :=
  if m.hasLabel lp.name then m else { m with labels := m.labels ++ [lp] }

def Metric.injectLabels (constLabels : List LabelPair) (m : Metric) : Metric :=
  let m := constLabels.foldl Metric.addLabel m
  { m with labels := sortByName LabelPair.name m.labels }

def injectLabels (constLabels : List LabelPair) (mf : MetricFamily) : MetricFamily :=
  { mf with metrics := mf.metrics.map (Metric.injectLabels constLabels) }

/-- The bits of the `float64` values 0 and 1. -/
def upValue (up : Bool) : UInt64 := if up then 0x3FF0000000000000 else 0

def gaugeFamily (name help : String) (value : UInt64) (constLabels : List LabelPair) : MetricFamily :=
  { name := name
    help := help
    type := .gauge
    metrics := [{ labels := sortByName LabelPair.name constLabels, value := .gauge value }] }

structure FamilyMerger where
  byName : GoMap String MetricFamily := .empty

namespace FamilyMerger

def add (m : FamilyMerger) (mf : MetricFamily) : FamilyMerger :=
  if mf.name = "" then m
  else match m.byName.get mf.name with
    | none => { m with byName := m.byName.insert mf.name mf }
    | some existing =>
      if existing.type ≠ mf.type then m
      else
        let merged := { existing with metrics := existing.metrics ++ mf.metrics }
        { m with byName := m.byName.insert mf.name merged }

def families (m : FamilyMerger) : List MetricFamily :=
  sortByName MetricFamily.name (m.byName.keys.dedup.filterMap m.byName.get)

end FamilyMerger

/-- A `streamFrame` of a scrape, with the payload as `json.Unmarshal` reads it: without one it
cannot be read. -/
structure ScrapeFrame where
  payload : Option MetricsFrame := none
  code : Nat := 0
  error : String := ""
  final : Bool := false
  deriving DecidableEq, Repr

/-- `added` are the families given to the merger: the families of a map are given in any order, all
else in the order of the list. -/
structure ScrapeAccumulator where
  agentId : String
  buffers : GoMap String Bytes := .empty
  completed : Bool := false
  added : List (List MetricFamily) := []

namespace ScrapeAccumulator
variable (parser : TextParser)

def add (acc : ScrapeAccumulator) (batch : List MetricFamily) : ScrapeAccumulator :=
  { acc with added := acc.added ++ [batch] }

def constLabels (acc : ScrapeAccumulator) (exporter : String) : List LabelPair :=
  [⟨metricLabelAgent, acc.agentId⟩, ⟨metricLabelExporter, exporter⟩]

/-- The deferred gauge of `ingest`. -/
def targetUp (acc : ScrapeAccumulator) (exporter : String) (up : Bool) : ScrapeAccumulator :=
  acc.add [gaugeFamily metricTargetUp "1 if the agent scraped this exporter successfully, 0 otherwise."
    (upValue up) (acc.constLabels exporter)]

def foldBody (acc : ScrapeAccumulator) (body : Bytes) (constLabels : List LabelPair) :
    ScrapeAccumulator × Bool :=
  match parser.families body with
  | none => (acc, false)
  | some parsed => (acc.add (parsed.map (injectLabels constLabels)), true)

def ingest (acc : ScrapeAccumulator) (mf : MetricsFrame) : ScrapeAccumulator :=
  if ¬ mf.done then
    if mf.chunk = [] then acc
    else
      let buf := (acc.buffers.get mf.exporter).getD []
      { acc with buffers := acc.buffers.insert mf.exporter (buf ++ mf.chunk) }
  else
    let buf := acc.buffers.get mf.exporter
    let acc := { acc with buffers := acc.buffers.erase mf.exporter }
    if mf.error ≠ "" then acc.targetUp mf.exporter false
    else match buf with
      | none => acc.targetUp mf.exporter true
      | some body =>
        let r := acc.foldBody parser body (acc.constLabels mf.exporter)
        r.1.targetUp mf.exporter r.2

def onFrame (acc : ScrapeAccumulator) (frame : ScrapeFrame) : ScrapeAccumulator × Bool :=
  if frame.final then
    (if frame.code = 200 then { acc with completed := true } else acc, true)
  else match frame.payload with
    | none => (acc, false)
    | some mf => (acc.ingest parser mf, false)

/-- `consumeStream`: without a final frame the stream ends by the deadline or the loss of the agent,
which changes nothing here. -/
def consume (acc : ScrapeAccumulator) : List ScrapeFrame → ScrapeAccumulator
  | [] => acc
  | frame :: frames =>
    let r := acc.onFrame parser frame
    if r.2 then r.1 else r.1.consume frames

end ScrapeAccumulator

/-- The gauge that `scrapeAgent` adds when it returns. -/
def agentUpFamily (agentId : String) (up : Bool) : MetricFamily :=
  gaugeFamily metricAgentUp "1 if the agent was scraped this round, 0 otherwise." (upValue up)
    [⟨metricLabelAgent, agentId⟩]

/-- A listed agent and the frames its stream passes to `onFrame`; `dispatchStream` failed if there is
no stream. -/
structure ScrapedAgent where
  id : String
  stream : Option (List ScrapeFrame)
  deriving DecidableEq, Repr

def scrapeAgent (parser : TextParser) (agent : ScrapedAgent) : List (List MetricFamily) :=
  let acc : ScrapeAccumulator := { agentId := agent.id }
  let acc := match agent.stream with
    | none => acc
    | some frames => acc.consume parser frames
  acc.added ++ [[agentUpFamily agent.id acc.completed]]

/-- A round of `agentMetrics` once the agents are listed: the scrapes share only the merger. -/
abbrev ScrapeRound := Feed.State MetricFamily FamilyMerger

namespace ScrapeRound

def start (parser : TextParser) (fleet : List ScrapedAgent) : ScrapeRound :=
  ⟨fleet.map (scrapeAgent parser), {}⟩

abbrev step : ScrapeRound → Nat × Nat → Option ScrapeRound := Feed.step FamilyMerger.add

end ScrapeRound

/-! ### The merger -/

namespace MetricFamily
variable {f : MetricFamily} {fs : List MetricFamily}

def merge (existing mf : MetricFamily) : MetricFamily :=
  if existing.type ≠ mf.type then existing
  else { existing with metrics := existing.metrics ++ mf.metrics }

theorem merge_name (existing mf : MetricFamily) : (existing.merge mf).name = existing.name := by
  unfold merge
  split <;> rfl

theorem merge_type (existing mf : MetricFamily) : (existing.merge mf).type = existing.type := by
  unfold merge
  split <;> rfl

theorem foldl_merge_name (f : MetricFamily) (fs : List MetricFamily) :
    (fs.foldl merge f).name = f.name := by
  induction fs generalizing f with
  | nil => rfl
  | cons g fs ih => rw [List.foldl_cons, ih, merge_name]

theorem foldl_merge_metrics (h : ∀ g ∈ fs, g.type = f.type) :
    (fs.foldl merge f).metrics = f.metrics ++ fs.flatMap metrics := by
  induction fs generalizing f with
  | nil => exact (List.append_nil _).symm
  | cons g fs ih =>
    have htype : ∀ g' ∈ fs, g'.type = (f.merge g).type := by
      intro g' hg'
      rw [merge_type]
      exact h g' (List.mem_cons_of_mem _ hg')
    have hmerge : (f.merge g).metrics = f.metrics ++ g.metrics := by
      rw [merge, if_neg (not_not.mpr (h g List.mem_cons_self).symm)]
    rw [List.foldl_cons, ih htype, hmerge, List.flatMap_cons, List.append_assoc]

theorem subset_foldl_merge (f : MetricFamily) (fs : List MetricFamily) :
    f.metrics ⊆ (fs.foldl merge f).metrics := by
  induction fs generalizing f with
  | nil => exact List.Subset.refl _
  | cons g fs ih =>
    have hmerge : f.metrics ⊆ (f.merge g).metrics := by
      unfold merge
      split
      · exact List.Subset.refl _
      · exact List.subset_append_left ..
    exact List.Subset.trans hmerge (ih (f.merge g))

end MetricFamily

def named (items : List MetricFamily) (name : String) : List MetricFamily :=
  items.filter fun fam => fam.name = name

theorem mem_named {items : List MetricFamily} {name : String} {fam : MetricFamily} :
    fam ∈ named items name ↔ fam ∈ items ∧ fam.name = name := by
  rw [named, List.mem_filter, decide_eq_true_eq]

def seriesOf (items : List MetricFamily) (name : String) : List Metric :=
  (named items name).flatMap MetricFamily.metrics

namespace FamilyMerger
variable {m : FamilyMerger} {fam : MetricFamily} {items : List MetricFamily} {name : String}

theorem get_add_self {mf : MetricFamily} (hname : mf.name ≠ "") : (m.add mf).byName.get mf.name =
    some (((m.byName.get mf.name).map fun existing => existing.merge mf).getD mf) := by
  rw [add, if_neg hname]
  split
  · next hget => rw [hget, GoMap.get_insert_self]; rfl
  · next existing hget =>
    rw [hget]
    show _ = some (existing.merge mf)
    unfold MetricFamily.merge
    split
    · exact hget
    · exact GoMap.get_insert_self ..

theorem get_add_of_ne {mf : MetricFamily} (hname : name ≠ mf.name) :
    (m.add mf).byName.get name = m.byName.get name := by
  unfold add
  split
  · rfl
  · split
    · exact GoMap.get_insert_of_ne _ hname _
    · split
      · rfl
      · exact GoMap.get_insert_of_ne _ hname _

def mergeAll : List MetricFamily → Option MetricFamily
  | [] => none
  | f :: fs => some (fs.foldl MetricFamily.merge f)

theorem mergeAll_concat (fs : List MetricFamily) (mf : MetricFamily) : mergeAll (fs ++ [mf]) =
    some (((mergeAll fs).map fun existing => existing.merge mf).getD mf) := by
  cases fs with
  | nil => rfl
  | cons f fs =>
    show some ((fs ++ [mf]).foldl MetricFamily.merge f) = _
    rw [List.foldl_concat]
    rfl

theorem get_foldl (items : List MetricFamily) (hname : name ≠ "") :
    (items.foldl add {}).byName.get name = mergeAll (named items name) := by
  induction items using List.reverseRecOn with
  | nil => rfl
  | append_singleton items mf ih =>
    rw [List.foldl_concat, named, List.filter_append, List.filter_singleton]
    by_cases hn : mf.name = name
    · subst hn
      rw [get_add_self hname, ih, decide_eq_true rfl, cond_true, mergeAll_concat]
      rfl
    · rw [get_add_of_ne (Ne.symm hn), ih, decide_eq_false hn, cond_false, List.append_nil]
      rfl

theorem get_foldl_empty (items : List MetricFamily) :
    (items.foldl add {}).byName.get "" = none := by
  induction items using List.reverseRecOn with
  | nil => rfl
  | append_singleton items mf ih =>
    rw [List.foldl_concat]
    by_cases hn : mf.name = ""
    · rw [add, if_pos hn, ih]
    · rw [get_add_of_ne (Ne.symm hn), ih]

theorem name_of_get_foldl (h : (items.foldl add {}).byName.get name = some fam) :
    fam.name = name := by
  by_cases hname : name = ""
  · subst hname
    rw [get_foldl_empty] at h
    cases h
  · rw [get_foldl items hname] at h
    cases hfs : named items name with
    | nil =>
      rw [hfs] at h
      cases h
    | cons f fs =>
      rw [hfs] at h
      obtain rfl := Option.some.inj h
      rw [MetricFamily.foldl_merge_name]
      have hf : f ∈ named items name := by
        rw [hfs]
        exact List.mem_cons_self
      exact of_decide_eq_true (List.mem_filter.mp hf).2

theorem mem_families : fam ∈ m.families ↔ ∃ name, m.byName.get name = some fam := by
  rw [families, sortByName, List.mem_insertionSort, List.mem_filterMap]
  constructor
  · rintro ⟨name, -, h⟩
    exact ⟨name, h⟩
  · rintro ⟨name, h⟩
    exact ⟨name, List.mem_dedup.mpr (m.byName.covers name (by rw [h]; exact Option.some_ne_none _)), h⟩

theorem named_families (items : List MetricFamily) (name : String) :
    named (items.foldl add {}).families name = ((items.foldl add {}).byName.get name).toList := by
  have hmem : ∀ fam, fam ∈ named (items.foldl add {}).families name ↔
      (items.foldl add {}).byName.get name = some fam := by
    intro fam
    rw [named, List.mem_filter, mem_families, decide_eq_true_eq]
    constructor
    · rintro ⟨⟨other, hget⟩, rfl⟩
      rwa [name_of_get_foldl hget]
    · exact fun hget => ⟨⟨name, hget⟩, name_of_get_foldl hget⟩
  have hnodup : (items.foldl add {}).families.Nodup := by
    refine (List.perm_insertionSort _ _).nodup_iff.mpr ((List.nodup_dedup _).filterMap ?_)
    intro a b fam ha hb
    exact (name_of_get_foldl ha).symm.trans (name_of_get_foldl hb)
  have hnamed := hnodup.filter fun fam => fam.name = name
  cases hget : (items.foldl add {}).byName.get name with
  | none =>
    refine List.eq_nil_iff_forall_not_mem.mpr fun fam hfam => ?_
    rw [hmem, hget] at hfam
    cases hfam
  | some fam =>
    refine List.perm_singleton.mp ((List.perm_ext_iff_of_nodup hnamed (List.nodup_singleton fam)).mpr
      fun other => ?_)
    exact (hmem other).trans (by rw [hget, List.mem_singleton, Option.some.injEq, eq_comm])

theorem seriesOf_families (items : List MetricFamily) (hname : name ≠ "") :
    seriesOf (items.foldl add {}).families name =
      (mergeAll (named items name)).toList.flatMap MetricFamily.metrics := by
  rw [seriesOf, named_families, get_foldl items hname]

theorem seriesOf_families_of_type {type : MetricType} (hname : name ≠ "")
    (h : ∀ fam ∈ named items name, fam.type = type) :
    seriesOf (items.foldl add {}).families name = seriesOf items name := by
  rw [seriesOf_families items hname, seriesOf]
  cases hfs : named items name with
  | nil => rfl
  | cons f fs =>
    rw [hfs] at h
    have htype : ∀ g ∈ fs, g.type = f.type := by
      intro g hg
      rw [h g (List.mem_cons_of_mem _ hg), h f List.mem_cons_self]
    show (fs.foldl MetricFamily.merge f).metrics ++ [] = _
    rw [List.append_nil, MetricFamily.foldl_merge_metrics htype, List.flatMap_cons]

end FamilyMerger
end Hostlink.Controller
