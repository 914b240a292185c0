import Hostlink.Controller.Metrics
import Hostlink.Lib.GoSort

/-! What `families` returns after any sequence of `add` calls, and what of it does not depend on the
order in which the agents answer. -/

namespace Hostlink.Controller

def MetricFamily.Before (f g : MetricFamily) : Prop := GoStrings.lt f.name g.name = true

structure MetricFamily.SameSeries (f g : MetricFamily) : Prop where
  name : f.name = g.name
  type : f.type = g.type
  metrics : f.metrics.Perm g.metrics

def TypesAgree (items : List MetricFamily) : Prop :=
  ∀ f ∈ items, ∀ g ∈ items, f.name ≠ "" → f.name = g.name → f.type = g.type

theorem TypesAgree.of_perm {items items' : List MetricFamily} (h : TypesAgree items)
    (hperm : items.Perm items') : TypesAgree items' :=
  fun f hf g hg => h f (hperm.mem_iff.mpr hf) g (hperm.mem_iff.mpr hg)

instance total_le_name {α : Type} (name : α → String) :
    Std.Total fun a b => GoStrings.le (name a) (name b) = true :=
  ⟨fun a b => GoStrings.le_total (name a) (name b)⟩

instance trans_le_name {α : Type} (name : α → String) :
    IsTrans α fun a b => GoStrings.le (name a) (name b) = true :=
  ⟨fun _ _ _ => GoStrings.le_trans⟩

theorem sortByName_pairwise {α : Type} (name : α → String) (l : List α) :
    (sortByName name l).Pairwise fun a b => GoStrings.le (name a) (name b) = true :=
  List.pairwise_insertionSort _ l

theorem sortByName_perm {α : Type} (name : α → String) (l : List α) :
    (sortByName name l).Perm l := List.perm_insertionSort _ l

theorem sortByName_eq_of_perm {α : Type} {name : α → String} {l m : List α} (h : l.Perm m)
    (hinj : ∀ a ∈ l, ∀ b ∈ l, name a = name b → a = b) : sortByName name l = sortByName name m := by
  apply List.insertionSort_eq_of_perm h
  intro a ha b hb hab hba
  exact hinj a ha b hb (GoStrings.le_antisymm hab hba)

theorem named_perm {items items' : List MetricFamily} (h : items.Perm items') (name : String) :
    (named items name).Perm (named items' name) := h.filter _

namespace MetricFamily

theorem foldl_merge_metrics_filter (f : MetricFamily) (fs : List MetricFamily) :
    (fs.foldl merge f).type = f.type ∧ (fs.foldl merge f).metrics =
      ((f :: fs).filter fun g => g.type = f.type).flatMap metrics := by
  rw [List.filter_cons_of_pos (by simp), List.flatMap_cons]
  induction fs generalizing f with
  | nil => exact ⟨rfl, (List.append_nil _).symm⟩
  | cons g fs ih =>
    obtain ⟨htype, hmetrics⟩ := ih (f.merge g)
    rw [List.foldl_cons, htype, hmetrics, merge_type]
    refine ⟨rfl, ?_⟩
    by_cases hg : g.type = f.type
    · rw [List.filter_cons_of_pos (by simpa using hg), List.flatMap_cons, ← List.append_assoc, merge,
        if_neg (not_not.mpr hg.symm)]
    · rw [List.filter_cons_of_neg (by simpa using hg), merge, if_pos (Ne.symm hg)]

end MetricFamily

namespace FamilyMerger
variable {items items' : List MetricFamily} {fam : MetricFamily} {name : String}

def familiesIn (m : FamilyMerger) (order : List String) : List MetricFamily :=
  sortByName MetricFamily.name (order.filterMap m.byName.get)

theorem filterMap_nodup {order : List String} (h : order.Nodup) :
    (order.filterMap (items.foldl add {}).byName.get).Nodup := by
  refine h.filterMap fun a b fam ha hb => ?_
  exact (name_of_get_foldl ha).symm.trans (name_of_get_foldl hb)

theorem familiesIn_eq {order : List String} (h : (items.foldl add {}).byName.Iteration order) :
    (items.foldl add {}).familiesIn order = (items.foldl add {}).families := by
  set m := items.foldl add {} with hm
  refine sortByName_eq_of_perm ?_ ?_
  · refine (List.perm_ext_iff_of_nodup (filterMap_nodup h.nodup)
      (filterMap_nodup (List.nodup_dedup _))).mpr fun fam => ?_
    have hkeys : ∀ name, m.byName.get name = some fam → name ∈ order ∧ name ∈ m.byName.keys.dedup := by
      intro name hget
      have hne : m.byName.get name ≠ none := by
        rw [hget]
        exact Option.some_ne_none _
      exact ⟨(h.visits name).mpr hne, List.mem_dedup.mpr (m.byName.covers name hne)⟩
    simp only [List.mem_filterMap]
    constructor
    · rintro ⟨name, -, hget⟩
      exact ⟨name, (hkeys name hget).2, hget⟩
    · rintro ⟨name, -, hget⟩
      exact ⟨name, (hkeys name hget).1, hget⟩
  · intro f hf g hg hname
    obtain ⟨a, -, ha⟩ := List.mem_filterMap.mp hf
    obtain ⟨b, -, hb⟩ := List.mem_filterMap.mp hg
    have hab : a = b := by rw [← name_of_get_foldl ha, hname, name_of_get_foldl hb]
    rw [hab, hb] at ha
    exact (Option.some.inj ha).symm

theorem mem_families_foldl : fam ∈ (items.foldl add {}).families ↔
    fam.name ≠ "" ∧ mergeAll (named items fam.name) = some fam := by
  rw [mem_families]
  constructor
  · rintro ⟨name, hget⟩
    obtain rfl := name_of_get_foldl hget
    have hne : fam.name ≠ "" := by
      intro hempty
      rw [hempty, get_foldl_empty] at hget
      cases hget
    exact ⟨hne, (get_foldl items hne).symm.trans hget⟩
  · rintro ⟨hne, hmerge⟩
    exact ⟨fam.name, (get_foldl items hne).trans hmerge⟩

theorem families_strict (items : List MetricFamily) :
    (items.foldl add {}).families.Pairwise MetricFamily.Before := by
  have hle : (items.foldl add {}).families.Pairwise
      fun f g => GoStrings.le f.name g.name = true := sortByName_pairwise _ _
  have hnodup : (items.foldl add {}).families.Nodup :=
    (sortByName_perm _ _).nodup_iff.mpr (filterMap_nodup (List.nodup_dedup _))
  refine (hle.and hnodup).imp_of_mem ?_
  rintro f g hf hg ⟨hfg, hne⟩
  have hname : f.name ≠ g.name := by
    intro heq
    have hf' := (mem_families_foldl.mp hf).2
    rw [heq, (mem_families_foldl.mp hg).2] at hf'
    exact hne (Option.some.inj hf').symm
  rw [MetricFamily.Before, GoStrings.lt, hfg, Bool.true_and]
  exact bne_iff_ne.mpr hname

theorem mem_names_families (items : List MetricFamily) (name : String) :
    name ∈ (items.foldl add {}).families.map MetricFamily.name ↔
      name ≠ "" ∧ name ∈ items.map MetricFamily.name := by
  simp only [List.mem_map]
  constructor
  · rintro ⟨fam, hfam, rfl⟩
    obtain ⟨hne, hmerge⟩ := mem_families_foldl.mp hfam
    refine ⟨hne, ?_⟩
    cases hnamed : named items fam.name with
    | nil =>
      rw [hnamed] at hmerge
      cases hmerge
    | cons first rest =>
      have hfirst : first ∈ named items fam.name := by
        rw [hnamed]
        exact List.mem_cons_self
      exact ⟨first, mem_named.mp hfirst⟩
  · rintro ⟨hne, mf, hmf, rfl⟩
    have hmem : mf ∈ named items mf.name := mem_named.mpr ⟨hmf, rfl⟩
    cases hnamed : named items mf.name with
    | nil =>
      rw [hnamed] at hmem
      exact absurd hmem List.not_mem_nil
    | cons first rest =>
      have hget : (items.foldl add {}).byName.get mf.name =
          some (rest.foldl MetricFamily.merge first) := by
        rw [get_foldl items hne, hnamed]
        rfl
      exact ⟨_, mem_families.mpr ⟨_, hget⟩, name_of_get_foldl hget⟩

theorem series_of_mem_families (h : fam ∈ (items.foldl add {}).families) :
    ∃ first rest, named items fam.name = first :: rest ∧ fam.type = first.type ∧
      fam.metrics =
        ((named items fam.name).filter fun g => g.type = fam.type).flatMap MetricFamily.metrics := by
  obtain ⟨-, hmerge⟩ := mem_families_foldl.mp h
  cases hnamed : named items fam.name with
  | nil =>
    rw [hnamed] at hmerge
    cases hmerge
  | cons first rest =>
    rw [hnamed] at hmerge
    have hfam : rest.foldl MetricFamily.merge first = fam := Option.some.inj hmerge
    obtain ⟨htype, hmetrics⟩ := MetricFamily.foldl_merge_metrics_filter first rest
    rw [hfam] at htype hmetrics
    refine ⟨first, rest, rfl, htype, ?_⟩
    rw [hmetrics, htype]

theorem sameSeries_of_perm (hperm : items.Perm items') (hagree : TypesAgree items)
    {fam' : MetricFamily} (hfam : fam ∈ (items.foldl add {}).families)
    (hfam' : fam' ∈ (items'.foldl add {}).families) (hname : fam.name = fam'.name) :
    fam.SameSeries fam' := by
  obtain ⟨hne, -⟩ := mem_families_foldl.mp hfam
  obtain ⟨first, rest, hnamed, htype, hmetrics⟩ := series_of_mem_families hfam
  obtain ⟨first', rest', hnamed', htype', hmetrics'⟩ := series_of_mem_families hfam'
  have hfirst : first ∈ named items fam.name := by
    rw [hnamed]
    exact List.mem_cons_self
  have hfirst' : first' ∈ named items fam.name := by
    rw [hname, (named_perm hperm _).mem_iff, hnamed']
    exact List.mem_cons_self
  obtain ⟨hmem, hn⟩ := mem_named.mp hfirst
  obtain ⟨hmem', hn'⟩ := mem_named.mp hfirst'
  have htypes : fam.type = fam'.type := by
    rw [htype, htype']
    exact hagree first hmem first' hmem' (hn ▸ hne) (hn.trans hn'.symm)
  refine ⟨hname, htypes, ?_⟩
  rw [hmetrics, hmetrics', htypes, hname]
  exact ((named_perm hperm _).filter _).flatMap_right _

theorem names_eq_of_perm (hperm : items.Perm items') :
    (items.foldl add {}).families.map MetricFamily.name =
      (items'.foldl add {}).families.map MetricFamily.name := by
  have hsorted : ∀ l : List MetricFamily, ((l.foldl add {}).families.map
      MetricFamily.name).Pairwise fun s t => GoStrings.lt s t = true :=
    fun l => List.pairwise_map.mpr (families_strict l)
  have hirrefl : ∀ s t, GoStrings.lt s t = true → GoStrings.le s t = true ∧ s ≠ t := by
    intro s t h
    rw [GoStrings.lt, Bool.and_eq_true, bne_iff_ne] at h
    exact h
  have hanti : Std.Antisymm fun s t => GoStrings.lt s t = true :=
    ⟨fun s t hst hts => GoStrings.le_antisymm (hirrefl s t hst).1 (hirrefl t s hts).1⟩
  have hnotself : Std.Irrefl fun s t => GoStrings.lt s t = true :=
    ⟨fun s h => (hirrefl s s h).2 rfl⟩
  refine List.Pairwise.eq_of_mem_iff (hsorted items) (hsorted items') fun name => ?_
  rw [mem_names_families, mem_names_families, (hperm.map MetricFamily.name).mem_iff]

theorem forall₂_of_names {R : MetricFamily → MetricFamily → Prop} {l l' : List MetricFamily}
    (hnames : l.map MetricFamily.name = l'.map MetricFamily.name)
    (h : ∀ f ∈ l, ∀ g ∈ l', f.name = g.name → R f g) : List.Forall₂ R l l' := by
  induction l generalizing l' with
  | nil =>
    obtain rfl := List.map_eq_nil_iff.mp hnames.symm
    exact .nil
  | cons f l ih =>
    obtain ⟨g, l', rfl, hg, hl'⟩ := List.map_eq_cons_iff.mp hnames.symm
    refine .cons (h f List.mem_cons_self g List.mem_cons_self hg.symm) (ih hl'.symm ?_)
    exact fun f' hf' g' hg' => h f' (List.mem_cons_of_mem _ hf') g' (List.mem_cons_of_mem _ hg')

theorem sameSeries_families (hagree : TypesAgree items) (hperm : items.Perm items') :
    List.Forall₂ MetricFamily.SameSeries (items.foldl add {}).families
      (items'.foldl add {}).families :=
  forall₂_of_names (names_eq_of_perm hperm) fun _ hf _ hg => sameSeries_of_perm hperm hagree hf hg

/-- The merged families: sorted, one per name, with the series of the first type in add order; and
where the types agree, the order of the adds shows only in the order of the series. -/
theorem merged_families (items : List MetricFamily) :
    let m := items.foldl add {}
    (∀ order, m.byName.Iteration order → m.familiesIn order = m.families) ∧
    m.families.Pairwise MetricFamily.Before ∧
    (∀ name, name ∈ m.families.map MetricFamily.name ↔
      name ≠ "" ∧ name ∈ items.map MetricFamily.name) ∧
    (∀ fam ∈ m.families, ∃ first rest, named items fam.name = first :: rest ∧
      fam.type = first.type ∧ fam.metrics =
        ((named items fam.name).filter fun g => g.type = fam.type).flatMap MetricFamily.metrics) ∧
    (TypesAgree items → ∀ items', items.Perm items' →
      List.Forall₂ MetricFamily.SameSeries m.families (items'.foldl add {}).families) := by
  refine ⟨fun _ => familiesIn_eq, families_strict items, mem_names_families items,
    fun _ => series_of_mem_families, fun hagree _ => sameSeries_families hagree⟩

/-- The gauges of two agents, added in either order. -/
theorem merged_families_two_agents :
    TypesAgree [agentUpFamily "b" true, agentUpFamily "a" false] ∧
      List.Forall₂ MetricFamily.SameSeries
        ([agentUpFamily "b" true, agentUpFamily "a" false].foldl add {}).families
        ([agentUpFamily "a" false, agentUpFamily "b" true].foldl add {}).families := by
  have hagree : TypesAgree [agentUpFamily "b" true, agentUpFamily "a" false] := by
    intro f hf g hg _ _
    simp only [List.mem_cons, List.not_mem_nil, or_false] at hf hg
    rcases hf with rfl | rfl <;> rcases hg with rfl | rfl <;> rfl
  exact ⟨hagree, (merged_families _).2.2.2.2 hagree _ (List.Perm.swap ..)⟩

end FamilyMerger

end Hostlink.Controller
