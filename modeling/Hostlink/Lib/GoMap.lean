import Mathlib.Logic.Function.Basic
import Mathlib.Data.List.Dedup
import Mathlib.Tactic.Common

/-! Go maps: finite maps, read as functions. `keys` may name keys that are no longer there; it
only has to cover those that are, so that a loop over the map can be run. -/

@[ext]
structure GoMap (κ ν : Type*) where
  get : κ → Option ν
  keys : List κ
  covers : ∀ k, get k ≠ none → k ∈ keys

namespace GoMap
variable {κ ν ω : Type*}

def empty : GoMap κ ν := ⟨fun _ => none, [], fun _ h => absurd rfl h⟩

/-- `for k, v := range m` with a body that keeps, changes or drops the entry. -/
def filterMap (m : GoMap κ ν) (f : κ → ν → Option ω) : GoMap κ ω where
  get k := (m.get k).bind (f k)
  keys := m.keys
  covers := fun k h => m.covers k fun hn => h (by rw [hn, Option.bind_none])

def isEmpty (m : GoMap κ ν) : Bool := m.keys.all fun k => (m.get k).isNone

/-- The keys as one loop over the map visits them: each once, in any order. -/
structure Iteration (m : GoMap κ ν) (order : List κ) : Prop where
  nodup : order.Nodup
  visits : ∀ k, k ∈ order ↔ m.get k ≠ none

theorem Iteration.mem_of_get {m : GoMap κ ν} {order : List κ} {k : κ} {v : ν} (h : m.Iteration order)
    (hget : m.get k = some v) : k ∈ order :=
  (h.visits k).mpr (hget ▸ Option.some_ne_none v)

section Update
variable [DecidableEq κ]

def present (m : GoMap κ ν) : List κ := m.keys.dedup.filter fun k => (m.get k).isSome

theorem mem_present {m : GoMap κ ν} {k : κ} : k ∈ m.present ↔ m.get k ≠ none := by
  rw [present, List.mem_filter, List.mem_dedup, Option.isSome_iff_ne_none]
  exact ⟨And.right, fun h => ⟨m.covers k h, h⟩⟩

theorem nodup_present (m : GoMap κ ν) : m.present.Nodup := (List.nodup_dedup _).filter _

theorem iteration_iff {m : GoMap κ ν} {order : List κ} : m.Iteration order ↔
    order.Nodup ∧ (∀ k ∈ order, (m.get k).isSome) ∧ ∀ k ∈ m.present, k ∈ order := by
  constructor
  · rintro ⟨hnodup, hvisits⟩
    refine ⟨hnodup, fun k hk => ?_, fun k hk => (hvisits k).mpr (mem_present.mp hk)⟩
    exact Option.isSome_iff_ne_none.mpr ((hvisits k).mp hk)
  · rintro ⟨hnodup, hsome, hall⟩
    refine ⟨hnodup, fun k => ⟨fun hk => Option.isSome_iff_ne_none.mp (hsome k hk), fun hk => ?_⟩⟩
    exact hall k (mem_present.mpr hk)

instance (m : GoMap κ ν) (order : List κ) : Decidable (m.Iteration order) :=
  decidable_of_iff _ iteration_iff.symm

def insert (m : GoMap κ ν) (k : κ) (v : ν) : GoMap κ ν where
  get := Function.update m.get k (some v)
  keys := k :: m.keys
  covers := fun j h => by
    by_cases hj : j = k
    · exact hj ▸ List.mem_cons_self
    · rw [Function.update_of_ne hj] at h
      exact List.mem_cons_of_mem _ (m.covers j h)

def erase (m : GoMap κ ν) (k : κ) : GoMap κ ν where
  get := Function.update m.get k none
  keys := m.keys
  covers := fun j h => by
    by_cases hj : j = k
    · rw [hj, Function.update_self] at h
      exact absurd rfl h
    · rw [Function.update_of_ne hj] at h
      exact m.covers j h

@[simp] theorem get_insert_self (m : GoMap κ ν) (k : κ) (v : ν) : (m.insert k v).get k = some v :=
  Function.update_self ..

theorem get_insert_of_ne (m : GoMap κ ν) {k j : κ} (h : j ≠ k) (v : ν) :
    (m.insert k v).get j = m.get j :=
  Function.update_of_ne h ..

theorem get_of_get_insert {m : GoMap κ ν} {k j : κ} {v w : ν} (h : (m.insert k v).get j = some w) :
    j = k ∧ w = v ∨ m.get j = some w := by
  by_cases hj : j = k
  · subst hj
    rw [get_insert_self, Option.some.injEq] at h
    exact .inl ⟨rfl, h.symm⟩
  · exact .inr (by rwa [get_insert_of_ne m hj] at h)

@[simp] theorem get_erase_self (m : GoMap κ ν) (k : κ) : (m.erase k).get k = none :=
  Function.update_self ..

theorem get_erase_of_ne (m : GoMap κ ν) {k j : κ} (h : j ≠ k) : (m.erase k).get j = m.get j :=
  Function.update_of_ne h ..

theorem get_of_get_erase {m : GoMap κ ν} {k j : κ} {v : ν} (h : (m.erase k).get j = some v) :
    m.get j = some v := by
  by_cases hj : j = k
  · rw [hj, get_erase_self] at h
    cases h
  · rwa [get_erase_of_ne m hj] at h

section Indexes
variable [DecidableEq ν] {m : GoMap κ ν} {g : ν → Option κ} {k : κ} {v : ν}

def Indexes (m : GoMap κ ν) (g : ν → Option κ) : Prop := ∀ k v, m.get k = some v ↔ g v = some k

theorem Indexes.insert (h : m.Indexes g) (hk : ∀ w, g w ≠ some k) (hv : g v = none) :
    (m.insert k v).Indexes (Function.update g v (some k)) := by
  intro j w
  by_cases hj : j = k
  · subst hj
    by_cases hw : w = v
    · subst hw
      rw [get_insert_self, Function.update_self, eq_self, eq_self]
    · rw [get_insert_self, Function.update_of_ne hw]
      exact iff_of_false (fun he => hw (Option.some.inj he).symm) (hk w)
  · rw [get_insert_of_ne m hj, h j w]
    by_cases hw : w = v
    · subst hw
      rw [hv, Function.update_self]
      exact iff_of_false (Option.some_ne_none j).symm fun he => hj (Option.some.inj he).symm
    · rw [Function.update_of_ne hw]

theorem Indexes.erase (h : m.Indexes g) (hv : g v = some k) :
    (m.erase k).Indexes (Function.update g v none) := by
  have hget : m.get k = some v := (h k v).mpr hv
  intro j w
  by_cases hj : j = k
  · subst hj
    rw [get_erase_self]
    refine iff_of_false (Option.some_ne_none w).symm fun he => ?_
    by_cases hw : w = v
    · rw [hw, Function.update_self] at he
      cases he
    · rw [Function.update_of_ne hw, ← h j w, hget] at he
      exact hw (Option.some.inj he).symm
  · rw [get_erase_of_ne m hj, h j w]
    by_cases hw : w = v
    · subst hw
      rw [hv, Function.update_self]
      exact iff_of_false (fun he => hj (Option.some.inj he).symm) (Option.some_ne_none j).symm
    · rw [Function.update_of_ne hw]

end Indexes
end Update

@[simp] theorem get_empty (k : κ) : (empty : GoMap κ ν).get k = none := rfl

@[simp] theorem get_filterMap (m : GoMap κ ν) (f : κ → ν → Option ω) (k : κ) :
    (m.filterMap f).get k = (m.get k).bind (f k) := rfl

theorem filterMap_insert [DecidableEq κ] (m : GoMap κ ν) (k : κ) (v : ν) {f : κ → ν → Option ω} {w : ω}
    (h : f k v = some w) : (m.insert k v).filterMap f = (m.filterMap f).insert k w := by
  ext1
  · funext j
    by_cases hj : j = k
    · subst hj
      rw [get_filterMap, get_insert_self, get_insert_self, Option.bind_some, h]
    · rw [get_filterMap, get_insert_of_ne _ hj, get_insert_of_ne _ hj, get_filterMap]
  · rfl

theorem filterMap_erase [DecidableEq κ] (m : GoMap κ ν) (k : κ) (f : κ → ν → Option ω) :
    (m.erase k).filterMap f = (m.filterMap f).erase k := by
  ext1
  · funext j
    by_cases hj : j = k
    · subst hj
      rw [get_filterMap, get_erase_self, get_erase_self, Option.bind_none]
    · rw [get_filterMap, get_erase_of_ne _ hj, get_erase_of_ne _ hj, get_filterMap]
  · rfl

theorem isEmpty_iff (m : GoMap κ ν) : m.isEmpty = true ↔ ∀ k, m.get k = none := by
  simp only [isEmpty, List.all_eq_true, Option.isNone_iff_eq_none]
  constructor
  · intro h k
    by_contra hk
    exact hk (h k (m.covers k hk))
  · exact fun h k _ => h k

end GoMap
