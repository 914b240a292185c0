import Mathlib.Data.List.Perm.Basic
import Hostlink.Lib.Run
import Hostlink.Lib.Slots

/-! Processes that put items into one accumulator, each step under its lock. A process puts the
items of a batch in any order and its batches one after the other. -/

namespace Feed
variable {α β : Type*}

structure State (α β : Type*) where
  pending : List (List (List α))
  acc : β

/-- Item `k` of the first batch that has items, and what is left after it. -/
def takeFrom : List (List α) → Nat → Option (α × List (List α))
  | [], _ => none
  | [] :: rest, k => takeFrom rest k
  | (a :: batch) :: rest, k =>
    (a :: batch)[k]?.map fun item => (item, (a :: batch).eraseIdx k :: rest)

/-- Process `l.1` puts item `l.2` of its batch. -/
def step (add : β → α → β) (s : State α β) (l : Nat × Nat) : Option (State α β) :=
  (s.pending[l.1]?).bind fun batches => (takeFrom batches l.2).map fun r =>
    { pending := s.pending.set l.1 r.2, acc := add s.acc r.1 }

namespace State

def rest (s : State α β) : List α := (s.pending.map List.flatten).flatten

def finished (s : State α β) : Prop := ∀ batches ∈ s.pending, batches.flatten = []

instance [DecidableEq α] (s : State α β) : Decidable s.finished :=
  inferInstanceAs (Decidable (∀ batches ∈ s.pending, batches.flatten = []))

theorem finished_iff {s : State α β} : s.finished ↔ s.rest = [] := by
  rw [rest, List.flatten_eq_nil_iff]
  constructor
  · rintro h l hl
    obtain ⟨batches, hb, rfl⟩ := List.mem_map.mp hl
    exact h batches hb
  · exact fun h batches hb => h _ (List.mem_map_of_mem hb)

end State

variable {add : β → α → β} {s t : State α β}

theorem perm_of_takeFrom {batches left : List (List α)} {k : Nat} {a : α}
    (h : takeFrom batches k = some (a, left)) : batches.flatten.Perm (a :: left.flatten) := by
  induction batches with
  | nil => cases h
  | cons batch rest ih =>
    cases batch with
    | nil => exact ih h
    | cons b batch =>
      obtain ⟨item, hitem, heq⟩ := Option.map_eq_some_iff.mp h
      obtain ⟨rfl, rfl⟩ := Prod.mk.inj heq
      obtain ⟨hlt, hget⟩ := List.getElem?_eq_some_iff.mp hitem
      have hperm := (List.getElem_cons_eraseIdx_perm hlt).symm
      rw [hget] at hperm
      exact hperm.append_right rest.flatten

theorem takeFrom_zero {batches : List (List α)} {a : α} {items : List α}
    (h : batches.flatten = a :: items) :
    ∃ left, takeFrom batches 0 = some (a, left) ∧ left.flatten = items := by
  induction batches with
  | nil => cases h
  | cons batch rest ih =>
    cases batch with
    | nil => exact ih h
    | cons b batch =>
      obtain ⟨rfl, rfl⟩ := List.cons.inj h
      exact ⟨batch :: rest, rfl, rfl⟩

theorem flatten_set_perm {l : List (List α)} {i : Nat} {x y : List α} {a : α}
    (hi : l[i]? = some x) (h : x.Perm (a :: y)) : l.flatten.Perm (a :: (l.set i y).flatten) := by
  induction l generalizing i with
  | nil => cases hi
  | cons z l ih =>
    cases i with
    | zero =>
      obtain rfl := Option.some.inj hi
      exact h.append_right l.flatten
    | succ i =>
      have htail := (ih hi).append_left z
      exact htail.trans (List.perm_middle)

theorem rest_set_perm {i : Nat} {batches left : List (List α)} {a : α} (acc : β)
    (hi : s.pending[i]? = some batches) (h : batches.flatten.Perm (a :: left.flatten)) :
    s.rest.Perm (a :: State.rest ⟨s.pending.set i left, acc⟩) := by
  have hget : (s.pending.map List.flatten)[i]? = some batches.flatten := by
    rw [List.getElem?_map, hi, Option.map_some]
  have hperm := flatten_set_perm hget h
  rw [← List.map_set] at hperm
  exact hperm

/-! ### Which item of a kind comes first -/

section Kind
variable {p : α → Bool}

/-- The items of the kind in the first batch that has one: any of them can be put first. -/
def firstOf (p : α → Bool) : List (List α) → List α
  | [] => []
  | batch :: rest => if batch.filter p = [] then firstOf p rest else batch.filter p

theorem filter_eraseIdx {l : List α} {k : Nat} {a : α} (h : l[k]? = some a) (hp : p a = false) :
    (l.eraseIdx k).filter p = l.filter p := by
  induction l generalizing k with
  | nil => rfl
  | cons b l ih =>
    cases k with
    | zero =>
      obtain rfl := Option.some.inj h
      rw [List.eraseIdx_cons_zero, List.filter_cons_of_neg (by rw [hp]; exact Bool.false_ne_true)]
    | succ k =>
      rw [List.eraseIdx_cons_succ, List.filter_cons, List.filter_cons, ih h]

theorem firstOf_takeFrom {batches left : List (List α)} {k : Nat} {a : α}
    (h : takeFrom batches k = some (a, left)) :
    if p a then a ∈ firstOf p batches else firstOf p left = firstOf p batches := by
  induction batches with
  | nil => cases h
  | cons batch rest ih =>
    cases batch with
    | nil => exact ih h
    | cons b batch =>
      obtain ⟨item, hitem, heq⟩ := Option.map_eq_some_iff.mp h
      obtain ⟨rfl, rfl⟩ := Prod.mk.inj heq
      split
      · next hp =>
        have hmem : item ∈ (b :: batch).filter p :=
          List.mem_filter.mpr ⟨List.mem_of_getElem? hitem, hp⟩
        rw [firstOf, if_neg (List.ne_nil_of_mem hmem)]
        exact hmem
      · next hp =>
        rw [firstOf, firstOf, filter_eraseIdx hitem (Bool.not_eq_true _ ▸ hp)]

theorem firstOf_eq_head {batches : List (List α)}
    (h : ∀ batch ∈ batches, (batch.filter p).length ≤ 1) :
    firstOf p batches = (batches.flatten.filter p).head?.toList := by
  induction batches with
  | nil => rfl
  | cons batch rest ih =>
    have hone := h batch List.mem_cons_self
    rw [firstOf, List.flatten_cons, List.filter_append]
    cases hbatch : batch.filter p with
    | nil => exact ih fun b hb => h b (List.mem_cons_of_mem _ hb)
    | cons a l =>
      rw [hbatch] at hone
      obtain rfl : l = [] := List.eq_nil_of_length_eq_zero (by simpa using hone)
      rfl

theorem step_item_first (p : α → Bool) {l : Nat × Nat} (h : step add s l = some t) :
    ∃ a, t.acc = add s.acc a ∧ s.rest.Perm (a :: t.rest) ∧
      if p a then ∃ batches ∈ s.pending, a ∈ firstOf p batches
      else t.pending.map (firstOf p) = s.pending.map (firstOf p) := by
  obtain ⟨batches, hb, h⟩ := Option.bind_eq_some_iff.mp h
  obtain ⟨⟨a, left⟩, htake, rfl⟩ := Option.map_eq_some_iff.mp h
  refine ⟨a, rfl, rest_set_perm _ hb (perm_of_takeFrom htake), ?_⟩
  have htaken := firstOf_takeFrom (p := p) htake
  split at htaken
  · next hp =>
    rw [if_pos hp]
    exact ⟨batches, List.mem_of_getElem? hb, htaken⟩
  · next hp =>
    rw [if_neg hp]
    exact List.map_set_of_eq hb htaken

/-- Along a run: the first item of the kind is one that its process can put first. -/
theorem run_items_first (p : α → Bool) {ls : List (Nat × Nat)} (h : Lts.AnyRun (step add) s ls t) :
    ∃ items, t.acc = items.foldl add s.acc ∧ s.rest.Perm (items ++ t.rest) ∧
      match items.filter p with
      | [] => t.pending.map (firstOf p) = s.pending.map (firstOf p)
      | a :: _ => ∃ batches ∈ s.pending, a ∈ firstOf p batches := by
  induction h with
  | nil => exact ⟨[], rfl, List.Perm.refl _, rfl⟩
  | @snoc u v _ _ _ _ hstep ih =>
    obtain ⟨items, hacc, hperm, hfirst⟩ := ih
    obtain ⟨a, hadd, hitem, hkind⟩ := step_item_first p hstep
    refine ⟨items ++ [a], ?_, hperm.trans ?_, ?_⟩
    · rw [hadd, hacc, List.foldl_concat]
    · rw [List.append_assoc]
      exact hitem.append_left items
    · rw [List.filter_append]
      cases hitems : items.filter p with
      | cons first _ =>
        -- an item of the kind was put before
        rw [hitems] at hfirst
        exact hfirst
      | nil =>
        rw [hitems] at hfirst
        by_cases hp : p a = true
        · rw [if_pos hp] at hkind
          obtain ⟨batches, hb, hmem⟩ := hkind
          have hsame : firstOf p batches ∈ s.pending.map (firstOf p) := by
            rw [← hfirst]
            exact List.mem_map_of_mem hb
          obtain ⟨batches', hb', heq⟩ := List.mem_map.mp hsame
          rw [← heq] at hmem
          rw [List.filter_cons_of_pos hp]
          exact ⟨batches', hb', hmem⟩
        · rw [if_neg hp] at hkind
          rw [List.filter_cons_of_neg hp]
          exact hkind.trans hfirst

end Kind

theorem step_item {l : Nat × Nat} (h : step add s l = some t) :
    ∃ a, t.acc = add s.acc a ∧ s.rest.Perm (a :: t.rest) := by
  obtain ⟨a, hadd, hperm, -⟩ := step_item_first (fun _ => false) h
  exact ⟨a, hadd, hperm⟩

theorem run_items {ls : List (Nat × Nat)} (h : Lts.AnyRun (step add) s ls t) :
    ∃ items, t.acc = items.foldl add s.acc ∧ s.rest.Perm (items ++ t.rest) := by
  obtain ⟨items, hacc, hperm, -⟩ := run_items_first (fun _ => false) h
  exact ⟨items, hacc, hperm⟩

theorem run_items_of_finished {ls : List (Nat × Nat)} (h : Lts.AnyRun (step add) s ls t)
    (hfinished : t.finished) : ∃ items, t.acc = items.foldl add s.acc ∧ s.rest.Perm items := by
  obtain ⟨items, hacc, hperm⟩ := run_items h
  rw [State.finished_iff.mp hfinished, List.append_nil] at hperm
  exact ⟨items, hacc, hperm⟩

theorem step_first (add : β → α → β) {i : Nat} {batches : List (List α)} {a : α}
    {items : List α} (hi : s.pending[i]? = some batches) (h : batches.flatten = a :: items) :
    ∃ left, step add s (i, 0) = some ⟨s.pending.set i left, add s.acc a⟩ ∧ left.flatten = items := by
  obtain ⟨left, htake, hleft⟩ := takeFrom_zero h
  refine ⟨left, ?_, hleft⟩
  rw [step, hi, Option.bind_some, htake, Option.map_some]

theorem exists_run_alone (add : β → α → β) {i : Nat} {batches : List (List α)}
    (hi : s.pending[i]? = some batches) :
    ∃ ls t, Lts.AnyRun (step add) s ls t ∧ t.acc = batches.flatten.foldl add s.acc ∧
      s.rest.Perm (batches.flatten ++ t.rest) := by
  generalize hitems : batches.flatten = items
  induction items generalizing s batches with
  | nil => exact ⟨[], s, .nil, rfl, List.Perm.refl _⟩
  | cons a items ih =>
    have hlt : i < s.pending.length := (List.getElem?_eq_some_iff.mp hi).1
    obtain ⟨left, hstep, hleft⟩ := step_first add hi hitems
    obtain ⟨ls, t, hrun, hacc, hperm⟩ :=
      ih (s := ⟨s.pending.set i left, add s.acc a⟩) (List.getElem?_set_self hlt) hleft
    refine ⟨(i, 0) :: ls, t, .cons trivial hstep hrun, hacc, ?_⟩
    have hfirst : batches.flatten.Perm (a :: left.flatten) := by rw [hitems, hleft]
    exact (rest_set_perm (add s.acc a) hi hfirst).trans (hperm.cons a)

theorem exists_run_finished (add : β → α → β) (s : State α β) :
    ∃ ls t, Lts.AnyRun (step add) s ls t ∧ t.finished := by
  generalize hn : s.rest.length = n
  induction n generalizing s with
  | zero => exact ⟨[], s, .nil, State.finished_iff.mpr (List.eq_nil_of_length_eq_zero hn)⟩
  | succ n ih =>
    have hbusy : ¬ s.finished := by
      rw [State.finished_iff]
      intro hnil
      rw [hnil] at hn
      cases hn
    simp only [State.finished, not_forall] at hbusy
    obtain ⟨batches, hmem, hne⟩ := hbusy
    obtain ⟨i, hi⟩ := List.getElem?_of_mem hmem
    obtain ⟨a, items, hitems⟩ := List.exists_cons_of_ne_nil hne
    obtain ⟨left, hstep, -⟩ := step_first add hi hitems
    obtain ⟨b, -, hperm⟩ := step_item hstep
    have hlen := hperm.length_eq
    rw [hn, List.length_cons] at hlen
    obtain ⟨ls, t, hrun, hfinished⟩ := ih _ (Nat.succ.inj hlen).symm
    exact ⟨(i, 0) :: ls, t, .cons trivial hstep hrun, hfinished⟩

end Feed
