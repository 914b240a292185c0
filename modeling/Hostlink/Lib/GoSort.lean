import Mathlib.Data.List.Sort

/-! `sort.Slice` and its relatives, which may leave elements in any order that the comparison does not
tell apart. Where it tells all of them apart, the outcome depends only on what was sorted. -/

namespace List
variable {α : Type*}

theorem insertionSort_eq_of_perm {r : α → α → Prop} [DecidableRel r] [Std.Total r] [IsTrans α r]
    {l m : List α} (h : l.Perm m) (hanti : ∀ a ∈ l, ∀ b ∈ l, r a b → r b a → a = b) :
    l.insertionSort r = m.insertionSort r := by
  have hl : (l.insertionSort r).Perm l := perm_insertionSort r l
  have hm : (m.insertionSort r).Perm m := perm_insertionSort r m
  apply Perm.eq_of_pairwise _ (pairwise_insertionSort r l) (pairwise_insertionSort r m)
    ((hl.trans h).trans hm.symm)
  intro a b ha hb
  exact hanti a (hl.mem_iff.mp ha) b (h.mem_iff.mpr (hm.mem_iff.mp hb))

section Key
variable {β : Type*} [LinearOrder β] (key : α → β)

instance total_le_key : Std.Total fun a b => key a ≤ key b := ⟨fun a b => le_total (key a) (key b)⟩

instance trans_le_key : IsTrans α fun a b => key a ≤ key b := ⟨fun _ _ _ => le_trans⟩

theorem pairwise_lt_insertionSort {l : List α} (h : l.Pairwise fun a b => key a ≠ key b) :
    (l.insertionSort fun a b => key a ≤ key b).Pairwise fun a b => key a < key b := by
  have hle := pairwise_insertionSort (fun a b => key a ≤ key b) l
  have hne := ((perm_insertionSort (fun a b => key a ≤ key b) l).pairwise_iff Ne.symm).mpr h
  exact (hle.and hne).imp fun hab => lt_of_le_of_ne hab.1 hab.2

end Key
end List
