import Mathlib.Data.List.Basic
import Mathlib.Logic.Function.Basic
import Mathlib.Tactic.Common

/-! Lists as numbered processes: one step replaces one entry. -/

namespace List
variable {α : Type*} {l : List α} {i n : Nat} {a b c : α}

theorem getElem?_of_set (h : (l.set i a)[n]? = some b) :
    (n ≠ i ∧ l[n]? = some b) ∨ n = i ∧ b = a := by
  by_cases hn : n = i
  · subst hn
    have hlt : n < l.length := by simpa using (getElem?_eq_some_iff.mp h).1
    rw [getElem?_set_self hlt] at h
    exact .inr ⟨rfl, (Option.some.inj h).symm⟩
  · exact .inl ⟨hn, by rwa [getElem?_set_ne (Ne.symm hn)] at h⟩

theorem getElem?_set_of (hi : l[i]? = some c) (h : l[n]? = some b) :
    (l.set i a)[n]? = some b ∨ (l.set i a)[n]? = some a ∧ b = c := by
  by_cases hn : n = i
  · subst hn
    exact .inr ⟨getElem?_set_self (getElem?_eq_some_iff.mp h).1, Option.some.inj (h.symm.trans hi)⟩
  · exact .inl (by rwa [getElem?_set_ne (Ne.symm hn)])

theorem getElem?_of_concat (h : (l ++ [a])[n]? = some b) :
    l[n]? = some b ∨ n = l.length ∧ b = a := by
  have hlt := (getElem?_eq_some_iff.mp h).1
  rw [length_append, length_singleton] at hlt
  rw [getElem?_append] at h
  split at h
  · exact .inl h
  · next hge => exact .inr ⟨by omega, mem_singleton.mp (mem_of_getElem? h)⟩

theorem getElem?_append_of (h : l[n]? = some b) (m : List α) : (l ++ m)[n]? = some b :=
  (getElem?_append_left (getElem?_eq_some_iff.mp h).1).trans h

theorem apply_getElem?_concat {β : Type*} {f : Option α → β} (ha : f (some a) = f none) (n : Nat) :
    f (l ++ [a])[n]? = f l[n]? := by
  cases h : (l ++ [a])[n]? with
  | none =>
    rw [getElem?_eq_none_iff, length_append] at h
    rw [getElem?_eq_none (Nat.le_trans (Nat.le_add_right _ _) h)]
  | some b =>
    obtain hold | ⟨rfl, rfl⟩ := getElem?_of_concat h
    · rw [hold]
    · rw [getElem?_eq_none (Nat.le_refl _), ha]

theorem bind_getElem?_set {β : Type*} (f : α → Option β) (hi : i < l.length) :
    (fun n => (l.set i a)[n]?.bind f) = Function.update (fun n => l[n]?.bind f) i (f a) := by
  funext n
  by_cases hn : n = i
  · subst hn
    rw [Function.update_self, getElem?_set_self hi, Option.bind_some]
  · rw [Function.update_of_ne hn, getElem?_set_ne (Ne.symm hn)]

theorem bind_getElem?_concat {β : Type*} (f : α → Option β) :
    (fun n => (l ++ [a])[n]?.bind f) = Function.update (fun n => l[n]?.bind f) l.length (f a) := by
  funext n
  by_cases hn : n = l.length
  · subst hn
    rw [Function.update_self, getElem?_concat_length, Option.bind_some]
  · rw [Function.update_of_ne hn, getElem?_append]
    split
    · rfl
    · next hlt =>
      rw [getElem?_eq_none (by simp only [length_singleton]; omega), getElem?_eq_none (by omega)]

theorem map_set_of_eq {β : Type*} {f : α → β} (hi : l[i]? = some c) (h : f a = f c) :
    (l.set i a).map f = l.map f := by
  refine ext_getElem? fun n => ?_
  rw [map_set, getElem?_set, getElem?_map]
  split
  · next hn =>
    subst hn
    have hlt : i < (l.map f).length := by simpa using (getElem?_eq_some_iff.mp hi).1
    rw [if_pos hlt, hi, Option.map_some, h]
  · rfl

theorem countP_set_of (p : α → Bool) (hi : l[i]? = some c) (a : α) :
    (l.set i a).countP p + (if p c then 1 else 0) = l.countP p + if p a then 1 else 0 := by
  obtain ⟨hlt, hc⟩ := getElem?_eq_some_iff.mp hi
  have hle : (if p c then 1 else 0) ≤ l.countP p := by
    split
    · next hp => exact countP_pos_iff.mpr ⟨c, mem_of_getElem? hi, hp⟩
    · exact Nat.zero_le _
  rw [countP_set hlt, hc]
  omega

def weight (w : α → Nat) : List α → Nat
  | [] => 0
  | a :: l => w a + weight w l

theorem weight_set_of (w : α → Nat) (hi : l[i]? = some c) (a : α) :
    (l.set i a).weight w + w c = l.weight w + w a := by
  induction l generalizing i with
  | nil => cases hi
  | cons b l ih =>
    cases i with
    | zero =>
      obtain rfl := Option.some.inj hi
      simp only [set_cons_zero, weight]
      omega
    | succ i =>
      have htail := ih hi
      simp only [set_cons_succ, weight]
      omega

theorem weight_le {w : α → Nat} {k : Nat} (h : ∀ a, w a ≤ k) (l : List α) : l.weight w ≤ k * l.length := by
  induction l with
  | nil => exact Nat.zero_le _
  | cons a l ih =>
    have ha := h a
    rw [weight, length_cons, Nat.mul_succ]
    omega

end List
