import Hostlink.Lib.Run

/-! Runs that may go on for ever, and what has to happen in them. A run that ends is one in which
nothing happens any more. -/

namespace Lts
variable {σ ℓ α : Type*} {step : σ → ℓ → Option σ} {ok : σ → ℓ → Prop}

/-- At each instant a step is taken or nothing happens. -/
structure Trace (step : σ → ℓ → Option σ) (ok : σ → ℓ → Prop) where
  state : Nat → σ
  label : Nat → Option ℓ
  moves : ∀ n l, label n = some l → ok (state n) l ∧ step (state n) l = some (state (n + 1))
  rests : ∀ n, label n = none → state (n + 1) = state n

namespace Trace
variable (r : Trace step ok)

def labels (n k : Nat) : List ℓ := (List.range' n k).filterMap r.label

theorem labels_succ (n k : Nat) : r.labels n (k + 1) = r.labels n k ++ (r.label (n + k)).toList := by
  rw [labels, List.range'_concat, List.filterMap_append, Nat.one_mul]
  cases h : r.label (n + k) <;> simp [labels, h]

theorem labels_add (n k j : Nat) : r.labels n (k + j) = r.labels n k ++ r.labels (n + k) j := by
  rw [labels, ← List.range'_append_1, List.filterMap_append]
  rfl

theorem run (n k : Nat) : Run step ok (r.state n) (r.labels n k) (r.state (n + k)) := by
  induction k with
  | zero => exact .nil
  | succ k ih =>
    rw [labels_succ]
    cases h : r.label (n + k) with
    | none =>
      rw [Option.toList_none, List.append_nil, ← Nat.add_assoc, r.rests _ h]
      exact ih
    | some l =>
      obtain ⟨hok, hstep⟩ := r.moves _ l h
      exact .snoc ih hok hstep

theorem exists_run {n m : Nat} (h : n ≤ m) : ∃ ls, Run step ok (r.state n) ls (r.state m) := by
  obtain ⟨k, rfl⟩ := Nat.exists_eq_add_of_le h
  exact ⟨_, r.run n k⟩

theorem invariant {I : σ → Prop} (hstep : ∀ s l t, I s → ok s l → step s l = some t → I t)
    {n m : Nat} (h : n ≤ m) (h0 : I (r.state n)) : I (r.state m) := by
  obtain ⟨ls, hrun⟩ := r.exists_run h
  exact hrun.invariant hstep h0

/-- Whenever a step of the kind `p` that `c` admits is possible, a step of that kind follows. -/
def Serves (p : ℓ → Bool) (c : σ → ℓ → Prop) : Prop :=
  ∀ n l, p l = true → c (r.state n) l → (step (r.state n) l).isSome = true →
    ∃ m l', n ≤ m ∧ r.label m = some l' ∧ p l' = true

/-- Steps of one kind that keep coming until `P` holds, and of which there can be only so many,
bring `P` about. -/
theorem eventually {p : ℓ → Bool} {P : σ → Prop} {n N : Nat}
    (hbound : ∀ ls t, Run step ok (r.state n) ls t → ls.countP p ≤ N)
    (hnext : ∀ m, n ≤ m → ¬ P (r.state m) → ∃ k l, m ≤ k ∧ r.label k = some l ∧ p l = true) :
    ∃ m, n ≤ m ∧ P (r.state m) := by
  by_contra hnever
  have hcount : ∀ c, ∃ k, c ≤ (r.labels n k).countP p := by
    intro c
    induction c with
    | zero => exact ⟨0, Nat.zero_le _⟩
    | succ c ih =>
      obtain ⟨k, hk⟩ := ih
      have hP : ¬ P (r.state (n + k)) := fun hP => hnever ⟨n + k, Nat.le_add_right n k, hP⟩
      obtain ⟨m, l, hm, hlabel, hp⟩ := hnext (n + k) (Nat.le_add_right n k) hP
      obtain ⟨j, rfl⟩ := Nat.exists_eq_add_of_le hm
      refine ⟨k + j + 1, ?_⟩
      rw [labels_succ, labels_add, ← Nat.add_assoc, hlabel, List.countP_append, List.countP_append,
        Option.toList_some, List.countP_singleton, if_pos hp]
      omega
  obtain ⟨k, hk⟩ := hcount (N + 1)
  have hle := hbound _ _ (r.run n k)
  omega

/-- What only steps of the kind `p` change has changed by such a step. -/
theorem exists_label {p : ℓ → Bool} {f : σ → α}
    (hf : ∀ s l t, p l = false → step s l = some t → f t = f s) {n m : Nat} (h : n ≤ m)
    (hne : f (r.state m) ≠ f (r.state n)) : ∃ k l, n ≤ k ∧ r.label k = some l ∧ p l = true := by
  obtain ⟨k, rfl⟩ := Nat.exists_eq_add_of_le h
  clear h
  by_contra hnone
  refine hne ?_
  clear hne
  induction k with
  | zero => rfl
  | succ k ih =>
    refine Eq.trans ?_ ih
    cases hl : r.label (n + k) with
    | none => rw [← Nat.add_assoc, r.rests _ hl]
    | some l =>
      refine hf _ l _ ?_ (r.moves _ l hl).2
      rw [← Bool.not_eq_true]
      exact fun hp => hnone ⟨n + k, l, Nat.le_add_right n k, hl, hp⟩

/-- An activity that has ended for good was served: `P` is its end, and none of its steps is
possible there. -/
theorem serves_of_ended {p : ℓ → Bool} {f : σ → α} {P : α → Prop} {n : Nat}
    (hf : ∀ s l t, p l = false → step s l = some t → f t = f s)
    (hp : ∀ s l t, p l = true → step s l = some t → ¬ P (f s))
    (hend : ∀ m, n ≤ m → P (f (r.state m))) (c : σ → ℓ → Prop) : r.Serves p c := by
  intro m l hl _ hsome
  obtain ⟨t, ht⟩ := Option.isSome_iff_exists.mp hsome
  have hgoing := hp _ l t hl ht
  rcases Nat.le_total m n with hm | hm
  · refine r.exists_label hf hm fun heq => hgoing ?_
    rw [← heq]
    exact hend n (Nat.le_refl n)
  · exact absurd (hend m hm) hgoing

end Trace

/-! ### A run with an end -/

theorem exec_append (s : σ) (ls ms : List ℓ) :
    exec step s (ls ++ ms) = (exec step s ls).bind fun t => exec step t ms := by
  induction ls generalizing s with
  | nil => rfl
  | cons l ls ih =>
    rw [List.cons_append, exec, exec, Option.bind_assoc]
    exact congrArg _ (funext fun t => ih t)

theorem exec_take_isSome {s : σ} {ls : List ℓ} (h : (exec step s ls).isSome = true) (n : Nat) :
    (exec step s (ls.take n)).isSome = true := by
  rw [← List.take_append_drop n ls, exec_append] at h
  exact Option.isSome_of_isSome_bind h

theorem exec_take_succ (s : σ) {ls : List ℓ} {n : Nat} {l : ℓ} (hl : ls[n]? = some l) :
    exec step s (ls.take (n + 1)) = (exec step s (ls.take n)).bind fun t => step t l := by
  rw [List.take_add_one, hl, Option.toList_some, exec_append]
  refine congrArg _ (funext fun t => ?_)
  cases h : step t l <;> simp [exec, h]

/-- The labels one after the other, and then nothing. -/
def Trace.ofList [∀ s l, Decidable (ok s l)] (s : σ) (ls : List ℓ)
    (h : (execOk step ok s ls).isSome = true) : Trace step ok where
  state n := (execOk step ok s (ls.take n)).get (exec_take_isSome h n)
  label n := ls[n]?
  moves n l hl := by
    have hnext : execOk step ok s (ls.take (n + 1)) = (execOk step ok s (ls.take n)).bind fun t =>
        if ok t l then step t l else none := exec_take_succ s hl
    have hsome : (execOk step ok s (ls.take (n + 1))).isSome = true := exec_take_isSome h (n + 1)
    obtain ⟨t, ht⟩ := Option.isSome_iff_exists.mp hsome
    rw [ht] at hnext
    obtain ⟨u, hu, hstep⟩ := Option.bind_eq_some_iff.mp hnext.symm
    obtain ⟨hok, hstep⟩ := Option.ite_none_right_eq_some.mp hstep
    simp only [hu, ht, Option.get_some]
    exact ⟨hok, hstep⟩
  rests n hl := by
    have hle : ls.length ≤ n := List.getElem?_eq_none_iff.mp hl
    simp only [List.take_of_length_le hle, List.take_of_length_le (Nat.le_succ_of_le hle)]

end Lts
