import Mathlib.Data.List.Induction
import Mathlib.Tactic.Common

/-! Runs of a transition system given by a partial step function. All nondeterminism
(the scheduler's choice, the outcome of a call into the environment) is in the label, so a
run is a list of labels. `ok` restricts the steps a run may take by the state before them. -/

namespace Lts
variable {σ ℓ : Type*} {step : σ → ℓ → Option σ} {ok ok' : σ → ℓ → Prop}

inductive Run (step : σ → ℓ → Option σ) (ok : σ → ℓ → Prop) (s : σ) : List ℓ → σ → Prop
  | nil : Run step ok s [] s
  | snoc {t u : σ} {ls : List ℓ} {l : ℓ} :
      Run step ok s ls t → ok t l → step t l = some u → Run step ok s (ls ++ [l]) u

abbrev AnyRun (step : σ → ℓ → Option σ) : σ → List ℓ → σ → Prop := Run step fun _ _ => True

theorem Run.invariant {I : σ → Prop}
    (hstep : ∀ s l t, I s → ok s l → step s l = some t → I t)
    {s t : σ} {ls : List ℓ} (h : Run step ok s ls t) (h0 : I s) : I t := by
  induction h with
  | nil => exact h0
  | snoc _ hok hs ih => exact hstep _ _ _ ih hok hs

theorem Run.history {I : List ℓ → σ → Prop}
    (hstep : ∀ ls s l t, I ls s → ok s l → step s l = some t → I (ls ++ [l]) t)
    {s t : σ} {ls : List ℓ} (h : Run step ok s ls t) (h0 : I [] s) : I ls t := by
  induction h with
  | nil => exact h0
  | snoc _ hok hs ih => exact hstep _ _ _ _ ih hok hs

/-- A measure that the steps of one kind lower and no other step raises bounds how many steps
of that kind a run can take. -/
theorem Run.countP_le {I : σ → Prop} {μ : σ → Nat} {p : ℓ → Bool}
    (hI : ∀ s l t, I s → ok s l → step s l = some t → I t)
    (hμ : ∀ s l t, I s → ok s l → step s l = some t → μ t + (if p l then 1 else 0) ≤ μ s)
    {s t : σ} {ls : List ℓ} (h : Run step ok s ls t) (h0 : I s) : ls.countP p + μ t ≤ μ s := by
  induction h with
  | nil => simp
  | snoc h' hok hs ih =>
    have hle := hμ _ _ _ (h'.invariant hI h0) hok hs
    rw [List.countP_append, List.countP_singleton]
    omega

/-- An invariant that steps of one kind only keep below a bound holds along every run with few
enough of them. -/
theorem Run.invariant_below {I : σ → Prop} {count : σ → Nat} {p : ℓ → Bool} {bound : Nat}
    (hI : ∀ s l t, I s → (p l = true → count s + 1 < bound) → step s l = some t → I t)
    (hcount : ∀ s l t, I s → step s l = some t → count t ≤ count s + if p l then 1 else 0)
    {s t : σ} {ls : List ℓ} (h : AnyRun step s ls t) (h0 : I s) (hzero : count s = 0)
    (hbound : ls.countP p < bound) : I t := by
  have hle : I t ∧ count t ≤ ls.countP p := by
    induction h with
    | nil => exact ⟨h0, Nat.le_of_eq hzero⟩
    | snoc _ _ hs ih =>
      rw [List.countP_append, List.countP_singleton] at hbound ⊢
      obtain ⟨hi, hle⟩ := ih (by omega)
      have hstep := hcount _ _ _ hi hs
      refine ⟨hI _ _ _ hi (fun hl => ?_) hs, by omega⟩
      rw [if_pos hl] at hbound
      omega
  exact hle.1

theorem Run.trans {s t u : σ} {ls ms : List ℓ} (h : Run step ok s ls t)
    (h' : Run step ok t ms u) : Run step ok s (ls ++ ms) u := by
  induction h' with
  | nil => simpa only [List.append_nil] using h
  | snoc _ hl hs ih =>
    rw [← List.append_assoc]
    exact .snoc ih hl hs

theorem Run.cons {s t u : σ} {l : ℓ} {ls : List ℓ} (hok : ok s l) (hs : step s l = some t)
    (h : Run step ok t ls u) : Run step ok s (l :: ls) u :=
  (Run.snoc .nil hok hs).trans h

def exec (step : σ → ℓ → Option σ) : σ → List ℓ → Option σ
  | s, [] => some s
  | s, l :: ls => (step s l).bind fun t => exec step t ls

theorem anyRun_of_exec {s t : σ} {ls : List ℓ} (h : exec step s ls = some t) :
    AnyRun step s ls t := by
  induction ls generalizing s with
  | nil =>
    obtain rfl : s = t := by simpa [exec] using h
    exact .nil
  | cons l ls ih =>
    obtain ⟨u, hu, hrest⟩ := Option.bind_eq_some_iff.mp h
    exact .cons trivial hu (ih hrest)

/-- As `exec`, refusing a step whose label is not `ok` in the state before it. -/
def execOk (step : σ → ℓ → Option σ) (ok : σ → ℓ → Prop) [∀ s l, Decidable (ok s l)] :
    σ → List ℓ → Option σ :=
  exec fun s l => if ok s l then step s l else none

theorem run_of_execOk [∀ s l, Decidable (ok s l)] {s t : σ} {ls : List ℓ}
    (h : execOk step ok s ls = some t) : Run step ok s ls t := by
  induction ls generalizing s with
  | nil =>
    obtain rfl : s = t := by simpa [execOk, exec] using h
    exact .nil
  | cons l ls ih =>
    obtain ⟨u, hu, hrest⟩ := Option.bind_eq_some_iff.mp h
    have hl : ok s l := by
      by_contra hn
      simp [hn] at hu
    exact .cons hl (by simpa [hl] using hu) (ih hrest)

end Lts
