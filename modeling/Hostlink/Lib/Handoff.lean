import Mathlib.Data.Set.Insert
import Mathlib.Data.List.Basic
import Mathlib.Data.List.Count
import Mathlib.Logic.Function.Basic
import Mathlib.Tactic.Common

/-! Handing over a resource that its receiver has to release. A receiver registers a waiter, a giver
finds the waiter and later puts the resource into its one-place inbox; the receiver may stop waiting,
and unregisters the waiter afterwards. Waiters and resources are numbered; a giver has the number of
its resource.

Nobody releases a resource that arrives for a receiver which has stopped waiting. The steps here are
those of a run in which that does not happen: a receiver stops while no giver has found its waiter,
and no giver finds the waiter of one that has stopped. -/

namespace Handoff

inductive Stage where
  | idle
  | waiting (w : Nat)
  | holding (w j : Nat)
  | leaving (w : Nat)
  deriving DecidableEq, Repr

def Stage.waiter : Stage → Option Nat
  | .idle => none
  | .waiting w | .holding w _ | .leaving w => some w

/-- `owners` has the receiver of each waiter, `registered` the waiters a giver can find, `found` what
a giver has found and `pending` the givers that are between finding it and the put. -/
@[ext]
structure State (η : Type) where
  stage : η → Stage
  owners : List η
  registered : Set Nat
  found : Nat → Option Nat
  pending : Set Nat
  inbox : Nat → Option Nat
  released : List Nat
  delivered : List (Nat × Nat)

variable {η : Type}

open Function (update)

inductive Step [DecidableEq η] (v : State η) : State η → Prop
  | quiet : Step v v
  | register (h : η) (registered : Set Nat) (hstage : v.stage h = .idle)
      (hsub : registered ⊆ insert v.owners.length v.registered) :
      Step v { v with
        stage := update v.stage h (.waiting v.owners.length)
        owners := v.owners ++ [h]
        registered := registered }
  | stop (h : η) (w : Nat) (hstage : v.stage h = .waiting w) (hfree : ∀ j, v.found j ≠ some w) :
      Step v { v with stage := update v.stage h (.leaving w) }
  | receive (h : η) (w j : Nat) (hstage : v.stage h = .waiting w) (hinbox : v.inbox w = some j) :
      Step v { v with
        stage := update v.stage h (.holding w j)
        inbox := update v.inbox w none }
  | release (h : η) (w j : Nat) (hstage : v.stage h = .holding w j) :
      Step v { v with
        stage := update v.stage h (.leaving w)
        released := j :: v.released }
  | unregister (h : η) (w : Nat) (registered : Set Nat) (hstage : v.stage h = .leaving w)
      (hsub : registered ⊆ v.registered \ {w}) :
      Step v { v with stage := update v.stage h .idle, registered := registered }
  | find (j w : Nat) (registered : Set Nat) (hnew : v.found j = none) (hw : w ∈ v.registered)
      (hstay : ∀ h, v.stage h ≠ .leaving w) (hsub : registered ⊆ v.registered \ {w}) :
      Step v { v with
        found := update v.found j (some w)
        pending := insert j v.pending
        registered := registered }
  | put (j w : Nat) (hpending : j ∈ v.pending) (hfound : v.found j = some w)
      (hempty : v.inbox w = none) :
      Step v { v with
        inbox := update v.inbox w (some j)
        pending := v.pending \ {j}
        delivered := (w, j) :: v.delivered }
  | drop (j : Nat) : Step v { v with pending := v.pending \ {j} }

namespace State

def Settled (v : State η) (h : η) (w j : Nat) : Prop :=
  (v.stage h = .waiting w ∧ v.inbox w = some j ∧ j ∉ v.released) ∨
  (v.stage h = .holding w j ∧ j ∉ v.released) ∨
  (v.released.count j = 1 ∧ v.stage h ≠ .waiting w ∧ ∀ i, v.stage h ≠ .holding w i)

structure WaiterOk (v : State η) (w : Nat) : Prop where
  stage : ∀ h, (v.stage h).waiter = some w → v.owners[w]? = some h
  holding : ∀ h j, v.stage h = .holding w j → (w, j) ∈ v.delivered
  registered : w ∈ v.registered → (∀ j, v.found j ≠ some w) ∧
    ∃ h, v.owners[w]? = some h ∧ (v.stage h = .waiting w ∨ v.stage h = .leaving w)
  found : ∀ j, v.found j = some w → ∃ h, v.owners[w]? = some h
  unique : ∀ i j, v.found i = some w → v.found j = some w → i = j
  pending : ∀ j ∈ v.pending, v.found j = some w →
    v.inbox w = none ∧ ∃ h, v.owners[w]? = some h ∧ v.stage h = .waiting w
  inbox : ∀ j, v.inbox w = some j → (w, j) ∈ v.delivered
  delivered : ∀ j, (w, j) ∈ v.delivered → v.found j = some w ∧ j ∉ v.pending ∧
    ∃ h, v.owners[w]? = some h ∧ v.Settled h w j

structure Inv (v : State η) : Prop where
  waiter : ∀ w, v.WaiterOk w
  released : ∀ j ∈ v.released, ∃ w, (w, j) ∈ v.delivered

theorem inv_init {v : State η} (hstage : ∀ h, v.stage h = .idle) (hregistered : v.registered = ∅)
    (hfound : ∀ j, v.found j = none) (hinbox : ∀ w, v.inbox w = none) (hreleased : v.released = [])
    (hdelivered : v.delivered = []) : v.Inv where
  waiter := fun w =>
    { stage := fun h hw => by rw [hstage] at hw; cases hw
      holding := fun h j hh => by rw [hstage] at hh; cases hh
      registered := fun hw => by rw [hregistered] at hw; cases hw
      found := fun j hj => by rw [hfound] at hj; cases hj
      unique := fun i j hi => by rw [hfound] at hi; cases hi
      pending := fun j _ hj => by rw [hfound] at hj; cases hj
      inbox := fun j hj => by rw [hinbox] at hj; cases hj
      delivered := fun j hd => by rw [hdelivered] at hd; cases hd }
  released := fun j hj => by rw [hreleased] at hj; cases hj

/-! ### What a step leaves alone -/

structure Agrees (v v' : State η) (w : Nat) : Prop where
  stage : ∀ (h : η) (x : Stage), x.waiter = some w → (v'.stage h = x ↔ v.stage h = x)
  owner : v'.owners[w]? = v.owners[w]?
  registered : w ∈ v'.registered → w ∈ v.registered
  found : ∀ j, v'.found j = some w ↔ v.found j = some w
  pending : ∀ j, v.found j = some w → j ∈ v'.pending → j ∈ v.pending
  inbox : v'.inbox w = v.inbox w
  released : ∀ j, v.found j = some w → v'.released.count j = v.released.count j
  delivered : ∀ j, (w, j) ∈ v'.delivered ↔ (w, j) ∈ v.delivered

variable {v v' : State η} {h : η} {w j : Nat}

theorem Agrees.refl (v : State η) (w : Nat) : Agrees v v w :=
  ⟨fun _ _ _ => .rfl, rfl, id, fun _ => .rfl, fun _ _ => id, rfl, fun _ _ => rfl, fun _ => .rfl⟩

theorem Agrees.settled (ha : Agrees v v' w) (hj : v.found j = some w) (hs : v.Settled h w j) :
    v'.Settled h w j := by
  have hcount := ha.released j hj
  have hmem : j ∉ v'.released ↔ j ∉ v.released := by
    rw [← List.count_eq_zero, hcount, List.count_eq_zero]
  obtain ⟨hw, hi, hj⟩ | ⟨hh, hj⟩ | ⟨hj, hw, hh⟩ := hs
  · exact .inl ⟨(ha.stage h _ rfl).mpr hw, ha.inbox.trans hi, hmem.mpr hj⟩
  · exact .inr (.inl ⟨(ha.stage h _ rfl).mpr hh, hmem.mpr hj⟩)
  · exact .inr (.inr ⟨hcount.trans hj, fun hx => hw ((ha.stage h _ rfl).mp hx),
      fun i hx => hh i ((ha.stage h _ rfl).mp hx)⟩)

theorem WaiterOk.congr (hok : v.WaiterOk w) (ha : Agrees v v' w) : v'.WaiterOk w where
  stage := fun h hw => ha.owner.trans (hok.stage h (by rw [(ha.stage h _ hw).mp rfl]; exact hw))
  holding := fun h j hh => (ha.delivered j).mpr (hok.holding h j ((ha.stage h _ rfl).mp hh))
  registered := fun hw => by
    obtain ⟨hfree, h, ho, hs⟩ := hok.registered (ha.registered hw)
    refine ⟨fun j hj => hfree j ((ha.found j).mp hj), h, ha.owner.trans ho, ?_⟩
    exact hs.imp (ha.stage h _ rfl).mpr (ha.stage h _ rfl).mpr
  found := fun j hj => by
    rw [ha.owner]
    exact hok.found j ((ha.found j).mp hj)
  unique := fun i j hi hj => hok.unique i j ((ha.found i).mp hi) ((ha.found j).mp hj)
  pending := fun j hj hf => by
    have hf := (ha.found j).mp hf
    obtain ⟨hempty, h, ho, hs⟩ := hok.pending j (ha.pending j hf hj) hf
    exact ⟨ha.inbox.trans hempty, h, ha.owner.trans ho, (ha.stage h _ rfl).mpr hs⟩
  inbox := fun j hj => (ha.delivered j).mpr (hok.inbox j (ha.inbox.symm.trans hj))
  delivered := fun j hd => by
    obtain ⟨hf, hp, h, ho, hs⟩ := hok.delivered j ((ha.delivered j).mp hd)
    exact ⟨(ha.found j).mpr hf, fun hj => hp (ha.pending j hf hj), h, ha.owner.trans ho,
      ha.settled hf hs⟩

theorem stage_update_iff [DecidableEq η] {x y : Stage} {w' : Nat}
    (hold : ∀ i, (v.stage h).waiter = some i → i = w) (hnew : ∀ i, x.waiter = some i → i = w)
    (hne : w' ≠ w) (hy : y.waiter = some w') (h' : η) :
    update v.stage h x h' = y ↔ v.stage h' = y := by
  by_cases hh : h' = h
  · subst hh
    rw [Function.update_self]
    constructor
    · rintro rfl
      exact absurd (hnew _ hy) hne
    · rintro rfl
      exact absurd (hold _ hy) hne
  · rw [Function.update_of_ne hh]

theorem WaiterOk.stage_ne (hok : v.WaiterOk w) (hw : (v.stage h).waiter = some w) {h' : η}
    (hne : h' ≠ h) : (v.stage h').waiter ≠ some w := fun hw' =>
  hne (Option.some.inj ((hok.stage h' hw').symm.trans (hok.stage h hw)))

theorem WaiterOk.settled (hok : v.WaiterOk w) (hw : (v.stage h).waiter = some w)
    (hd : (w, j) ∈ v.delivered) : v.Settled h w j := by
  obtain ⟨-, -, h', ho, hs⟩ := hok.delivered j hd
  obtain rfl := Option.some.inj (ho.symm.trans (hok.stage h hw))
  exact hs

/-! ### One lemma per step -/

section Steps
variable [DecidableEq η]

theorem Agrees.of_update {x : Stage} {w' : Nat} (hw : (v.stage h).waiter = some w)
    (hx : ∀ i, x.waiter = some i → i = w) (hne : w' ≠ w) :
    Agrees v { v with stage := update v.stage h x } w' :=
  { Agrees.refl v w' with
    stage := fun h' _ hy => stage_update_iff
      (fun _ hi => (Option.some.inj (hi.symm.trans hw))) hx hne hy h' }

theorem WaiterOk.owner_update {x : Stage} (hok : v.WaiterOk w) (hw : (v.stage h).waiter = some w)
    {h' : η} (hw' : (update v.stage h x h').waiter = some w) : v.owners[w]? = some h' := by
  by_cases hh : h' = h
  · subst hh
    exact hok.stage h' hw
  · rw [Function.update_of_ne hh] at hw'
    exact hok.stage h' hw'

theorem WaiterOk.eq_of_update {x y : Stage} (hok : v.WaiterOk w)
    (hw : (v.stage h).waiter = some w) {h' : η} (hy : y.waiter = some w)
    (h'y : update v.stage h x h' = y) : x = y := by
  by_cases hh : h' = h
  · subst hh
    rwa [Function.update_self] at h'y
  · rw [Function.update_of_ne hh] at h'y
    exact absurd (h'y ▸ hy) (hok.stage_ne hw hh)

theorem Inv.register (hi : v.Inv) {registered : Set Nat} (hstage : v.stage h = .idle)
    (hsub : registered ⊆ insert v.owners.length v.registered) :
    ({ v with
        stage := update v.stage h (.waiting v.owners.length)
        owners := v.owners ++ [h]
        registered := registered } : State η).Inv := by
  refine ⟨fun w => ?_, hi.released⟩
  have hok := hi.waiter w
  by_cases hw : w = v.owners.length
  · -- a new number, of which nothing is known yet
    subst hw
    have hnone : v.owners[v.owners.length]? = none := List.getElem?_eq_none (Nat.le_refl _)
    have hnew {h' : η} : v.owners[v.owners.length]? ≠ some h' := by
      rw [hnone]
      exact fun h => by cases h
    have hfree (j : Nat) : v.found j ≠ some v.owners.length := fun hj =>
      hnew (hok.found j hj).choose_spec
    have hnot (j : Nat) : (v.owners.length, j) ∉ v.delivered := fun hd =>
      hfree j (hok.delivered j hd).1
    exact
      { stage := fun h' hw' => by
          by_cases hh : h' = h
          · subst hh
            exact List.getElem?_concat_length
          · simp only [Function.update_of_ne hh] at hw'
            exact absurd (hok.stage h' hw') hnew
        holding := fun h' j hh => by
          by_cases heq : h' = h
          · subst heq
            simp only [Function.update_self, reduceCtorEq] at hh
          · simp only [Function.update_of_ne heq] at hh
            exact hok.holding h' j hh
        registered := fun _ => ⟨hfree, h, List.getElem?_concat_length,
          .inl (Function.update_self ..)⟩
        found := fun j hj => absurd hj (hfree j)
        unique := fun i j hi => absurd hi (hfree i)
        pending := fun j _ hj => absurd hj (hfree j)
        inbox := fun j hj => hok.inbox j hj
        delivered := fun j hd => absurd hd (hnot j) }
  · refine hok.congr { Agrees.refl v w with stage := ?_, owner := ?_, registered := ?_ }
    · exact fun h' _ hy => stage_update_iff (w := v.owners.length)
        (fun i hw' => by rw [hstage] at hw'; cases hw')
        (fun i hw' => by simpa [Stage.waiter, eq_comm] using hw') hw hy h'
    · rcases Nat.lt_or_gt_of_ne hw with hlt | hgt
      · exact List.getElem?_append_left hlt
      · rw [List.getElem?_eq_none (Nat.le_of_lt hgt), List.getElem?_eq_none]
        rw [List.length_append]
        exact hgt
    · exact fun hmem => (hsub hmem).resolve_left hw

theorem Inv.stop (hi : v.Inv) (hstage : v.stage h = .waiting w)
    (hfree : ∀ j, v.found j ≠ some w) :
    ({ v with stage := update v.stage h (.leaving w) } : State η).Inv := by
  refine ⟨fun w' => ?_, hi.released⟩
  have hw : (v.stage h).waiter = some w := by rw [hstage]; rfl
  have hok := hi.waiter w'
  by_cases hne : w' = w
  · subst hne
    exact
      { stage := fun h' => hok.owner_update hw
        holding := fun h' j hh => (nomatch hok.eq_of_update hw rfl hh)
        registered := fun _ => ⟨hfree, h, hok.stage h hw, .inr (Function.update_self ..)⟩
        found := hok.found
        unique := hok.unique
        pending := fun j _ hj => absurd hj (hfree j)
        inbox := hok.inbox
        delivered := fun j hd => absurd (hok.delivered j hd).1 (hfree j) }
  · exact hok.congr (.of_update hw (fun i hi => (Option.some.inj hi).symm) hne)

theorem Inv.receive (hi : v.Inv) (hstage : v.stage h = .waiting w) (hinbox : v.inbox w = some j) :
    ({ v with
        stage := update v.stage h (.holding w j)
        inbox := update v.inbox w none } : State η).Inv := by
  refine ⟨fun w' => ?_, hi.released⟩
  have hw : (v.stage h).waiter = some w := by rw [hstage]; rfl
  have hok := hi.waiter w'
  by_cases hne : w' = w
  · subst hne
    have hd := hok.inbox j hinbox
    have hfound := (hok.delivered j hd).1
    exact
      { stage := fun h' => hok.owner_update hw
        holding := fun h' i hh => by
          obtain ⟨-, rfl⟩ := Stage.holding.inj (hok.eq_of_update hw rfl hh)
          exact hd
        registered := fun hmem => absurd hfound ((hok.registered hmem).1 j)
        found := hok.found
        unique := hok.unique
        pending := fun i hi hfi => by
          rw [(hok.pending i hi hfi).1] at hinbox
          cases hinbox
        inbox := fun i hi => by
          simp only [Function.update_self, reduceCtorEq] at hi
        delivered := fun i hdi => by
          obtain ⟨hfi, hpi, -⟩ := hok.delivered i hdi
          obtain rfl := hok.unique i j hfi hfound
          refine ⟨hfi, hpi, h, hok.stage h hw, .inr (.inl ⟨Function.update_self .., ?_⟩)⟩
          obtain ⟨-, -, hj⟩ | ⟨hx, -⟩ | ⟨-, hx, -⟩ := hok.settled hw hdi
          · exact hj
          · rw [hstage] at hx
            cases hx
          · exact absurd hstage hx }
  · have hagrees : Agrees v { v with stage := update v.stage h (.holding w j) } w' :=
      .of_update hw (fun i hi => (Option.some.inj hi).symm) hne
    refine hok.congr { hagrees with inbox := ?_ }
    exact Function.update_of_ne hne ..

theorem Inv.release (hi : v.Inv) (hstage : v.stage h = .holding w j) :
    ({ v with
        stage := update v.stage h (.leaving w)
        released := j :: v.released } : State η).Inv := by
  have hw : (v.stage h).waiter = some w := by rw [hstage]; rfl
  have hd := (hi.waiter w).holding h j hstage
  have hfound := ((hi.waiter w).delivered j hd).1
  refine ⟨fun w' => ?_, fun i hi' => ?_⟩
  · have hok := hi.waiter w'
    by_cases hne : w' = w
    · subst hne
      exact
        { stage := fun h' => hok.owner_update hw
          holding := fun h' i hh => (nomatch hok.eq_of_update hw rfl hh)
          registered := fun hmem => absurd hfound ((hok.registered hmem).1 j)
          found := hok.found
          unique := hok.unique
          pending := fun i hi hfi => by
            obtain rfl := hok.unique i j hfi hfound
            exact absurd hi (hok.delivered i hd).2.1
          inbox := hok.inbox
          delivered := fun i hdi => by
            obtain ⟨hfi, hpi, -⟩ := hok.delivered i hdi
            obtain rfl := hok.unique i j hfi hfound
            have hnot : i ∉ v.released := by
              obtain ⟨hx, -⟩ | ⟨-, hj⟩ | ⟨-, -, hx⟩ := hok.settled hw hdi
              · rw [hstage] at hx
                cases hx
              · exact hj
              · exact absurd hstage (hx i)
            refine ⟨hfi, hpi, h, hok.stage h hw, .inr (.inr ⟨?_, ?_, ?_⟩)⟩
            · rw [List.count_cons_self, List.count_eq_zero.mpr hnot]
            · simp only [Function.update_self]
              exact fun h => by cases h
            · simp only [Function.update_self]
              exact fun _ h => by cases h }
    · have hagrees : Agrees v { v with stage := update v.stage h (.leaving w) } w' :=
        .of_update hw (fun i hi => (Option.some.inj hi).symm) hne
      refine hok.congr { hagrees with released := fun i hfi => ?_ }
      refine List.count_cons_of_ne ?_
      rintro rfl
      exact hne (Option.some.inj (hfi.symm.trans hfound))
  · obtain rfl | hmem := List.mem_cons.mp hi'
    · exact ⟨w, hd⟩
    · exact hi.released i hmem

theorem Inv.unregister (hi : v.Inv) {registered : Set Nat} (hstage : v.stage h = .leaving w)
    (hsub : registered ⊆ v.registered \ {w}) :
    ({ v with stage := update v.stage h .idle, registered := registered } : State η).Inv := by
  refine ⟨fun w' => ?_, hi.released⟩
  have hw : (v.stage h).waiter = some w := by rw [hstage]; rfl
  have hok := hi.waiter w'
  by_cases hne : w' = w
  · subst hne
    exact
      { stage := fun h' => hok.owner_update hw
        holding := fun h' j hh => (nomatch hok.eq_of_update hw rfl hh)
        registered := fun hmem => absurd rfl (hsub hmem).2
        found := hok.found
        unique := hok.unique
        pending := fun j hj hf => by
          obtain ⟨-, h', ho, hs⟩ := hok.pending j hj hf
          obtain rfl := Option.some.inj (ho.symm.trans (hok.stage h hw))
          rw [hstage] at hs
          cases hs
        inbox := hok.inbox
        delivered := fun j hd => by
          obtain ⟨hf, hp, -⟩ := hok.delivered j hd
          refine ⟨hf, hp, h, hok.stage h hw, .inr (.inr ?_)⟩
          obtain ⟨hx, -⟩ | ⟨hx, -⟩ | ⟨hj, -⟩ := hok.settled hw hd
          · rw [hstage] at hx
            cases hx
          · rw [hstage] at hx
            cases hx
          · simp only [Function.update_self]
            exact ⟨hj, fun h => (by cases h), fun _ h => by cases h⟩ }
  · have hagrees : Agrees v { v with stage := update v.stage h .idle } w' :=
      .of_update hw (fun i hi => by cases hi) hne
    exact hok.congr { hagrees with registered := fun hmem => (hsub hmem).1 }

end Steps

theorem Inv.find (hi : v.Inv) {registered : Set Nat} (hnew : v.found j = none)
    (hw : w ∈ v.registered) (hstay : ∀ h, v.stage h ≠ .leaving w)
    (hsub : registered ⊆ v.registered \ {w}) :
    ({ v with
        found := update v.found j (some w)
        pending := insert j v.pending
        registered := registered } : State η).Inv := by
  refine ⟨fun w' => ?_, hi.released⟩
  have hok := hi.waiter w'
  by_cases hne : w' = w
  · subst hne
    obtain ⟨hfree, h, ho, hs⟩ := hok.registered hw
    have hwaits : v.stage h = .waiting w' := hs.resolve_right (hstay h)
    have hnot (i : Nat) : (w', i) ∉ v.delivered := fun hd => hfree i (hok.delivered i hd).1
    have hfinder {i : Nat} (hf : update v.found j (some w') i = some w') : i = j := by
      by_contra hij
      rw [Function.update_of_ne hij] at hf
      exact hfree i hf
    exact
      { stage := hok.stage
        holding := hok.holding
        registered := fun hmem => absurd rfl (hsub hmem).2
        found := fun _ _ => ⟨h, ho⟩
        unique := fun i i' hi hi' => (hfinder hi).trans (hfinder hi').symm
        pending := fun _ _ _ => by
          refine ⟨Option.eq_none_iff_forall_ne_some.mpr fun i hin => ?_, h, ho, hwaits⟩
          exact hnot i (hok.inbox i hin)
        inbox := hok.inbox
        delivered := fun i hd => absurd hd (hnot i) }
  · have hfound (i : Nat) : update v.found j (some w) i = some w' ↔ v.found i = some w' := by
      by_cases hij : i = j
      · subst hij
        rw [Function.update_self, hnew]
        exact iff_of_false (fun h => hne (Option.some.inj h).symm) (fun h => by cases h)
      · rw [Function.update_of_ne hij]
    refine hok.congr { Agrees.refl v w' with
      registered := fun hmem => (hsub hmem).1
      found := hfound
      pending := fun i hf hmem => hmem.resolve_left ?_ }
    rintro rfl
    rw [hnew] at hf
    cases hf

theorem Inv.put (hi : v.Inv) (hpending : j ∈ v.pending) (hfound : v.found j = some w)
    (hempty : v.inbox w = none) :
    ({ v with
        inbox := update v.inbox w (some j)
        pending := v.pending \ {j}
        delivered := (w, j) :: v.delivered } : State η).Inv := by
  -- what is released was delivered, and what was delivered is not pending
  have hnot : j ∉ v.released := fun hj => by
    obtain ⟨w', hd⟩ := hi.released j hj
    exact ((hi.waiter w').delivered j hd).2.1 hpending
  refine ⟨fun w' => ?_, fun i hi' => ?_⟩
  · have hok := hi.waiter w'
    by_cases hne : w' = w
    · subst hne
      obtain ⟨-, h, ho, hs⟩ := hok.pending j hpending hfound
      have honly {i : Nat} (hd : (w', i) ∈ v.delivered) : False := by
        obtain ⟨hf, hp, -⟩ := hok.delivered i hd
        obtain rfl := hok.unique i j hf hfound
        exact hp hpending
      exact
        { stage := hok.stage
          holding := fun h' i hh => (honly (hok.holding h' i hh)).elim
          registered := fun hmem => absurd hfound ((hok.registered hmem).1 j)
          found := hok.found
          unique := hok.unique
          pending := fun i hi hf => absurd (hok.unique i j hf hfound) hi.2
          inbox := fun i hin => by
            simp only [Function.update_self, Option.some.injEq] at hin
            rw [hin]
            exact List.mem_cons_self
          delivered := fun i hd => by
            obtain heq | hold := List.mem_cons.mp hd
            · obtain ⟨-, rfl⟩ := Prod.mk.inj heq
              exact ⟨hfound, fun hp => hp.2 rfl, h, ho,
                .inl ⟨hs, Function.update_self .., hnot⟩⟩
            · exact (honly hold).elim }
    · refine hok.congr { Agrees.refl v w' with
        pending := fun i _ hmem => hmem.1
        inbox := Function.update_of_ne hne ..
        delivered := fun i => ?_ }
      rw [List.mem_cons]
      exact or_iff_right fun heq => hne (Prod.mk.inj heq).1
  · obtain ⟨w', hd⟩ := hi.released i hi'
    exact ⟨w', List.mem_cons_of_mem _ hd⟩

theorem Inv.drop (hi : v.Inv) (j : Nat) :
    ({ v with pending := v.pending \ {j} } : State η).Inv :=
  ⟨fun w => (hi.waiter w).congr { Agrees.refl v w with pending := fun _ _ hmem => hmem.1 },
    hi.released⟩

theorem Inv.step [DecidableEq η] (hi : v.Inv) (hs : Step v v') : v'.Inv := by
  cases hs with
  | quiet => exact hi
  | register h registered hstage hsub => exact hi.register hstage hsub
  | stop h w hstage hfree => exact hi.stop hstage hfree
  | receive h w j hstage hinbox => exact hi.receive hstage hinbox
  | release h w j hstage => exact hi.release hstage
  | unregister h w registered hstage hsub => exact hi.unregister hstage hsub
  | find j w registered hnew hw hstay hsub => exact hi.find hnew hw hstay hsub
  | put j w hpending hfound hempty => exact hi.put hpending hfound hempty
  | drop j => exact hi.drop j

theorem Inv.released_once (hi : v.Inv) (hd : (w, j) ∈ v.delivered) :
    ∃ h, v.owners[w]? = some h ∧ (v.stage h = .idle → v.released.count j = 1) := by
  obtain ⟨-, -, h, ho, hs⟩ := (hi.waiter w).delivered j hd
  refine ⟨h, ho, fun hidle => ?_⟩
  obtain ⟨hx, -⟩ | ⟨hx, -⟩ | ⟨hj, -⟩ := hs
  · rw [hidle] at hx
    cases hx
  · rw [hidle] at hx
    cases hx
  · exact hj

end State
end Handoff
