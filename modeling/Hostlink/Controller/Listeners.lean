import Hostlink.Lib.GoError
import Hostlink.Lib.GoMap
import Hostlink.Lib.GoSort

/-! `listenerManager.reconcile`: two loops over maps, with an outcome of its own for every `Close` and
every bind. -/

namespace Hostlink.Controller

/-- `net.ErrClosed`. -/
def errNetClosed : GoError := .new "use of closed network connection"

/-- The listeners of a manager. A listener object is the number of binds before its own; `closed` lists
the calls of `Close`. -/
structure Listeners where
  active : GoMap Nat Nat := .empty
  bound : Nat := 0
  closed : List Nat := []

/-- How the calls of one reconcile go: what `Close` and `Listen` return for a port, and in which order
the loops visit the maps. -/
structure ReconcilePlan where
  closeErr : Nat → Option GoError
  listenErr : Nat → Option GoError
  activeOrder : List Nat
  desiredOrder : List Nat

def sortedPorts (ports : List Nat) : List Nat := ports.insertionSort (· ≤ ·)

def portSet (ports : List Nat) : GoMap Nat Unit := ports.foldl (fun m port => m.insert port ()) .empty

/-- The error of a `Close` that leaves the listener with the manager. -/
def StaysOpen (err : Option GoError) : Prop := (err.any fun err => !err.is errNetClosed) = true

instance (err : Option GoError) : Decidable (StaysOpen err) := inferInstanceAs (Decidable (_ = true))

namespace Listeners
variable (desired : GoMap Nat Unit) (plan : ReconcilePlan)

/-- A turn of the loop over the active listeners. -/
def closeUndesired (t : Listeners) (port : Nat) : Listeners :=
  if (desired.get port).isSome then t
  else match t.active.get port with
    | none => t
    | some listener =>
      let t := { t with closed := t.closed ++ [listener] }
      if StaysOpen (plan.closeErr port) then t else { t with active := t.active.erase port }

/-- A turn of the loop over the desired ports, with the ports that failed. -/
def bindDesired (r : Listeners × List Nat) (port : Nat) : Listeners × List Nat :=
  if (r.1.active.get port).isSome then r
  else if port = 0 then (r.1, r.2 ++ [port])
  else match plan.listenErr port with
    | some _ => (r.1, r.2 ++ [port])
    | none => ({ r.1 with active := r.1.active.insert port r.1.bound, bound := r.1.bound + 1 }, r.2)

def boundPorts (t : Listeners) : List Nat := sortedPorts t.active.present

/-- `reconcile`, with the ports that are bound and those that failed; `done` is `m.ctx.Err() != nil`. -/
def reconcile (t : Listeners) (done : Bool) : Listeners × List Nat × List Nat :=
  if done then (t, [], [])
  else
    let t := plan.activeOrder.foldl (closeUndesired desired plan) t
    let r := plan.desiredOrder.foldl (bindDesired plan) (t, [])
    (r.1, r.1.boundPorts, sortedPorts r.2)

/-- A turn of the loop of `close`. -/
def closePort (t : Listeners) (port : Nat) : Listeners :=
  match t.active.get port with
  | none => t
  | some listener => { t with active := t.active.erase port, closed := t.closed ++ [listener] }

end Listeners

/-! ### What a reconcile does -/

structure Ascending (ports : List Nat) (P : Nat → Prop) : Prop where
  sorted : ports.Pairwise (· < ·)
  mem : ∀ port, port ∈ ports ↔ P port

theorem sortedPorts_ascending {ports : List Nat} (h : ports.Nodup) :
    Ascending (sortedPorts ports) (· ∈ ports) := by
  constructor
  · exact List.pairwise_lt_insertionSort id h
  · exact fun port => List.mem_insertionSort _

structure Reconciled (desired : GoMap Nat Unit) (plan : ReconcilePlan) (before after : Listeners)
    (bound failed : List Nat) : Prop where
  wanted : ∀ port listener, desired.get port ≠ none → before.active.get port = some listener →
    after.active.get port = some listener
  unwanted : ∀ port, desired.get port = none → after.active.get port =
    if StaysOpen (plan.closeErr port) then before.active.get port else none
  missing : ∀ port, desired.get port ≠ none → before.active.get port = none →
    (after.active.get port ≠ none ↔ port ≠ 0 ∧ plan.listenErr port = none)
  bound : Ascending bound fun port => after.active.get port ≠ none
  failed : Ascending failed fun port => desired.get port ≠ none ∧ after.active.get port = none

namespace Listeners
variable {desired : GoMap Nat Unit} {plan : ReconcilePlan}

theorem get_closeUndesired (t : Listeners) (port q : Nat) :
    (closeUndesired desired plan t q).active.get port =
      if port = q ∧ desired.get port = none ∧ ¬ StaysOpen (plan.closeErr port) then none
      else t.active.get port := by
  unfold closeUndesired
  rcases eq_or_ne port q with rfl | hne
  · cases hdesired : desired.get port with
    | some u => simp
    | none =>
      cases hget : t.active.get port with
      | none => simp [hget]
      | some listener => by_cases hopen : StaysOpen (plan.closeErr port) <;> simp [hopen, hget]
  · have hother : ¬ (port = q ∧ desired.get port = none ∧ ¬ StaysOpen (plan.closeErr port)) :=
      fun h => hne h.1
    rw [if_neg hother]
    split
    · rfl
    · split
      · rfl
      · split
        · rfl
        · exact GoMap.get_erase_of_ne _ hne

theorem get_foldl_closeUndesired (order : List Nat) (t : Listeners) (port : Nat) :
    (order.foldl (closeUndesired desired plan) t).active.get port =
      if port ∈ order ∧ desired.get port = none ∧ ¬ StaysOpen (plan.closeErr port) then none
      else t.active.get port := by
  induction order generalizing t with
  | nil => simp
  | cons q order ih =>
    rw [List.foldl_cons, ih, get_closeUndesired]
    by_cases hgone : desired.get port = none ∧ ¬ StaysOpen (plan.closeErr port)
    · simp only [hgone, not_false_eq_true, and_self, and_true, List.mem_cons]
      by_cases hmem : port ∈ order <;> by_cases hq : port = q <;> simp [hmem, hq]
    · rw [if_neg fun h => hgone h.2, if_neg fun h => hgone h.2, if_neg fun h => hgone h.2]

theorem get_bindDesired (r : Listeners × List Nat) (port q : Nat) :
    (bindDesired plan r q).1.active.get port =
      if port = q ∧ r.1.active.get q = none ∧ q ≠ 0 ∧ plan.listenErr q = none then some r.1.bound
      else r.1.active.get port := by
  unfold bindDesired
  cases hget : r.1.active.get q with
  | some listener => simp
  | none =>
    by_cases hzero : q = 0
    · simp [hzero]
    · cases hlisten : plan.listenErr q with
      | some err => simp [hzero]
      | none =>
        rcases eq_or_ne port q with rfl | hne
        · simp [hzero]
        · simp [hzero, hne, GoMap.get_insert_of_ne]

theorem foldl_bindDesired_kept (order : List Nat) (r : Listeners × List Nat) {port listener : Nat}
    (h : r.1.active.get port = some listener) :
    (order.foldl (bindDesired plan) r).1.active.get port = some listener := by
  induction order generalizing r with
  | nil => exact h
  | cons q order ih =>
    refine ih _ ?_
    rw [get_bindDesired, if_neg, h]
    rintro ⟨rfl, hnone, -⟩
    rw [h] at hnone
    cases hnone

theorem foldl_bindDesired_missing (order : List Nat) (r : Listeners × List Nat) {port : Nat}
    (h : r.1.active.get port = none) :
    (order.foldl (bindDesired plan) r).1.active.get port ≠ none ↔
      port ∈ order ∧ port ≠ 0 ∧ plan.listenErr port = none := by
  induction order generalizing r with
  | nil => simp [h]
  | cons q order ih =>
    rw [List.foldl_cons]
    by_cases hbinds : port = q ∧ port ≠ 0 ∧ plan.listenErr port = none
    · obtain ⟨rfl, hok⟩ := hbinds
      have hbound : (bindDesired plan r port).1.active.get port = some r.1.bound := by
        rw [get_bindDesired, if_pos ⟨rfl, h, hok⟩]
      rw [foldl_bindDesired_kept order _ hbound]
      exact iff_of_true (Option.some_ne_none _) ⟨List.mem_cons_self, hok⟩
    · have hstill : (bindDesired plan r q).1.active.get port = none := by
        rw [get_bindDesired, if_neg, h]
        rintro ⟨rfl, -, hok⟩
        exact hbinds ⟨rfl, hok⟩
      rw [ih _ hstill, List.mem_cons]
      constructor
      · rintro ⟨hmem, hok⟩
        exact ⟨.inr hmem, hok⟩
      · rintro ⟨rfl | hmem, hok⟩
        · exact absurd ⟨rfl, hok⟩ hbinds
        · exact ⟨hmem, hok⟩

theorem foldl_bindDesired_failed (plan : ReconcilePlan) {order : List Nat} (hnodup : order.Nodup) (r : Listeners × List Nat) :
    (order.foldl (bindDesired plan) r).2 = r.2 ++ order.filter fun port =>
      (r.1.active.get port).isNone && (port = 0 || (plan.listenErr port).isSome) := by
  induction order generalizing r with
  | nil => simp
  | cons q order ih =>
    obtain ⟨hnew, hnodup⟩ := List.nodup_cons.mp hnodup
    have hsame : order.filter (fun port => ((bindDesired plan r q).1.active.get port).isNone &&
          (port = 0 || (plan.listenErr port).isSome)) =
        order.filter fun port => (r.1.active.get port).isNone &&
          (port = 0 || (plan.listenErr port).isSome) := by
      refine List.filter_congr fun port hport => ?_
      rw [get_bindDesired, if_neg]
      rintro ⟨rfl, -⟩
      exact hnew hport
    have hfailed : (bindDesired plan r q).2 = r.2 ++ [q].filter fun port =>
        (r.1.active.get port).isNone && (port = 0 || (plan.listenErr port).isSome) := by
      unfold bindDesired
      cases hget : r.1.active.get q with
      | some listener => simp [hget]
      | none =>
        by_cases hzero : q = 0
        · subst hzero
          simp [hget]
        · cases hlisten : plan.listenErr q <;> simp [hzero, hget, hlisten]
    rw [List.foldl_cons, ih hnodup, hsame, hfailed, List.append_assoc, ← List.filter_append]
    rfl

theorem reconcile_spec (desired : GoMap Nat Unit) (plan : ReconcilePlan) (t : Listeners)
    (hactive : t.active.Iteration plan.activeOrder) (hdesired : desired.Iteration plan.desiredOrder) :
    let r := reconcile desired plan t false
    Reconciled desired plan t r.1 r.2.1 r.2.2 := by
  let kept := plan.activeOrder.foldl (closeUndesired desired plan) t
  have hreconcile : reconcile desired plan t false =
      ((plan.desiredOrder.foldl (bindDesired plan) (kept, [])).1,
        (plan.desiredOrder.foldl (bindDesired plan) (kept, [])).1.boundPorts,
        sortedPorts (plan.desiredOrder.foldl (bindDesired plan) (kept, [])).2) := rfl
  have hkept : ∀ port, desired.get port ≠ none → kept.active.get port = t.active.get port := by
    intro port hport
    rw [get_foldl_closeUndesired, if_neg fun h => hport h.2.1]
  have hmissing : ∀ port, desired.get port ≠ none → t.active.get port = none →
      ((plan.desiredOrder.foldl (bindDesired plan) (kept, [])).1.active.get port ≠ none ↔
        port ≠ 0 ∧ plan.listenErr port = none) := by
    intro port hport hnone
    rw [foldl_bindDesired_missing _ (kept, []) ((hkept port hport).trans hnone), hdesired.visits]
    exact and_iff_right hport
  have hwanted : ∀ port listener, desired.get port ≠ none → t.active.get port = some listener →
      (plan.desiredOrder.foldl (bindDesired plan) (kept, [])).1.active.get port = some listener := by
    intro port listener hport hget
    exact foldl_bindDesired_kept _ (kept, []) ((hkept port hport).trans hget)
  rw [hreconcile]
  refine ⟨hwanted, fun port hport => ?_, hmissing, ?_, ?_⟩
  · have hgone : kept.active.get port =
        if StaysOpen (plan.closeErr port) then t.active.get port else none := by
      rw [get_foldl_closeUndesired]
      cases hget : t.active.get port with
      | none => simp
      | some listener =>
        have hmem := hactive.mem_of_get hget
        by_cases hopen : StaysOpen (plan.closeErr port) <;> simp [hmem, hport, hopen]
    rw [← hgone]
    cases hget : kept.active.get port with
    | some listener => exact foldl_bindDesired_kept _ (kept, []) hget
    | none =>
      by_contra hsome
      have hvisited := (foldl_bindDesired_missing _ (kept, []) hget).mp hsome
      exact (hdesired.visits port).mp hvisited.1 hport
  · have hsorted := sortedPorts_ascending
      (plan.desiredOrder.foldl (bindDesired plan) (kept, [])).1.active.nodup_present
    exact ⟨hsorted.sorted, fun port => (hsorted.mem port).trans GoMap.mem_present⟩
  · have hfailed := foldl_bindDesired_failed plan hdesired.nodup (kept, [])
    have hsorted := sortedPorts_ascending (hdesired.nodup.filter fun port =>
      (kept.active.get port).isNone && (port = 0 || (plan.listenErr port).isSome))
    rw [hfailed]
    refine ⟨hsorted.sorted, fun port => (hsorted.mem port).trans ?_⟩
    rw [List.mem_filter, hdesired.visits, Bool.and_eq_true, Bool.or_eq_true, decide_eq_true_eq,
      Option.isNone_iff_eq_none]
    refine and_congr_right fun hport => ?_
    rw [hkept port hport]
    constructor
    · rintro ⟨hnone, hcause⟩
      by_contra hsome
      obtain ⟨hzero, hlisten⟩ := (hmissing port hport hnone).mp hsome
      rcases hcause with hz | herr
      · exact hzero hz
      · rw [hlisten] at herr
        cases herr
    · intro hnone
      cases hget : t.active.get port with
      | some listener =>
        rw [hwanted port listener hport hget] at hnone
        cases hnone
      | none =>
        refine ⟨rfl, ?_⟩
        by_contra hcause
        rw [not_or, Bool.not_eq_true, Option.isSome_eq_false_iff, Option.isNone_iff_eq_none] at hcause
        exact (hmissing port hport hget).mpr hcause hnone

end Listeners
end Hostlink.Controller
