import Hostlink.Lib.Run
import Hostlink.Lib.Slots

/-! Programs that talk to a shared server one command at a time, and pools of such programs.
A command is atomic and between two commands of a program any other program of the pool may
run. The pool keeps the log of everything the server was asked and answered, so that a fact
about a program alone, whatever it is answered, becomes a fact about every interleaving. -/

/-- `C` are the commands and `R c` the replies to `c`. -/
inductive Prog {C : Type} (R : C → Type) (α : Type) where
  | ret (a : α)
  | call (c : C) (k : R c → Prog R α)

structure Exchange {C : Type} (R : C → Type) where
  cmd : C
  reply : R cmd

namespace Prog
variable {C : Type} {R : C → Type} {α β : Type}

def bind : Prog R α → (α → Prog R β) → Prog R β
  | ret a, f => f a
  | call c k, f => call c fun r => (k r).bind f

instance : Monad (Prog R) where
  pure := ret
  bind := bind

def perform (c : C) : Prog R (R c) := call c ret

/-- Having made the exchanges `tr`, the program `p` goes on as `q`. -/
inductive After (p : Prog R α) : List (Exchange R) → Prog R α → Prop
  | nil : After p [] p
  | snoc {tr : List (Exchange R)} {c : C} {k : R c → Prog R α} (r : R c) :
      After p tr (call c k) → After p (tr ++ [⟨c, r⟩]) (k r)

def Issues (P : C → Prop) : Prog R α → Prop
  | ret _ => True
  | call c k => P c ∧ ∀ r, (k r).Issues P

def next? : Prog R α → Option C
  | ret _ => none
  | call c _ => some c

def Follows (Q : Option (Exchange R) → C → Prop) : Option (Exchange R) → Prog R α → Prop
  | _, ret _ => True
  | last, call c k => Q last c ∧ ∀ r, (k r).Follows Q (some ⟨c, r⟩)

/-- Whatever it is answered among the replies `V` admits, the program's exchanges and its result
satisfy `Q`. -/
def Wp (V : ∀ c, R c → Prop) : Prog R α → (List (Exchange R) → α → Prop) → Prop
  | ret a, Q => Q [] a
  | call c k, Q => ∀ r, V c r → (k r).Wp V fun tr a => Q (⟨c, r⟩ :: tr) a

def eval {σ : Type} (exec : σ → (c : C) → R c × σ) : Prog R α → σ → α × σ
  | ret a, s => (a, s)
  | call c k, s => (k (exec s c).1).eval exec (exec s c).2

section Eval
variable {σ : Type} {exec : σ → (c : C) → R c × σ}

theorem eval_perform (c : C) (f : R c → Prog R α) (s : σ) :
    (perform c >>= f).eval exec s = (f (exec s c).1).eval exec (exec s c).2 := rfl

theorem eval_bind (p : Prog R α) (f : α → Prog R β) (s : σ) :
    (p >>= f).eval exec s = (f (p.eval exec s).1).eval exec (p.eval exec s).2 := by
  induction p generalizing s with
  | ret a => rfl
  | call c k ih => exact ih _ _

end Eval

variable {P : C → Prop} {V : ∀ c, R c → Prop}

theorem issues_pure (a : α) : (pure a : Prog R α).Issues P := trivial

theorem Issues.perform {c : C} {f : R c → Prog R α} (hc : P c) (hf : ∀ r, (f r).Issues P) :
    (perform c >>= f).Issues P := ⟨hc, hf⟩

theorem Wp.perform {c : C} {f : R c → Prog R α} {Q : List (Exchange R) → α → Prop}
    (h : ∀ r, V c r → (f r).Wp V fun tr a => Q (⟨c, r⟩ :: tr) a) : (perform c >>= f).Wp V Q := h

theorem Issues.bind {p : Prog R α} {f : α → Prog R β} (hp : p.Issues P)
    (hf : ∀ a, (f a).Issues P) : (p >>= f).Issues P := by
  induction p with
  | ret a => exact hf a
  | call c k ih => exact ⟨hp.1, fun r => ih r (hp.2 r)⟩

theorem Follows.perform {Q : Option (Exchange R) → C → Prop} {last : Option (Exchange R)} {c : C}
    {f : R c → Prog R α} (hc : Q last c) (hf : ∀ r, (f r).Follows Q (some ⟨c, r⟩)) :
    (perform c >>= f).Follows Q last := ⟨hc, hf⟩

theorem Follows.bind {Q : Option (Exchange R) → C → Prop} {last : Option (Exchange R)}
    {p : Prog R α} {f : α → Prog R β} (hp : p.Follows Q last)
    (hf : ∀ a last', (f a).Follows Q last') : (p >>= f).Follows Q last := by
  induction p generalizing last with
  | ret a => exact hf a last
  | call c k ih => exact ⟨hp.1, fun r => ih r (hp.2 r)⟩

theorem Wp.mono {Q Q' : List (Exchange R) → α → Prop} {p : Prog R α} (h : p.Wp V Q)
    (hQ : ∀ tr a, Q tr a → Q' tr a) : p.Wp V Q' := by
  induction p generalizing Q Q' with
  | ret a => exact hQ [] a h
  | call c k ih => exact fun r hr => ih r (h r hr) fun tr a => hQ (⟨c, r⟩ :: tr) a

theorem Wp.of_forall {Q : List (Exchange R) → α → Prop} {p : Prog R α} (h : ∀ tr a, Q tr a) :
    p.Wp V Q := by
  induction p generalizing Q with
  | ret a => exact h [] a
  | call c k ih => exact fun r _ => ih r fun tr a => h (⟨c, r⟩ :: tr) a

theorem Wp.bind {Q : List (Exchange R) → β → Prop} {p : Prog R α} {f : α → Prog R β}
    (h : p.Wp V fun tr a => (f a).Wp V fun tr' b => Q (tr ++ tr') b) : (p >>= f).Wp V Q := by
  induction p generalizing Q with
  | ret a => exact h
  | call c k ih => exact fun r hr => ih r (h r hr)

theorem After.follows {Q : Option (Exchange R) → C → Prop} {p q : Prog R α}
    {tr : List (Exchange R)} (h : p.After tr q) (hp : p.Follows Q none) :
    q.Follows Q tr.getLast? := by
  induction h with
  | nil => exact hp
  | snoc r _ ih =>
    rw [List.getLast?_concat]
    exact ih.2 r

theorem After.issues {p q : Prog R α} {tr : List (Exchange R)} (h : p.After tr q)
    (hp : p.Issues P) : q.Issues P := by
  induction h with
  | nil => exact hp
  | snoc r _ ih => exact ih.2 r

theorem After.issued {p q : Prog R α} {tr : List (Exchange R)} (h : p.After tr q)
    (hp : p.Issues P) : ∀ e ∈ tr, P e.cmd := by
  induction h with
  | nil => nofun
  | snoc r h' ih =>
    intro e he
    rcases List.mem_append.mp he with he | he
    · exact ih e he
    · obtain rfl := List.mem_singleton.mp he
      exact (h'.issues hp).1

theorem After.wp {p q : Prog R α} {tr : List (Exchange R)} (h : p.After tr q)
    {Q : List (Exchange R) → α → Prop} (hV : ∀ e ∈ tr, V e.cmd e.reply) (hp : p.Wp V Q) :
    q.Wp V fun tr' a => Q (tr ++ tr') a := by
  induction h with
  | nil => exact hp
  | @snoc tr c k r _ ih =>
    have hq := ih fun e he => hV e (List.mem_append_left _ he)
    have hr : V c r := hV ⟨c, r⟩ (List.mem_append_right _ (List.mem_singleton_self _))
    refine (hq r hr).mono fun tr' a hQ => ?_
    simpa only [List.append_assoc, List.singleton_append] using hQ

end Prog

structure Proc {C : Type} (κ : Type) (R : C → Type) (α : Type) where
  call : κ
  prog : Prog R α

structure LogEntry {C : Type} (O : Type) (R : C → Type) where
  proc : Nat
  oracle : O
  cmd : C
  reply : R cmd

structure Pool {C : Type} (σ O κ : Type) (R : C → Type) (α : Type) where
  server : σ
  procs : List (Proc κ R α)
  log : List (LogEntry O R)

inductive PoolLabel (κ O : Type) where
  | invoke (call : κ)
  | exec (i : Nat) (oracle : O)
  deriving Repr

namespace Pool
variable {C σ O κ : Type} {R : C → Type} {α : Type}

section Step
variable (exec : σ → O → (c : C) → R c × σ) (body : κ → Prog R α)

/-- `exec` is the server; what it leaves open is decided by the oracle. -/
def step (s : Pool σ O κ R α) : PoolLabel κ O → Option (Pool σ O κ R α)
  | .invoke call => some { s with procs := s.procs ++ [⟨call, body call⟩] }
  | .exec i o =>
    match s.procs[i]? with
    | some ⟨call, .call c k⟩ =>
      let r := exec s.server o c
      some {
        server := r.2
        procs := s.procs.set i ⟨call, k r.1⟩
        log := s.log ++ [⟨i, o, c, r.1⟩] }
    | _ => none

def init (server : σ) : Pool σ O κ R α := ⟨server, [], []⟩

def replay (server : σ) (log : List (LogEntry O R)) : σ :=
  log.foldl (fun t e => (exec t e.oracle e.cmd).2) server

def stateAt (server : σ) (log : List (LogEntry O R)) (n : Nat) : σ := replay exec server (log.take n)

end Step

def exchanges (i : Nat) (log : List (LogEntry O R)) : List (Exchange R) :=
  (log.filter fun e => e.proc = i).map fun e => ⟨e.cmd, e.reply⟩

def Returned (s : Pool σ O κ R α) (i : Nat) (call : κ) (a : α) : Prop :=
  s.procs[i]? = some ⟨call, .ret a⟩

def result? (s : Pool σ O κ R α) (i : Nat) : Option α :=
  match s.procs[i]? with
  | some ⟨_, .ret a⟩ => some a
  | _ => none

variable {exec : σ → O → (c : C) → R c × σ} {body : κ → Prog R α}

structure Inv (exec : σ → O → (c : C) → R c × σ) (body : κ → Prog R α) (t₀ : σ)
    (s : Pool σ O κ R α) : Prop where
  server : s.server = replay exec t₀ s.log
  answered : ∀ l₁ e l₂, s.log = l₁ ++ e :: l₂ →
    e.reply = (exec (replay exec t₀ l₁) e.oracle e.cmd).1
  started : ∀ e ∈ s.log, e.proc < s.procs.length
  traced : ∀ i P, s.procs[i]? = some P → (body P.call).After (exchanges i s.log) P.prog

theorem replay_append (server : σ) (l₁ l₂ : List (LogEntry O R)) :
    replay exec server (l₁ ++ l₂) = replay exec (replay exec server l₁) l₂ :=
  List.foldl_append

theorem exchanges_snoc (i : Nat) (log : List (LogEntry O R)) (e : LogEntry O R) :
    exchanges i (log ++ [e]) =
      if e.proc = i then exchanges i log ++ [⟨e.cmd, e.reply⟩] else exchanges i log := by
  by_cases h : e.proc = i <;> simp [exchanges, h]

theorem exchanges_eq_nil {i : Nat} {log : List (LogEntry O R)} (h : ∀ e ∈ log, e.proc < i) :
    exchanges i log = [] := by
  have hf : log.filter (fun e => e.proc = i) = [] := by
    rw [List.filter_eq_nil_iff]
    intro e he
    simpa using Nat.ne_of_lt (h e he)
  rw [exchanges, hf, List.map_nil]

theorem step_cases {s t : Pool σ O κ R α} {l : PoolLabel κ O} (h : s.step exec body l = some t) :
    (∃ call, l = .invoke call ∧ t = { s with procs := s.procs ++ [⟨call, body call⟩] }) ∨
      ∃ i o call c k, l = .exec i o ∧ s.procs[i]? = some ⟨call, .call c k⟩ ∧
        t = ⟨(exec s.server o c).2, s.procs.set i ⟨call, k (exec s.server o c).1⟩,
          s.log ++ [⟨i, o, c, (exec s.server o c).1⟩]⟩ := by
  cases l with
  | invoke call => exact .inl ⟨call, rfl, (Option.some.inj h).symm⟩
  | exec i o =>
    simp only [step] at h
    split at h
    · next call c k hP => exact .inr ⟨i, o, call, c, k, rfl, hP, (Option.some.inj h).symm⟩
    · cases h

theorem init_inv (server : σ) : Inv exec body server (init server) where
  server := rfl
  answered := fun l₁ e l₂ h => by simp [init] at h
  started := fun e he => by simp [init] at he
  traced := fun i P h => by simp [init] at h

theorem Inv.invoke {server : σ} {s : Pool σ O κ R α} (hi : Inv exec body server s) (call : κ) :
    Inv exec body server { s with procs := s.procs ++ [⟨call, body call⟩] } where
  server := hi.server
  answered := hi.answered
  started := fun e he => by
    rw [List.length_append]
    exact Nat.lt_of_lt_of_le (hi.started e he) (Nat.le_add_right _ _)
  traced := fun i P hP => by
    rcases List.getElem?_of_concat hP with hold | ⟨rfl, rfl⟩
    · exact hi.traced i P hold
    · -- the new process has exchanged nothing yet
      rw [exchanges_eq_nil hi.started]
      exact .nil

theorem Inv.perform {server : σ} {s : Pool σ O κ R α} (hi : Inv exec body server s) {i : Nat}
    {call : κ} {c : C} {k : R c → Prog R α} (hP : s.procs[i]? = some ⟨call, .call c k⟩) (o : O) :
    Inv exec body server ⟨(exec s.server o c).2, s.procs.set i ⟨call, k (exec s.server o c).1⟩,
      s.log ++ [⟨i, o, c, (exec s.server o c).1⟩]⟩ where
  server := by
    rw [replay_append, ← hi.server]
    rfl
  answered := fun l₁ e l₂ h => by
    rcases List.eq_nil_or_concat l₂ with rfl | ⟨l₂, e', rfl⟩
    · obtain ⟨hlog, he⟩ := List.append_inj' h rfl
      obtain rfl := List.head_eq_of_cons_eq he
      rw [← hlog, ← hi.server]
    · rw [List.concat_eq_append, ← List.cons_append, ← List.append_assoc] at h
      exact hi.answered l₁ e l₂ (List.append_inj' h rfl).1
  started := fun e he => by
    rw [List.length_set]
    rcases List.mem_append.mp he with he | he
    · exact hi.started e he
    · obtain rfl := List.mem_singleton.mp he
      exact (List.getElem?_eq_some_iff.mp hP).1
  traced := fun j Q hQ => by
    rw [exchanges_snoc]
    by_cases hij : i = j
    · subst hij
      rw [List.getElem?_set_self (List.getElem?_eq_some_iff.mp hP).1] at hQ
      obtain rfl := Option.some.inj hQ
      rw [if_pos rfl]
      exact .snoc _ (hi.traced i _ hP)
    · rw [List.getElem?_set_ne hij] at hQ
      rw [if_neg hij]
      exact hi.traced j Q hQ

theorem inv_of_run {server : σ} {ls : List (PoolLabel κ O)} {s : Pool σ O κ R α}
    (h : Lts.AnyRun (step exec body) (init server) ls s) : Inv exec body server s := by
  refine h.invariant (fun s l t hi _ hs => ?_) (init_inv server)
  obtain ⟨call, -, rfl⟩ | ⟨i, o, call, c, k, -, hP, rfl⟩ := step_cases hs
  · exact hi.invoke call
  · exact hi.perform hP o

theorem stateAt_succ {server : σ} {log : List (LogEntry O R)} {n : Nat} {e : LogEntry O R}
    (h : log[n]? = some e) :
    stateAt exec server log (n + 1) = (exec (stateAt exec server log n) e.oracle e.cmd).2 := by
  rw [stateAt, List.take_add_one, h, replay_append]
  rfl

theorem stateAt_of_none {server : σ} {log : List (LogEntry O R)} {n : Nat} (h : log[n]? = none) :
    stateAt exec server log (n + 1) = stateAt exec server log n := by
  rw [stateAt, List.take_add_one, h, Option.toList_none, List.append_nil, stateAt]

theorem Inv.answered_at {t₀ : σ} {s : Pool σ O κ R α} (hi : Inv exec body t₀ s) {n : Nat}
    {e : LogEntry O R} (h : s.log[n]? = some e) :
    e.reply = (exec (stateAt exec t₀ s.log n) e.oracle e.cmd).1 := by
  obtain ⟨hn, he⟩ := List.getElem?_eq_some_iff.mp h
  refine hi.answered (s.log.take n) e (s.log.drop (n + 1)) ?_
  rw [← he, List.getElem_cons_drop, List.take_append_drop]

theorem exists_entry {i : Nat} {log : List (LogEntry O R)} {x : Exchange R}
    (h : x ∈ exchanges i log) : ∃ (n : Nat) (e : LogEntry O R),
      log[n]? = some e ∧ e.proc = i ∧ x = ⟨e.cmd, e.reply⟩ := by
  obtain ⟨e, he, rfl⟩ := List.mem_map.mp h
  obtain ⟨hmem, hi⟩ := List.mem_filter.mp he
  obtain ⟨n, hn⟩ := List.mem_iff_getElem?.mp hmem
  exact ⟨n, e, hn, by simpa using hi, rfl⟩

theorem mem_exchanges {log : List (LogEntry O R)} {n : Nat} {e : LogEntry O R}
    (h : log[n]? = some e) : (⟨e.cmd, e.reply⟩ : Exchange R) ∈ exchanges e.proc log :=
  List.mem_map.mpr ⟨e, List.mem_filter.mpr ⟨List.mem_of_getElem? h, by simp⟩, rfl⟩

theorem Inv.issued {t₀ : σ} {s : Pool σ O κ R α} (hi : Inv exec body t₀ s) {P : κ → C → Prop}
    (hP : ∀ call, (body call).Issues (P call)) {n : Nat} {e : LogEntry O R}
    (h : s.log[n]? = some e) : ∃ p, s.procs[e.proc]? = some p ∧ P p.call e.cmd := by
  have hlt := hi.started e (List.mem_of_getElem? h)
  refine ⟨s.procs[e.proc], List.getElem?_eq_getElem hlt, ?_⟩
  have hafter := hi.traced e.proc _ (List.getElem?_eq_getElem hlt)
  exact hafter.issued (hP _) _ (mem_exchanges h)

/-- The rule that carries a program's own specification over to the pool. -/
theorem Inv.returned {t₀ : σ} {s : Pool σ O κ R α} (hi : Inv exec body t₀ s) {i : Nat} {call : κ}
    {a : α} (h : s.Returned i call a) {V : ∀ c, R c → Prop} (hV : ∀ t o c, V c (exec t o c).1)
    {Q : List (Exchange R) → α → Prop} (hQ : (body call).Wp V Q) : Q (exchanges i s.log) a := by
  have hadm : ∀ x ∈ exchanges i s.log, V x.cmd x.reply := by
    intro x hx
    obtain ⟨n, e, hn, -, rfl⟩ := exists_entry hx
    change V e.cmd e.reply
    rw [hi.answered_at hn]
    exact hV _ _ _
  have hwp := (hi.traced i _ h).wp hadm hQ
  simpa only [Prog.Wp, List.append_nil] using hwp

theorem exists_lost {t₀ : σ} {log : List (LogEntry O R)} {P : σ → Prop} {m n : Nat} (hmn : m ≤ n)
    (hm : P (stateAt exec t₀ log m)) (hn : ¬ P (stateAt exec t₀ log n)) :
    ∃ k e, m ≤ k ∧ k < n ∧ log[k]? = some e ∧ P (stateAt exec t₀ log k) ∧
      ¬ P (exec (stateAt exec t₀ log k) e.oracle e.cmd).2 := by
  induction n with
  | zero =>
    obtain rfl := Nat.le_zero.mp hmn
    exact absurd hm hn
  | succ n ih =>
    have hne : m ≠ n + 1 := fun h => hn (h ▸ hm)
    have hle : m ≤ n := Nat.le_of_lt_succ (Nat.lt_of_le_of_ne hmn hne)
    by_cases hp : P (stateAt exec t₀ log n)
    · cases he : log[n]? with
      | none => exact absurd (stateAt_of_none he ▸ hp) hn
      | some e => exact ⟨n, e, hle, Nat.lt_succ_self n, he, hp, stateAt_succ he ▸ hn⟩
    · obtain ⟨k, e, hk, hkn, h⟩ := ih hle hp
      exact ⟨k, e, hk, Nat.lt_succ_of_lt hkn, h⟩

end Pool
