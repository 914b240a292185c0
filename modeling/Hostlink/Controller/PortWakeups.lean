import Hostlink.Controller.PortWatchers

/-! No change of the set of ports goes unnoticed: a reconciler that waits on an empty channel while
no call is under way has a snapshot of the ports that are there. -/

namespace Hostlink.Controller

def SamePorts (m m' : GoMap Nat PortMapping) : Prop :=
  ∀ port, (m.get port).isSome = (m'.get port).isSome

namespace MemPortStore

theorem allocate_of_not_notifies {s : MemPortStore} {lo hi : Nat} {mapping : PortMapping}
    (h : s.notifies (.allocate lo hi mapping) = false) : (s.allocate lo hi mapping).2 = s := by
  simp only [notifies] at h
  unfold allocate at h ⊢
  split
  · rfl
  · next hrange =>
    simp only [hrange] at h
    split
    · next port hport =>
      rw [hport] at h
      cases h
    · rfl

theorem releaseByAgent_of_not_notifies {s : MemPortStore} {agentId : String}
    {pages : List Redis.Oracle} (h : s.notifies (.releaseByAgent agentId pages) = false) :
    SamePorts s.mappings (s.releaseByAgent agentId).2.mappings := by
  have hnone : s.mappings.keys.dedup.filter
      (fun port => (s.mappings.get port).any (·.agentId = agentId)) = [] := by
    simpa [notifies, releaseByAgent] using h
  intro port
  show _ = ((s.mappings.get port).bind _).isSome
  cases hget : s.mappings.get port with
  | none => rfl
  | some mapping =>
    have hkey : port ∈ s.mappings.keys.dedup :=
      List.mem_dedup.mpr (s.mappings.covers port (by rw [hget]; exact Option.some_ne_none _))
    have hother := List.filter_eq_nil_iff.mp hnone port hkey
    rw [hget, Option.any_some, decide_eq_true_eq] at hother
    show true = (if mapping.agentId = agentId then none else some mapping).isSome
    rw [if_neg hother]
    rfl

theorem call_of_not_notifies {s : MemPortStore} {c : StoreCall} (h : s.notifies c = false) :
    SamePorts s.mappings (s.call c).2.mappings := by
  cases c with
  | allocate lo hi mapping =>
    have hsame := allocate_of_not_notifies h
    intro port
    show _ = (((s.allocate lo hi mapping).2.mappings).get port).isSome
    rw [hsame]
  | release port =>
    have hnone : s.mappings.get port = none := by
      simpa [notifies] using h
    intro other
    show _ = ((s.mappings.erase port).get other).isSome
    by_cases ho : other = port
    · rw [ho, GoMap.get_erase_self, hnone]
    · rw [GoMap.get_erase_of_ne _ ho]
  | lookup port => exact fun _ => rfl
  | update port mapping =>
    intro other
    show _ = (((s.update port mapping).2.mappings).get other).isSome
    unfold update
    split
    · next old hold =>
      by_cases ho : other = port
      · rw [ho, GoMap.get_insert_self, hold]
        rfl
      · rw [GoMap.get_insert_of_ne _ ho]
    · rfl
  | desired pages => exact fun _ => rfl
  | releaseByAgent agentId pages => exact releaseByAgent_of_not_notifies h

end MemPortStore

namespace PortWatch
variable {s t : PortWatch} {l : PortWatchLabel} {k : Nat} {c : PortWatcher}

def subscription (s : PortWatch) (k : Nat) : Option Nat :=
  (s.clients[k]?).bind fun c => if c.pc = .stopped then none else c.id

def Unsignalled (s : PortWatch) : Prop := ∃ call ∈ s.calls, call.stage = .notify

def Current (s : PortWatch) (c : PortWatcher) : Prop :=
  ∃ m, c.snapshot = some m ∧ SamePorts m s.store.mappings

def Informed (s : PortWatch) (c : PortWatcher) : Prop :=
  c.reconciles = true → c.pc = .wait → c.ch.full = true ∨ s.Unsignalled ∨ s.Current c

structure Inv (s : PortWatch) : Prop where
  indexed : s.watchers.closed = false → s.watchers.subs.Indexes s.subscription
  emptied : s.watchers.closed = true → ∀ id, s.watchers.subs.get id = none
  numbered : ∀ (k : Nat) c id, s.clients[k]? = some c → c.id = some id → id < s.watchers.next
  subscribed : s.watchers.closed = false → ∀ c ∈ s.clients, c.id ≠ none
  informed : s.watchers.closed = false → ∀ c ∈ s.clients, s.Informed c

inductive Step (s : PortWatch) : PortWatchLabel → PortWatch → Prop
  | call (c : StoreCall) : Step s (.call c) { s with calls := s.calls ++ [{ call := c }] }
  | mutate (j : Nat) (call : MutatorCall) (hj : s.calls[j]? = some call) (hstage : call.stage = .mutate) :
      Step s (.mutate j) (s.mutate j call)
  | notify (j : Nat) (call : MutatorCall) (hj : s.calls[j]? = some call) (hstage : call.stage = .notify) :
      Step s (.notify j) (s.notify.setCall j { call with stage := .returned })
  | watch (reconciles : Bool) : Step s (.watch reconciles) (s.watch reconciles)
  | client (l : PortWatchLabel) (k : Nat) (c c' : PortWatcher) (hk : s.clients[k]? = some c)
      (hid : c'.id = c.id) (hreconciles : c'.reconciles = c.reconciles)
      (hsignals : c'.ch.signals = c.ch.signals) (hpc : c.pc ≠ .stopped) (hpc' : c'.pc ≠ .stopped)
      (hinformed : s.Informed c → s.Informed c') : Step s l (s.setClient k c')
  | stop (k : Nat) (c : PortWatcher) (hk : s.clients[k]? = some c) (hpc : c.pc = .wait) :
      Step s (.stop k) (s.stop k c)
  | close : Step s .close { s with watchers := s.watchers.close }

theorem stepClient_cases (hk : s.clients[k]? = some c) (h : s.stepClient k c l = some t) :
    Step s l t ∨ ∃ j, l = .stop j ∧ c.pc = .wait ∧ t = s.stop k c := by
  cases l with
  | desired j =>
    simp only [stepClient] at h
    split at h
    · next hpc =>
      obtain rfl := Option.some.inj h
      refine .inl (.client _ k c _ hk rfl rfl rfl (by rw [hpc]; rintro ⟨⟩) (by rintro ⟨⟩) ?_)
      exact fun _ _ _ => .inr (.inr ⟨s.store.mappings, rfl, fun _ => rfl⟩)
    · cases h
  | receive j =>
    simp only [stepClient] at h
    split at h
    · next hpc =>
      split at h
      · obtain rfl := Option.some.inj h
        refine .inl (.client _ k c _ hk rfl rfl rfl (by rw [hpc]; rintro ⟨⟩) ?_ ?_)
        · show (if c.reconciles then WatcherPc.desired else .wait) ≠ .stopped
          split <;> rintro ⟨⟩
        · intro _ hreconciles hwait
          have hr : c.reconciles = true := hreconciles
          simp only [hr, if_true] at hwait
          cases hwait
      · cases h
    · cases h
  | tick j =>
    simp only [stepClient] at h
    split at h
    · next hpc =>
      split at h
      · obtain rfl := Option.some.inj h
        refine .inl (.client _ k c _ hk rfl rfl rfl (by rw [hpc]; rintro ⟨⟩) (by rintro ⟨⟩) ?_)
        intro _ _ hwait
        cases hwait
      · cases h
    · cases h
  | stop j =>
    simp only [stepClient] at h
    split at h
    · next hpc => exact .inr ⟨j, rfl, hpc, (Option.some.inj h).symm⟩
    · cases h
  | call | mutate | notify | watch | close => cases h

theorem step_cases (h : s.step l = some t) : Step s l t := by
  cases l with
  | call c =>
    obtain rfl := Option.some.inj h
    exact .call c
  | mutate j =>
    obtain ⟨call, hj, h⟩ := Option.bind_eq_some_iff.mp h
    split at h
    · next hstage =>
      obtain rfl := Option.some.inj h
      exact .mutate j call hj hstage
    · cases h
  | notify j =>
    obtain ⟨call, hj, h⟩ := Option.bind_eq_some_iff.mp h
    split at h
    · next hstage =>
      obtain rfl := Option.some.inj h
      exact .notify j call hj hstage
    · cases h
  | watch reconciles =>
    obtain rfl := Option.some.inj h
    exact .watch reconciles
  | desired k | receive k | tick k =>
    obtain ⟨c, hk, h⟩ := Option.bind_eq_some_iff.mp h
    rcases stepClient_cases hk h with hstep | ⟨j, hl, -, -⟩
    · exact hstep
    · cases hl
  | stop k =>
    obtain ⟨c, hk, h⟩ := Option.bind_eq_some_iff.mp h
    rcases stepClient_cases hk h with hstep | ⟨j, -, hpc, rfl⟩
    · exact hstep
    · exact .stop k c hk hpc
  | close =>
    obtain rfl := Option.some.inj h
    exact .close

/-! ### The subscriptions -/

theorem subscription_eq (hk : s.clients[k]? = some c) :
    s.subscription k = if c.pc = .stopped then none else c.id := by
  rw [subscription, hk, Option.bind_some]

theorem subscription_setClient {c' : PortWatcher} (hk : s.clients[k]? = some c)
    (h : t.clients = s.clients.set k c') :
    t.subscription = Function.update s.subscription k (if c'.pc = .stopped then none else c'.id) := by
  have hlt : k < s.clients.length := (List.getElem?_eq_some_iff.mp hk).1
  show (fun n => t.clients[n]?.bind _) = _
  rw [h]
  exact List.bind_getElem?_set _ hlt

theorem subscription_concat {c' : PortWatcher} (h : t.clients = s.clients ++ [c']) :
    t.subscription = Function.update s.subscription s.clients.length
      (if c'.pc = .stopped then none else c'.id) := by
  show (fun n => t.clients[n]?.bind _) = _
  rw [h]
  exact List.bind_getElem?_concat _

theorem Inv.not_notified (hi : s.Inv) (hk : s.clients[k]? = some c) (hpc : c.pc = .stopped) :
    k ∉ s.watchers.notified := by
  rw [PortWatchers.mem_notified]
  rintro ⟨id, hid⟩
  cases hclosed : s.watchers.closed with
  | true =>
    rw [hi.emptied hclosed id] at hid
    cases hid
  | false =>
    have hsub := (hi.indexed hclosed id k).mp hid
    rw [subscription_eq hk, if_pos hpc] at hsub
    cases hsub

theorem Inv.notified (hi : s.Inv) (hclosed : s.watchers.closed = false)
    (hk : s.clients[k]? = some c) (hpc : c.pc ≠ .stopped) : k ∈ s.watchers.notified := by
  obtain ⟨id, hid⟩ := Option.ne_none_iff_exists'.mp
    (hi.subscribed hclosed c (List.mem_of_getElem? hk))
  refine PortWatchers.mem_notified.mpr ⟨id, (hi.indexed hclosed id k).mpr ?_⟩
  rw [subscription_eq hk, if_neg hpc, hid]

/-! ### One step -/

theorem Inv.of_clients (hi : s.Inv) (hwatchers : t.watchers = s.watchers)
    (hclients : t.clients = s.clients)
    (hinformed : ∀ c ∈ s.clients, s.Informed c → t.Informed c) : t.Inv := by
  have hsubscription : t.subscription = s.subscription := by
    funext n
    rw [subscription, hclients, subscription]
  constructor
  · rw [hwatchers, hsubscription]
    exact hi.indexed
  · rw [hwatchers]
    exact hi.emptied
  · rw [hwatchers, hclients]
    exact hi.numbered
  · rw [hwatchers, hclients]
    exact hi.subscribed
  · rw [hwatchers, hclients]
    exact fun hclosed c hc => hinformed c hc (hi.informed hclosed c hc)

theorem Unsignalled.of_subset (h : s.Unsignalled) (hcalls : ∀ call ∈ s.calls, call ∈ t.calls) :
    t.Unsignalled := by
  obtain ⟨call, hcall, hstage⟩ := h
  exact ⟨call, hcalls call hcall, hstage⟩

theorem Inv.mutate {j : Nat} {call : MutatorCall} (hi : s.Inv) (hj : s.calls[j]? = some call)
    (hstage : call.stage = .mutate) : (s.mutate j call).Inv := by
  have hlt : j < s.calls.length := (List.getElem?_eq_some_iff.mp hj).1
  refine hi.of_clients rfl rfl fun c _ hinformed hreconciles hwait => ?_
  cases hnotifies : s.store.notifies call.call with
  | true =>
    refine .inr (.inl ⟨_, List.mem_of_getElem? (List.getElem?_set_self hlt), ?_⟩)
    rw [hnotifies, if_pos rfl]
  | false =>
    rcases hinformed hreconciles hwait with hfull | ⟨other, hother, hpending⟩ | ⟨m, hm, hsame⟩
    · exact .inl hfull
    · obtain ⟨n, hn⟩ := List.getElem?_of_mem hother
      have hne : n ≠ j := by
        rintro rfl
        obtain rfl := Option.some.inj (hn.symm.trans hj)
        rw [hstage] at hpending
        cases hpending
      refine .inr (.inl ⟨other, List.mem_of_getElem? (i := n) ?_, hpending⟩)
      exact (List.getElem?_set_ne (Ne.symm hne)).trans hn
    · have hkept := MemPortStore.call_of_not_notifies hnotifies
      exact .inr (.inr ⟨m, hm, fun port => (hsame port).trans (hkept port)⟩)

theorem getElem?_notify (hk : s.clients[k]? = some c) : s.notify.clients[k]? =
    some (if k ∈ s.watchers.notified then { c with ch := c.ch.trySend } else c) := by
  rw [notify, List.getElem?_mapIdx, hk, Option.map_some]

theorem full_trySend (ch : SignalChan) : ch.trySend.full = true := by
  unfold SignalChan.trySend
  split
  · next h => exact h
  · rfl

theorem Inv.notify {j : Nat} {call : MutatorCall} (hi : s.Inv) :
    (s.notify.setCall j call).Inv := by
  have hback : ∀ (n : Nat) c', s.notify.clients[n]? = some c' → ∃ c, s.clients[n]? = some c ∧
      c'.id = c.id ∧ c'.pc = c.pc ∧ (n ∈ s.watchers.notified → c'.ch.full = true) := by
    intro n c' hn
    obtain ⟨c, hc⟩ : ∃ c, s.clients[n]? = some c := by
      have hlt := (List.getElem?_eq_some_iff.mp hn).1
      rw [PortWatch.notify, List.length_mapIdx] at hlt
      exact ⟨_, List.getElem?_eq_getElem hlt⟩
    rw [getElem?_notify hc] at hn
    obtain rfl := Option.some.inj hn
    refine ⟨c, hc, ?_⟩
    split
    · exact ⟨rfl, rfl, fun _ => full_trySend _⟩
    · next hnot => exact ⟨rfl, rfl, fun h => absurd h hnot⟩
  have hsubscription : (s.notify.setCall j call).subscription = s.subscription := by
    funext n
    cases hc : s.clients[n]? with
    | none =>
      have hnone : s.notify.clients[n]? = none := by
        rw [PortWatch.notify, List.getElem?_mapIdx, hc, Option.map_none]
      show (s.notify.clients[n]?).bind _ = _
      rw [hnone, subscription, hc, Option.bind_none]
    | some c =>
      have hn := getElem?_notify hc
      obtain ⟨c₀, hc₀, hid, hpc, -⟩ := hback n _ hn
      obtain rfl := Option.some.inj (hc.symm.trans hc₀)
      rw [subscription_eq (s := s.notify.setCall j call) hn, subscription_eq hc, hid, hpc]
  constructor
  · rw [hsubscription]
    exact hi.indexed
  · exact hi.emptied
  · intro n c' id hn hid
    obtain ⟨c, hc, hidc, -⟩ := hback n c' hn
    exact hi.numbered n c id hc (hidc ▸ hid)
  · intro hclosed c' hc'
    obtain ⟨n, hn⟩ := List.getElem?_of_mem hc'
    obtain ⟨c, hc, hid, -⟩ := hback n c' hn
    rw [hid]
    exact hi.subscribed hclosed c (List.mem_of_getElem? hc)
  · intro hclosed c' hc' _ hwait
    obtain ⟨n, hn⟩ := List.getElem?_of_mem hc'
    obtain ⟨c, hc, -, hpc, hfull⟩ := hback n c' hn
    refine .inl (hfull (hi.notified hclosed hc ?_))
    rw [← hpc, hwait]
    rintro ⟨⟩

theorem Inv.watch (hi : s.Inv) (reconciles : Bool) : (s.watch reconciles).Inv := by
  have hactive : (if reconciles then WatcherPc.desired else .wait) ≠ .stopped := by
    split <;> rintro ⟨⟩
  have hinformed : ∀ id, Informed (s.watch reconciles)
      { reconciles := reconciles, id := id, pc := if reconciles then .desired else .wait } := by
    intro id hr hwait
    have hr' : reconciles = true := hr
    simp only [hr', if_true] at hwait
    cases hwait
  cases hclosed : s.watchers.closed with
  | true =>
    have hwatchers : s.watchers.watch s.clients.length = (none, s.watchers) := by
      rw [PortWatchers.watch, if_pos hclosed]
    have hstays : (s.watch reconciles).watchers = s.watchers := by rw [PortWatch.watch, hwatchers]
    refine ⟨fun h => ?_, fun _ => ?_, ?_, fun h => ?_, fun h => ?_⟩
    · rw [hstays, hclosed] at h
      cases h
    · rw [hstays]
      exact hi.emptied hclosed
    · intro n c id hn hid
      rw [hstays]
      rcases List.getElem?_of_concat hn with hold | ⟨-, rfl⟩
      · exact hi.numbered n c id hold hid
      · rw [hwatchers] at hid
        cases hid
    · rw [hstays, hclosed] at h
      cases h
    · rw [hstays, hclosed] at h
      cases h
  | false =>
    have hwatchers : s.watchers.watch s.clients.length = (some s.watchers.next, { s.watchers with
        next := s.watchers.next + 1
        subs := s.watchers.subs.insert s.watchers.next s.clients.length }) := by
      rw [PortWatchers.watch, if_neg (by rw [hclosed]; exact Bool.false_ne_true)]
    have hclients : (s.watch reconciles).clients = s.clients ++ [{
        reconciles := reconciles, id := some s.watchers.next,
        pc := if reconciles then .desired else .wait }] := by
      rw [PortWatch.watch, hwatchers]
    have hnew : (s.watch reconciles).watchers = { s.watchers with
        next := s.watchers.next + 1
        subs := s.watchers.subs.insert s.watchers.next s.clients.length } := by
      rw [PortWatch.watch, hwatchers]
    have hfresh : ∀ n, s.subscription n ≠ some s.watchers.next := by
      intro n hn
      obtain ⟨c, hc, h⟩ := Option.bind_eq_some_iff.mp hn
      split at h
      · cases h
      · exact Nat.lt_irrefl _ (hi.numbered n c _ hc h)
    have hlast : s.subscription s.clients.length = none := by
      rw [subscription, List.getElem?_eq_none (Nat.le_refl _), Option.bind_none]
    constructor
    · intro _
      rw [subscription_concat hclients, if_neg hactive, hnew]
      exact (hi.indexed hclosed).insert hfresh hlast
    · intro h
      rw [hnew] at h
      exact absurd h (by rw [hclosed]; exact Bool.false_ne_true)
    · intro n c id hn hid
      rw [hclients] at hn
      rw [hnew]
      rcases List.getElem?_of_concat hn with hold | ⟨-, rfl⟩
      · exact Nat.lt_succ_of_lt (hi.numbered n c id hold hid)
      · exact Nat.lt_succ_of_le (Nat.le_of_eq (Option.some.inj hid).symm)
    · intro _
      rw [hclients]
      exact List.forall_mem_append.mpr
        ⟨hi.subscribed hclosed, List.forall_mem_singleton.mpr (Option.some_ne_none _)⟩
    · intro _
      rw [hclients]
      exact List.forall_mem_append.mpr ⟨hi.informed hclosed, List.forall_mem_singleton.mpr (hinformed _)⟩

theorem Inv.setClient {c' : PortWatcher} (hi : s.Inv) (hk : s.clients[k]? = some c)
    (hid : c'.id = c.id) (hpc : c.pc ≠ .stopped) (hpc' : c'.pc ≠ .stopped)
    (hinformed : s.Informed c → s.Informed c') : (s.setClient k c').Inv := by
  have hsubscription : (s.setClient k c').subscription = s.subscription := by
    rw [subscription_setClient hk rfl, if_neg hpc', hid,
      show c.id = s.subscription k by rw [subscription_eq hk, if_neg hpc], Function.update_eq_self]
  constructor
  · rw [hsubscription]
    exact hi.indexed
  · exact hi.emptied
  · intro n d id hn hd
    rcases List.getElem?_of_set hn with ⟨-, hold⟩ | ⟨-, rfl⟩
    · exact hi.numbered n d id hold hd
    · exact hi.numbered k c id hk (hid ▸ hd)
  · intro hclosed d hd
    rcases List.mem_or_eq_of_mem_set hd with hold | rfl
    · exact hi.subscribed hclosed d hold
    · rw [hid]
      exact hi.subscribed hclosed c (List.mem_of_getElem? hk)
  · intro hclosed d hd
    rcases List.mem_or_eq_of_mem_set hd with hold | rfl
    · exact hi.informed hclosed d hold
    · exact hinformed (hi.informed hclosed c (List.mem_of_getElem? hk))

theorem Inv.stop (hi : s.Inv) (hk : s.clients[k]? = some c) (hpc : c.pc ≠ .stopped) :
    (s.stop k c).Inv := by
  have hsubscription : (s.stop k c).subscription = Function.update s.subscription k none := by
    rw [subscription_setClient hk rfl, if_pos rfl]
  have hmem := List.mem_of_getElem? hk
  have hframe : (s.stop k c).watchers.closed = s.watchers.closed ∧
      (s.stop k c).watchers.next = s.watchers.next := by
    unfold PortWatch.stop
    split <;> exact ⟨rfl, rfl⟩
  constructor
  · intro hclosed
    rw [hframe.1] at hclosed
    obtain ⟨id, hid⟩ := Option.ne_none_iff_exists'.mp (hi.subscribed hclosed c hmem)
    have hsubs : (s.stop k c).watchers.subs = s.watchers.subs.erase id := by
      rw [PortWatch.stop, hid]
      rfl
    rw [hsubscription, hsubs]
    refine (hi.indexed hclosed).erase ?_
    rw [subscription_eq hk, if_neg hpc, hid]
  · intro hclosed id
    rw [hframe.1] at hclosed
    have hempty := hi.emptied hclosed
    unfold PortWatch.stop
    split
    · next old _ =>
      rw [Option.eq_none_iff_forall_ne_some]
      intro n hn
      have hold := GoMap.get_of_get_erase hn
      rw [hempty id] at hold
      cases hold
    · exact hempty id
  · intro n d id hn hd
    rw [hframe.2]
    rcases List.getElem?_of_set hn with ⟨-, hold⟩ | ⟨-, rfl⟩
    · exact hi.numbered n d id hold hd
    · exact hi.numbered k c id hk hd
  · intro hclosed d hd
    rw [hframe.1] at hclosed
    rcases List.mem_or_eq_of_mem_set hd with hold | rfl
    · exact hi.subscribed hclosed d hold
    · exact hi.subscribed hclosed c hmem
  · intro hclosed d hd
    rw [hframe.1] at hclosed
    rcases List.mem_or_eq_of_mem_set hd with hold | rfl
    · exact hi.informed hclosed d hold
    · intro _ hwait
      cases hwait

theorem Inv.step (hi : s.Inv) (h : s.step l = some t) : t.Inv := by
  rcases step_cases h with _ | ⟨j, call, hj, hstage⟩ | ⟨j, call, -, -⟩ | reconciles |
    ⟨_, k, c, c', hk, hid, -, -, hpc, hpc', hinformed⟩ | ⟨k, c, hk, hpc⟩ | _
  · refine hi.of_clients rfl rfl fun c _ hinformed hreconciles hwait => ?_
    rcases hinformed hreconciles hwait with hfull | hpending | hcurrent
    · exact .inl hfull
    · exact .inr (.inl (hpending.of_subset fun _ => List.mem_append_left _))
    · exact .inr (.inr hcurrent)
  · exact hi.mutate hj hstage
  · exact hi.notify
  · exact hi.watch reconciles
  · exact hi.setClient hk hid hpc hpc' hinformed
  · refine hi.stop hk ?_
    rw [hpc]
    rintro ⟨⟩
  · refine ⟨?_, fun _ _ => rfl, hi.numbered, ?_, ?_⟩ <;> (intro hclosed; cases hclosed)

theorem inv_of_run {ls : List PortWatchLabel} (h : Lts.AnyRun step {} ls t) : t.Inv := by
  refine h.invariant (I := Inv) (fun s l t hi _ hs => hi.step hs) ?_
  constructor
  · intro _ id k
    constructor
    · intro hget
      cases hget
    · intro hsub
      cases hsub
  · intro hclosed
    cases hclosed
  · intro k c id hk
    cases hk
  · intro _ c hc
    cases hc
  · intro _ c hc
    cases hc

/-! ### A watcher that has stopped -/

theorem Inv.stopped_step (hi : s.Inv) (h : s.step l = some t) (hk : s.clients[k]? = some c)
    (hpc : c.pc = .stopped) :
    ∃ c', t.clients[k]? = some c' ∧ c'.pc = .stopped ∧ c'.ch.signals = c.ch.signals := by
  have hother : ∀ {j : Nat} {d d' : PortWatcher}, s.clients[j]? = some d → d.pc ≠ .stopped →
      (s.clients.set j d')[k]? = some c := by
    intro j d d' hj hd
    rw [List.getElem?_set_ne, hk]
    rintro rfl
    exact hd (Option.some.inj (hj.symm.trans hk) ▸ hpc)
  rcases step_cases h with _ | ⟨j, call, hj, hstage⟩ | ⟨j, call, -, -⟩ | reconciles |
    ⟨_, j, d, d', hj, -, -, -, hd, -, -⟩ | ⟨j, d, hj, hd⟩ | _
  · exact ⟨c, hk, hpc, rfl⟩
  · exact ⟨c, hk, hpc, rfl⟩
  · refine ⟨c, ?_, hpc, rfl⟩
    show s.notify.clients[k]? = some c
    rw [getElem?_notify hk, if_neg (hi.not_notified hk hpc)]
  · exact ⟨c, (List.getElem?_append_left (List.getElem?_eq_some_iff.mp hk).1).trans hk, hpc, rfl⟩
  · exact ⟨c, hother hj hd, hpc, rfl⟩
  · refine ⟨c, hother hj ?_, hpc, rfl⟩
    rw [hd]
    rintro ⟨⟩
  · exact ⟨c, hk, hpc, rfl⟩

theorem Inv.stopped_run {ls : List PortWatchLabel} (hi : s.Inv)
    (h : Lts.AnyRun PortWatch.step s ls t) (hk : s.clients[k]? = some c)
    (hpc : c.pc = .stopped) :
    ∃ c', t.clients[k]? = some c' ∧ c'.pc = .stopped ∧ c'.ch.signals = c.ch.signals := by
  refine (h.invariant (I := fun u => u.Inv ∧ ∃ c', u.clients[k]? = some c' ∧ c'.pc = .stopped ∧
    c'.ch.signals = c.ch.signals) ?_ ⟨hi, c, hk, hpc, rfl⟩).2
  rintro u l v ⟨hu, c', hk', hpc', hsignals⟩ - hstep
  obtain ⟨c'', hk'', hpc'', hsignals'⟩ := hu.stopped_step hstep hk' hpc'
  exact ⟨hu.step hstep, c'', hk'', hpc'', hsignals'.trans hsignals⟩

/-- No change of the ports is lost on a reconciler: when it waits on an empty channel and no call is
in progress, its last snapshot has the store's ports. A call that has its signals to send can always
send them, and none of them reaches a watcher that has stopped. -/
theorem wakeups_of_run {ls : List PortWatchLabel} (h : Lts.AnyRun step {} ls t) :
    (t.watchers.closed = false → (∀ call ∈ t.calls, call.stage = .returned) →
      ∀ c ∈ t.clients, c.reconciles = true → c.pc = .wait → c.ch.full = false → t.Current c) ∧
    (∀ (j : Nat) call, t.calls[j]? = some call → call.stage = .notify → (t.step (.notify j)).isSome) ∧
    ∀ (k : Nat) c, t.clients[k]? = some c → c.pc = .stopped →
      ∀ (ms : List PortWatchLabel) u, Lts.AnyRun step t ms u →
        ∃ c', u.clients[k]? = some c' ∧ c'.ch.signals = c.ch.signals := by
  have hi := inv_of_run h
  refine ⟨?_, ?_, ?_⟩
  · intro hclosed hreturned c hc hreconciles hwait hempty
    rcases hi.informed hclosed c hc hreconciles hwait with hfull | ⟨call, hcall, hstage⟩ | hcurrent
    · rw [hempty] at hfull
      cases hfull
    · rw [hreturned call hcall] at hstage
      cases hstage
    · exact hcurrent
  · intro j call hj hstage
    show ((t.calls[j]?).bind _).isSome
    rw [hj, Option.bind_some, if_pos hstage]
    rfl
  · intro k c hk hpc ms u hms
    obtain ⟨c', hk', -, hsignals⟩ := hi.stopped_run hms hk hpc
    exact ⟨c', hk', hsignals⟩

def coalescedChanges : List PortWatchLabel :=
  [.watch true, .watch false, .desired 0,
    .call (.allocate 7000 7001 ⟨"node-1", "127.0.0.1:80", "", false⟩), .mutate 0,
    .call (.allocate 7000 7001 ⟨"node-2", "127.0.0.1:80", "", false⟩), .mutate 1,
    .notify 1, .notify 0, .receive 0, .desired 0, .stop 1,
    .call (.release 7000), .mutate 2, .notify 2, .receive 0, .desired 0]

theorem wakeups_of_run_coalesced : ∃ s, Lts.AnyRun step {} coalescedChanges s ∧
    ∃ c ∈ s.clients, s.Current c ∧ (s.store.mappings.get 7001).isSome ∧
      (s.clients[1]?).any fun d => d.ch.signals = 1 := by
  let s := (Lts.exec step {} coalescedChanges).get (by decide +kernel)
  have hrun := Lts.anyRun_of_exec (t := s) (Option.some_get _).symm
  have hcurrent := (wakeups_of_run hrun).1 (by decide +kernel) (by decide +kernel)
    (s.clients.head (by decide +kernel)) (List.head_mem _) (by decide +kernel) (by decide +kernel)
    (by decide +kernel)
  exact ⟨s, hrun, _, List.head_mem _, hcurrent, by decide +kernel, by decide +kernel⟩

end PortWatch
end Hostlink.Controller
