import Mathlib.Data.List.Find
import Hostlink.Lib.Slots
import Hostlink.Controller.Directory

/-! The map of a replica's own agents while streams of one agent displace each other: what `get`
finds is the connection that was added last, until that connection's own `remove`. -/

namespace Hostlink.Controller

def ControlPc.closes : ControlPc → Option Nat
  | .add replaced => replaced
  | .closeReplaced c => some c
  | _ => none

def ControlStream.removed (st : ControlStream) : Bool :=
  st.registered && match st.pc with
    | .drop | .closeAll | .done => true
    | _ => false

inductive LocalStep (r : Registry) (i : Nat) (st : ControlStream) : ControlLabel → ControlStep → Prop
  | add (redis : Option RedisKeys) (hnew : st.registered = false) :
      LocalStep r i st .hello ⟨(r.addLocal st.agentId i).2, redis,
        { st with registered := true, pc := .add (r.agents.get st.agentId) }, none⟩
  | remove (redis : Option RedisKeys) (pc : ControlPc) (hpc : st.pc = .remove)
      (hnext : pc = .drop ∨ pc = .closeAll) :
      LocalStep r i st .advance ⟨(r.removeLocal st.agentId i).2, redis, { st with pc := pc }, none⟩
  | closeReplaced (redis : Option RedisKeys) (c : Nat) (hpc : st.pc = .closeReplaced c) :
      LocalStep r i st .advance ⟨r, redis, { st with pc := .recv }, some c⟩
  | closeAll (redis : Option RedisKeys) (hpc : st.pc = .closeAll) :
      LocalStep r i st .advance ⟨r, redis, { st with pc := .done }, some i⟩
  | move (l : ControlLabel) (redis : Option RedisKeys) (pc : ControlPc)
      (hl : l = .hello → st.registered = true)
      (hcloses : ∀ c, pc.closes = some c → st.pc.closes = some c)
      (hremoved : ({ st with pc := pc } : ControlStream).removed = st.removed) :
      LocalStep r i st l ⟨r, redis, { st with pc := pc }, none⟩

theorem ControlStream.step_local {r : Registry} {redis : Option RedisKeys} {i : Nat}
    {st : ControlStream} {l : ControlLabel} {e : ControlStep} (h : st.step r redis i l = some e) :
    LocalStep r i st l e := by
  cases l with
  | hello =>
    simp only [step] at h
    split at h
    · split at h
      · next hreg =>
        obtain rfl := Option.some.inj h
        exact .move .hello redis st.pc (fun _ => hreg) (fun _ h => h) rfl
      · next hreg =>
        obtain rfl := Option.some.inj h
        exact .add redis (eq_false_of_ne_true hreg)
    · cases h
  | heartbeat =>
    simp only [step] at h
    split at h
    · next hpc =>
      obtain rfl := Option.some.inj h
      split
      · refine .move .heartbeat redis .refresh (fun h => by cases h) (fun c h => by cases h) ?_
        simp only [removed, hpc]
      · exact .move .heartbeat redis st.pc (fun h => by cases h) (fun _ h => h) rfl
    · cases h
  | recvErr =>
    simp only [step] at h
    split at h
    · next hpc =>
      obtain rfl := Option.some.inj h
      refine .move .recvErr redis _ (fun h => by cases h) (fun c h => ?_) ?_
      · split at h <;> cases h
      · cases hreg : st.registered <;> simp [removed, hpc, hreg]
    · cases h
  | advance =>
    simp only [step] at h
    split at h
    · next replaced hpc =>
      obtain rfl := Option.some.inj h
      refine .move .advance _ _ (fun h => by cases h) (fun c h => ?_) ?_
      · rw [hpc]
        cases replaced with
        | none => cases h
        | some c' => exact h
      · cases replaced <;> simp only [removed, hpc]
    · next c hpc =>
      obtain rfl := Option.some.inj h
      exact .closeReplaced redis c hpc
    · next hpc =>
      obtain rfl := Option.some.inj h
      refine .move .advance _ .recv (fun h => by cases h) (fun c h => by cases h) ?_
      simp only [removed, hpc]
    · next hpc =>
      obtain rfl := Option.some.inj h
      refine .remove redis _ hpc ?_
      split
      · exact .inl rfl
      · exact .inr rfl
    · next hpc =>
      obtain rfl := Option.some.inj h
      refine .move .advance _ .closeAll (fun h => by cases h) (fun c h => by cases h) ?_
      simp only [removed, hpc]
    · next hpc =>
      obtain rfl := Option.some.inj h
      exact .closeAll redis hpc
    · cases h
    · cases h

/-- `added` lists the connections in the order of their `add`, the last first. -/
structure LocalHistory where
  sys : Directory
  added : List Nat

namespace LocalHistory

def adds (s : Directory) : DirectoryLabel → List Nat
  | .stream i .hello => if (s.streams[i]?).any (fun st => !st.registered) then [i] else []
  | _ => []

def step (t : LocalHistory) (l : DirectoryLabel) : Option LocalHistory :=
  (t.sys.step l).map fun s => ⟨s, adds t.sys l ++ t.added⟩

def init (addrs : List String) (redis : Option RedisKeys) : LocalHistory :=
  ⟨⟨addrs.map fun addr => { selfAddr := addr }, redis, [], []⟩, []⟩

def key (t : LocalHistory) (i : Nat) : Option (Nat × String) :=
  (t.sys.streams[i]?).map fun st => (st.pod, st.agentId)

def lastAdded (t : LocalHistory) (pod : Nat) (agentId : String) : Option Nat :=
  t.added.find? fun i => t.key i = some (pod, agentId)

def removed (t : LocalHistory) (i : Nat) : Bool := (t.sys.streams[i]?).any ControlStream.removed

def Displaced (t : LocalHistory) (c : Nat) : Prop :=
  c ∈ t.added ∧ ∀ pod agentId, t.lastAdded pod agentId ≠ some c

structure Inv (t : LocalHistory) : Prop where
  streams : ∀ (i : Nat) st, t.sys.streams[i]? = some st → st.Inv
  added : ∀ i ∈ t.added, ∃ st, t.sys.streams[i]? = some st ∧ st.registered = true
  table : ∀ (pod : Nat) r agentId, t.sys.pods[pod]? = some r →
    r.agents.get agentId = (t.lastAdded pod agentId).filter fun i => !t.removed i
  closing : ∀ (i : Nat) st c, t.sys.streams[i]? = some st → st.pc.closes = some c → t.Displaced c
  closed : ∀ c ∈ t.sys.closed, t.Displaced c ∨ t.removed c = true

variable {t u : LocalHistory} {i c pod : Nat} {st : ControlStream} {agentId : String}

theorem key_of_lastAdded (h : t.lastAdded pod agentId = some c) : t.key c = some (pod, agentId) := by
  simpa using List.find?_some h

theorem lastAdded_congr (hkey : ∀ i ∈ t.added, u.key i = t.key i) (hadded : u.added = t.added) :
    u.lastAdded pod agentId = t.lastAdded pod agentId := by
  rw [lastAdded, hadded, lastAdded]
  refine List.find?_congr fun i hi => ?_
  rw [hkey i hi]

theorem Displaced.congr (h : t.Displaced c) (hkey : ∀ i ∈ t.added, u.key i = t.key i)
    (hadded : u.added = t.added) : u.Displaced c := by
  refine ⟨hadded ▸ h.1, fun pod agentId => ?_⟩
  rw [lastAdded_congr hkey hadded]
  exact h.2 pod agentId

/-! ### A new stream -/

theorem Inv.connect (hi : t.Inv) (pod : Nat) (agentId : String) :
    Inv ⟨{ t.sys with streams := t.sys.streams ++ [{ pod := pod, agentId := agentId }] }, t.added⟩ := by
  have hget : ∀ j st, t.sys.streams[j]? = some st →
      (t.sys.streams ++ [({ pod := pod, agentId := agentId } : ControlStream)])[j]? = some st :=
    fun j st h => List.getElem?_append_of h _
  have hkey : ∀ j ∈ t.added, key ⟨{ t.sys with
      streams := t.sys.streams ++ [{ pod := pod, agentId := agentId }] }, t.added⟩ j = t.key j := by
    intro j hj
    obtain ⟨st, hst, -⟩ := hi.added j hj
    rw [key, key, hget j st hst, hst]
  have hremoved : ∀ j, removed ⟨{ t.sys with
      streams := t.sys.streams ++ [{ pod := pod, agentId := agentId }] }, t.added⟩ j = t.removed j :=
    fun j => List.apply_getElem?_concat (f := Option.any ControlStream.removed) rfl j
  constructor
  · intro j st hst
    rcases List.getElem?_of_concat hst with hold | ⟨-, rfl⟩
    · exact hi.streams j st hold
    · exact fun _ => .inl rfl
  · intro j hj
    obtain ⟨st, hst, hreg⟩ := hi.added j hj
    exact ⟨st, hget j st hst, hreg⟩
  · intro p r a hp
    rw [lastAdded_congr hkey rfl, hi.table p r a hp]
    simp only [hremoved]
  · intro j st c hst hc
    rcases List.getElem?_of_concat hst with hold | ⟨-, rfl⟩
    · exact (hi.closing j st c hold hc).congr hkey rfl
    · cases hc
  · intro c hc
    rw [hremoved]
    exact (hi.closed c hc).imp_left fun h => h.congr hkey rfl

/-! ### A step of a stream -/

section Step
variable {r : Registry} {e : ControlStep}

theorem key_after (hst : t.sys.streams[i]? = some st) (hpod : e.stream.pod = st.pod)
    (hagent : e.stream.agentId = st.agentId) (added : List Nat) (j : Nat) :
    key ⟨t.sys.after i st e, added⟩ j = t.key j := by
  have hlt : i < t.sys.streams.length := (List.getElem?_eq_some_iff.mp hst).1
  show ((t.sys.streams.set i e.stream)[j]?).map _ = _
  by_cases hj : j = i
  · subst hj
    rw [List.getElem?_set_self hlt, key, hst, Option.map_some, Option.map_some, hpod, hagent]
  · rw [List.getElem?_set_ne (Ne.symm hj), key]

theorem removed_after (hst : t.sys.streams[i]? = some st) (added : List Nat) (j : Nat) :
    removed ⟨t.sys.after i st e, added⟩ j = if j = i then e.stream.removed else t.removed j := by
  have hlt : i < t.sys.streams.length := (List.getElem?_eq_some_iff.mp hst).1
  show ((t.sys.streams.set i e.stream)[j]?).any _ = _
  by_cases hj : j = i
  · subst hj
    rw [List.getElem?_set_self hlt, if_pos rfl, Option.any_some]
  · rw [List.getElem?_set_ne (Ne.symm hj), if_neg hj, removed]

theorem Inv.keep (hi : t.Inv) (hst : t.sys.streams[i]? = some st) (hr : t.sys.pods[st.pod]? = some r)
    (hregistry : e.registry = r) (hpod : e.stream.pod = st.pod)
    (hagent : e.stream.agentId = st.agentId) (hinv : e.stream.Inv)
    (hreg : st.registered = true → e.stream.registered = true)
    (hremoved : e.stream.removed = st.removed)
    (hcloses : ∀ c, e.stream.pc.closes = some c → st.pc.closes = some c)
    (hclosed : ∀ c ∈ e.closed, t.Displaced c ∨ t.removed c = true) :
    Inv ⟨t.sys.after i st e, t.added⟩ := by
  have hkey := key_after hst hpod hagent t.added
  have hremoved' : ∀ j, removed ⟨t.sys.after i st e, t.added⟩ j = t.removed j := by
    intro j
    rw [removed_after hst]
    split
    · next hj =>
      subst hj
      rw [hremoved, removed, hst, Option.any_some]
    · rfl
  have hpods : (t.sys.after i st e).pods = t.sys.pods := by
    rw [Directory.after, hregistry]
    refine List.ext_getElem? fun n => ?_
    by_cases hn : n = st.pod
    · subst hn
      rw [List.getElem?_set_self (List.getElem?_eq_some_iff.mp hr).1, hr]
    · rw [List.getElem?_set_ne (Ne.symm hn)]
  constructor
  · intro j st' hst'
    rcases List.getElem?_of_set hst' with ⟨-, hold⟩ | ⟨-, rfl⟩
    · exact hi.streams j st' hold
    · exact hinv
  · intro j hj
    obtain ⟨st', hst', hreg'⟩ := hi.added j hj
    rcases List.getElem?_set_of (a := e.stream) hst hst' with hkept | ⟨hset, rfl⟩
    · exact ⟨st', hkept, hreg'⟩
    · exact ⟨e.stream, hset, hreg hreg'⟩
  · intro p r' a hp
    rw [hpods] at hp
    rw [lastAdded_congr (fun j _ => hkey j) rfl, hi.table p r' a hp]
    simp only [hremoved']
  · intro j st' c hst' hc
    rcases List.getElem?_of_set hst' with ⟨-, hold⟩ | ⟨-, rfl⟩
    · exact (hi.closing j st' c hold hc).congr (fun j _ => hkey j) rfl
    · exact (hi.closing i st c hst (hcloses c hc)).congr (fun j _ => hkey j) rfl
  · intro c hc
    rw [hremoved']
    refine Or.imp_left (fun h => Displaced.congr h (fun j _ => hkey j) rfl) ?_
    rcases List.mem_append.mp hc with hnew | hold
    · exact hclosed c (Option.mem_toList.mp hnew)
    · exact hi.closed c hold

theorem Inv.add (hi : t.Inv) (hst : t.sys.streams[i]? = some st) (hr : t.sys.pods[st.pod]? = some r)
    (hnew : st.registered = false) (redis : Option RedisKeys) :
    Inv ⟨t.sys.after i st ⟨(r.addLocal st.agentId i).2, redis,
      { st with registered := true, pc := .add (r.agents.get st.agentId) }, none⟩, i :: t.added⟩ := by
  have hfresh : i ∉ t.added := by
    intro hmem
    obtain ⟨st', hst', hreg⟩ := hi.added i hmem
    obtain rfl := Option.some.inj (hst.symm.trans hst')
    rw [hnew] at hreg
    cases hreg
  have hown : t.key i = some (st.pod, st.agentId) := by rw [key, hst, Option.map_some]
  have hlt : st.pod < t.sys.pods.length := (List.getElem?_eq_some_iff.mp hr).1
  generalize he : (⟨(r.addLocal st.agentId i).2, redis,
    { st with registered := true, pc := .add (r.agents.get st.agentId) }, none⟩ : ControlStep) = e
  have hkey : ∀ j, key ⟨t.sys.after i st e, i :: t.added⟩ j = t.key j :=
    key_after hst (by rw [← he]) (by rw [← he]) _
  have hremoved : ∀ j, removed ⟨t.sys.after i st e, i :: t.added⟩ j = t.removed j := by
    intro j
    rw [removed_after hst]
    split
    · next hj =>
      subst hj he
      rw [removed, hst, Option.any_some, ControlStream.removed, ControlStream.removed, hnew]
      rfl
    · rfl
  have hlast : ∀ p a, lastAdded ⟨t.sys.after i st e, i :: t.added⟩ p a =
      if some (st.pod, st.agentId) = some (p, a) then some i else t.lastAdded p a := by
    intro p a
    have hrest : t.added.find? (fun j => key ⟨t.sys.after i st e, i :: t.added⟩ j = some (p, a)) =
        t.lastAdded p a := List.find?_congr fun j _ => by rw [hkey j]
    rw [lastAdded, List.find?_cons, hrest, hkey i, hown]
    split
    · next h => rw [if_pos (of_decide_eq_true h)]
    · next h => rw [if_neg (of_decide_eq_false h)]
  have hdisplaced : ∀ c, t.Displaced c → Displaced ⟨t.sys.after i st e, i :: t.added⟩ c := by
    intro c hc
    refine ⟨List.mem_cons_of_mem _ hc.1, fun p a => ?_⟩
    rw [hlast]
    split
    · exact fun heq => hfresh (Option.some.inj heq ▸ hc.1)
    · exact hc.2 p a
  constructor
  · intro j st' hst'
    rcases List.getElem?_of_set hst' with ⟨-, hold⟩ | ⟨-, rfl⟩
    · exact hi.streams j st' hold
    · subst he
      exact fun hreg => by cases hreg
  · intro j hj
    rcases List.mem_cons.mp hj with rfl | hold
    · exact ⟨e.stream, List.getElem?_set_self (List.getElem?_eq_some_iff.mp hst).1, by rw [← he]⟩
    · obtain ⟨st', hst', hreg⟩ := hi.added j hold
      have hne : j ≠ i := fun heq => hfresh (heq ▸ hold)
      exact ⟨st', (List.getElem?_set_ne (Ne.symm hne)).trans hst', hreg⟩
  · intro p r' a hp
    have hp' : (t.sys.pods.set st.pod (r.addLocal st.agentId i).2)[p]? = some r' := by
      rw [← hp, ← he]
      rfl
    rw [hlast]
    simp only [hremoved]
    rcases List.getElem?_of_set hp' with ⟨hne, hold⟩ | ⟨rfl, rfl⟩
    · rw [if_neg (fun heq => hne (Prod.mk.inj (Option.some.inj heq)).1.symm), hi.table p r' a hold]
    · by_cases ha : a = st.agentId
      · subst ha
        have halive : t.removed i = false := by
          rw [removed, hst, Option.any_some, ControlStream.removed, hnew, Bool.false_and]
        rw [if_pos rfl, Registry.addLocal, GoMap.get_insert_self, Option.filter_some, halive]
        rfl
      · rw [if_neg (fun heq => ha (Prod.mk.inj (Option.some.inj heq)).2.symm), Registry.addLocal,
          GoMap.get_insert_of_ne _ ha]
        exact hi.table st.pod r a hr
  · intro j st' c hst' hc
    rcases List.getElem?_of_set hst' with ⟨-, hold⟩ | ⟨-, rfl⟩
    · exact hdisplaced c (hi.closing j st' c hold hc)
    · subst he
      -- what the map had under the id was the last one added there
      have hget : r.agents.get st.agentId = some c := hc
      rw [hi.table st.pod r st.agentId hr] at hget
      have hold : t.lastAdded st.pod st.agentId = some c := (Option.filter_eq_some_iff.mp hget).1
      have hmem : c ∈ t.added := List.mem_of_find?_eq_some hold
      refine ⟨List.mem_cons_of_mem _ hmem, fun p a => ?_⟩
      rw [hlast]
      split
      · exact fun heq => hfresh (Option.some.inj heq ▸ hmem)
      · next hne =>
        exact fun hlast' => hne ((key_of_lastAdded hold).symm.trans (key_of_lastAdded hlast'))
  · intro c hc
    rw [hremoved]
    have hold : c ∈ t.sys.closed := by
      subst he
      exact hc
    exact (hi.closed c hold).imp_left (hdisplaced c)

theorem Inv.remove (hi : t.Inv) (hst : t.sys.streams[i]? = some st)
    (hr : t.sys.pods[st.pod]? = some r) (hpc : st.pc = .remove) {pc : ControlPc}
    (hnext : pc = .drop ∨ pc = .closeAll) (redis : Option RedisKeys) :
    Inv ⟨t.sys.after i st ⟨(r.removeLocal st.agentId i).2, redis, { st with pc := pc }, none⟩,
      t.added⟩ := by
  have hreg : st.registered = true := by
    by_contra hn
    rcases hi.streams i st hst (eq_false_of_ne_true hn) with h | h <;> rw [hpc] at h <;> cases h
  have halive : t.removed i = false := by
    rw [removed, hst, Option.any_some, ControlStream.removed, hpc, Bool.and_false]
  have hown : t.key i = some (st.pod, st.agentId) := by rw [key, hst, Option.map_some]
  generalize he : (⟨(r.removeLocal st.agentId i).2, redis, { st with pc := pc }, none⟩ : ControlStep) = e
  have hstream : e.stream = { st with pc := pc } := by rw [← he]
  have hkey : ∀ j, key ⟨t.sys.after i st e, t.added⟩ j = t.key j :=
    key_after hst (by rw [hstream]) (by rw [hstream]) _
  have hgone : e.stream.removed = true := by
    rw [hstream, ControlStream.removed, hreg]
    rcases hnext with rfl | rfl <;> rfl
  have hremoved : ∀ j, removed ⟨t.sys.after i st e, t.added⟩ j = if j = i then true else t.removed j := by
    intro j
    rw [removed_after hst, hgone]
  constructor
  · intro j st' hst'
    rcases List.getElem?_of_set hst' with ⟨-, hold⟩ | ⟨-, rfl⟩
    · exact hi.streams j st' hold
    · rw [hstream]
      exact fun hn => by rw [hreg] at hn; cases hn
  · intro j hj
    obtain ⟨st', hst', hreg'⟩ := hi.added j hj
    rcases List.getElem?_set_of (a := e.stream) hst hst' with hkept | ⟨hset, rfl⟩
    · exact ⟨st', hkept, hreg'⟩
    · exact ⟨e.stream, hset, by rw [hstream]; exact hreg'⟩
  · intro p r' a hp
    have hp' : (t.sys.pods.set st.pod (r.removeLocal st.agentId i).2)[p]? = some r' := by
      rw [← hp, ← he]
      rfl
    have hlast : lastAdded ⟨t.sys.after i st e, t.added⟩ p a = t.lastAdded p a :=
      lastAdded_congr (fun j _ => hkey j) rfl
    -- at any other key the last connection is another one
    have hother : t.lastAdded p a ≠ some i →
        (t.lastAdded p a).filter (fun j => !removed ⟨t.sys.after i st e, t.added⟩ j) =
          (t.lastAdded p a).filter fun j => !t.removed j := by
      intro hne
      cases hl : t.lastAdded p a with
      | none => rfl
      | some j =>
        have hj : j ≠ i := fun heq => hne (heq ▸ hl)
        rw [Option.filter_some, Option.filter_some, hremoved, if_neg hj]
    rw [hlast]
    rcases List.getElem?_of_set hp' with ⟨hne, hold⟩ | ⟨rfl, rfl⟩
    · rw [hi.table p r' a hold, hother]
      intro hl
      have hkey' := (key_of_lastAdded hl).symm.trans hown
      exact hne (Prod.mk.inj (Option.some.inj hkey')).1
    · have htable := hi.table st.pod r a hr
      by_cases hl : t.lastAdded st.pod a = some i
      · have hkey' := (key_of_lastAdded hl).symm.trans hown
        obtain rfl : a = st.agentId := (Prod.mk.inj (Option.some.inj hkey')).2
        have hget : r.agents.get st.agentId = some i := by
          rw [htable, hl, Option.filter_some, halive]
          rfl
        rw [Registry.removeLocal, if_pos hget, GoMap.get_erase_self, hl, Option.filter_some, hremoved,
          if_pos rfl]
        rfl
      · rw [hother hl, ← htable, Registry.removeLocal]
        split
        · next hget =>
          refine GoMap.get_erase_of_ne _ fun ha => hl ?_
          subst ha
          rw [htable] at hget
          exact (Option.filter_eq_some_iff.mp hget).1
        · rfl
  · intro j st' c hst' hc
    rcases List.getElem?_of_set hst' with ⟨-, hold⟩ | ⟨-, rfl⟩
    · exact (hi.closing j st' c hold hc).congr (fun j _ => hkey j) rfl
    · rw [hstream] at hc
      rcases hnext with rfl | rfl <;> cases hc
  · intro c hc
    have hold : c ∈ t.sys.closed := by
      subst he
      exact hc
    rw [hremoved]
    refine (hi.closed c hold).imp (fun h => Displaced.congr h (fun j _ => hkey j) rfl) fun h => ?_
    split
    · rfl
    · exact h

end Step

theorem Inv.step {l : DirectoryLabel} (hi : t.Inv) (h : t.step l = some u) : u.Inv := by
  obtain ⟨s, hs, rfl⟩ := Option.map_eq_some_iff.mp h
  rcases Directory.step_cases hs with ⟨pod, agentId, rfl, -, rfl⟩ | ⟨i, cl, st, r, e, rfl, hst, hr, he, rfl⟩
  · exact hi.connect pod agentId
  · obtain ⟨-, -, -, hinv, -⟩ := ControlStream.step_cases (hi.streams i st hst) he
    have hreg : st.pc ≠ .recv → st.pc ≠ .done → st.registered = true := by
      intro hrecv hdone
      by_contra hn
      exact (hi.streams i st hst (eq_false_of_ne_true hn)).elim hrecv hdone
    cases ControlStream.step_local he with
    | add redis hnew =>
      have hadds : adds t.sys (.stream i .hello) = [i] := by
        rw [adds, hst, Option.any_some, hnew]
        rfl
      rw [hadds]
      exact hi.add hst hr hnew redis
    | remove redis pc hpc hnext => exact hi.remove hst hr hpc hnext redis
    | closeReplaced redis c hpc =>
      refine hi.keep hst hr rfl rfl rfl hinv id ?_ (fun c h => by cases h) fun c' hc' => .inl ?_
      · rw [ControlStream.removed, ControlStream.removed, hpc]
      · obtain rfl := Option.some.inj hc'
        exact hi.closing i st c hst (by rw [hpc]; rfl)
    | closeAll redis hpc =>
      have hremoved : st.removed = true := by
        rw [ControlStream.removed, hreg (by rw [hpc]; rintro ⟨⟩) (by rw [hpc]; rintro ⟨⟩), hpc]
        rfl
      refine hi.keep hst hr rfl rfl rfl hinv id ?_ (fun c h => by cases h) fun c' hc' => .inr ?_
      · rw [ControlStream.removed, ControlStream.removed, hpc]
      · obtain rfl := Option.some.inj hc'
        rw [removed, hst, Option.any_some, hremoved]
    | move l redis pc hl hcloses hremoved =>
      have hadds : adds t.sys (.stream i cl) = [] := by
        cases cl with
        | hello =>
          rw [adds, hst, Option.any_some, hl rfl]
          rfl
        | heartbeat | recvErr | advance => rfl
      rw [hadds]
      exact hi.keep hst hr rfl rfl rfl hinv id hremoved hcloses fun c hc => by cases hc

theorem inv_of_run {addrs : List String} {redis : Option RedisKeys} {ls : List DirectoryLabel}
    (h : Lts.AnyRun step (init addrs redis) ls t) : t.Inv := by
  refine h.invariant (fun _ _ _ hi _ hs => hi.step hs) ?_
  refine ⟨fun i st h => (by cases h), fun i h => (by cases h), ?_, fun i st c h => (by cases h),
    fun c h => (by cases h)⟩
  intro pod r agentId hr
  obtain ⟨addr, -, rfl⟩ := List.mem_map.mp (List.mem_of_getElem? hr)
  rfl

theorem teardown_keeps {l : ControlLabel} {r : Registry} (hst : t.sys.streams[i]? = some st)
    (hend : st.isOpen = false) (h : t.step (.stream i l) = some u) (hr : t.sys.pods[pod]? = some r)
    (hget : r.agents.get agentId = some c) (hne : c ≠ i) :
    ∃ r', u.sys.pods[pod]? = some r' ∧ r'.agents.get agentId = some c := by
  obtain ⟨s, hs, rfl⟩ := Option.map_eq_some_iff.mp h
  rcases Directory.step_cases hs with ⟨_, _, hl, -, -⟩ | ⟨j, cl, st', r₀, e, hl, hst', hr₀, he, rfl⟩
  · cases hl
  · cases hl
    obtain rfl := Option.some.inj (hst.symm.trans hst')
    rcases List.getElem?_set_of (a := e.registry) hr₀ hr with hkept | ⟨hset, rfl⟩
    · exact ⟨r, hkept, hget⟩
    · refine ⟨e.registry, hset, ?_⟩
      cases ControlStream.step_local he with
      | add redis hnew =>
        simp only [ControlStream.step] at he
        split at he
        · next hpc => rw [ControlStream.isOpen, hpc] at hend; cases hend
        · cases he
      | remove redis pc hpc hnext =>
        rw [Registry.removeLocal]
        split
        · next hown =>
          refine (GoMap.get_erase_of_ne _ fun ha => hne ?_).trans hget
          subst ha
          exact Option.some.inj (hget.symm.trans hown)
        · exact hget
      | closeReplaced | closeAll | move => exact hget

/-- What a replica's map holds, in every state of any streams. -/
theorem local_registry_of_run {addrs : List String} {redis : Option RedisKeys}
    {ls : List DirectoryLabel} (hrun : Lts.AnyRun step (init addrs redis) ls t) :
    (∀ (pod : Nat) r agentId c, t.sys.pods[pod]? = some r → r.agents.get agentId = some c →
        c ∉ t.sys.closed ∧ ∃ st, t.sys.streams[c]? = some st ∧ st.pod = pod ∧
          st.agentId = agentId ∧ st.removed = false) ∧
      (∀ (pod : Nat) r agentId, t.sys.pods[pod]? = some r →
        r.agents.get agentId = (t.lastAdded pod agentId).filter fun i => !t.removed i) ∧
      ∀ (i : Nat) st l u, t.sys.streams[i]? = some st → st.isOpen = false →
        t.step (.stream i l) = some u → ∀ (pod : Nat) r agentId c, t.sys.pods[pod]? = some r →
          r.agents.get agentId = some c → c ≠ i →
          ∃ r', u.sys.pods[pod]? = some r' ∧ r'.agents.get agentId = some c := by
  have hi : t.Inv := inv_of_run hrun
  refine ⟨?_, hi.table, ?_⟩
  · intro pod r agentId c hr hget
    rw [hi.table pod r agentId hr] at hget
    obtain ⟨hlast, halive⟩ := Option.filter_eq_some_iff.mp hget
    have hremoved : t.removed c = false := by simpa using halive
    obtain ⟨st, hst, hkey⟩ := Option.map_eq_some_iff.mp (key_of_lastAdded hlast)
    obtain ⟨hpod, hagent⟩ := Prod.mk.inj hkey
    refine ⟨fun hc => ?_, st, hst, hpod, hagent, ?_⟩
    · rcases hi.closed c hc with hdisplaced | hgone
      · exact hdisplaced.2 pod agentId hlast
      · rw [hremoved] at hgone
        cases hgone
    · rw [removed, hst, Option.any_some] at hremoved
      exact hremoved
  · intro i st l u hst hend hstep pod r agentId c hr hget hne
    exact teardown_keeps hst hend hstep hr hget hne

def reconnect : List DirectoryLabel :=
  [.connect 0 "web-1", .stream 0 .hello, .stream 0 .advance, .connect 0 "web-1", .stream 1 .hello,
    .stream 1 .advance, .stream 1 .advance, .stream 0 .recvErr, .stream 0 .advance,
    .stream 0 .advance]

theorem local_registry_of_run_reconnect : ∃ t r,
    Lts.AnyRun step (init ["10.0.0.1:9443"] none) reconnect t ∧ t.sys.pods[0]? = some r ∧
      t.sys.closed = [0, 0] ∧ r.agents.get "web-1" = some 1 := by
  let t := (Lts.exec step (init ["10.0.0.1:9443"] none) reconnect).get (by decide +kernel)
  have hrun := Lts.anyRun_of_exec (t := t) (Option.some_get _).symm
  let r := (t.sys.pods[0]?).get (by decide +kernel)
  have hr : t.sys.pods[0]? = some r := (Option.some_get _).symm
  have hlast : (t.lastAdded 0 "web-1").filter (fun i => !t.removed i) = some 1 := by decide +kernel
  exact ⟨t, r, hrun, hr, by decide +kernel,
    ((local_registry_of_run hrun).2.1 0 r "web-1" hr).trans hlast⟩

end LocalHistory
end Hostlink.Controller
