import Hostlink.Controller.Registry

/-! Pods that share one Redis: where `locate` points while the Control streams of an agent come
and go. Streams are numbered in the order they were opened. -/

namespace Hostlink.Controller

structure Directory where
  pods : List Registry
  redis : Option RedisKeys
  streams : List ControlStream
  closed : List Nat

inductive DirectoryLabel where
  | connect (pod : Nat) (agentId : String)
  | stream (i : Nat) (l : ControlLabel)

namespace Directory

def after (s : Directory) (i : Nat) (st : ControlStream) (e : ControlStep) : Directory where
  pods := s.pods.set st.pod e.registry
  redis := e.redis
  streams := s.streams.set i e.stream
  closed := e.closed.toList ++ s.closed

def step (s : Directory) : DirectoryLabel → Option Directory
  | .connect pod agentId =>
    if pod < s.pods.length then
      some { s with streams := s.streams ++ [{ pod := pod, agentId := agentId }] }
    else none
  | .stream i l =>
    (s.streams[i]?).bind fun st => (s.pods[st.pod]?).bind fun r =>
      (st.step r s.redis i l).map (s.after i st)

def init (addrs : List String) (redis : RedisKeys) : Directory :=
  ⟨addrs.map fun addr => { selfAddr := addr }, some redis, [], []⟩

def addr (s : Directory) (pod : Nat) : Option String := (s.pods[pod]?).map Registry.selfAddr

def Overtaken (s : Directory) (i : Nat) (st : ControlStream) (p : ControlStream → Bool) : Prop :=
  ∃ j < s.streams.length, i < j ∧ ∃ later ∈ s.streams[j]?,
    later.agentId = st.agentId ∧ later.published = true ∧ p later = true

instance (s : Directory) (i : Nat) (st : ControlStream) (p : ControlStream → Bool) :
    Decidable (Overtaken s i st p) :=
  inferInstanceAs (Decidable (∃ j < s.streams.length, _))

/-- No stream sets the mapping once a later stream of the agent has, and none drops it once a later
stream has set it to the same address. -/
def InTime (s : Directory) : DirectoryLabel → Prop
  | .stream i .advance => ∀ st ∈ s.streams[i]?,
      (st.sets = true → ¬ s.Overtaken i st fun _ => true) ∧
      (st.pc = .drop → ¬ s.Overtaken i st fun later => s.addr later.pod = s.addr st.pod)
  | _ => True

instance (s : Directory) (l : DirectoryLabel) : Decidable (InTime s l) :=
  match l with
  | .stream i .advance => inferInstanceAs (Decidable (∀ st ∈ s.streams[i]?, _ ∧ _))
  | .stream _ .hello | .stream _ .heartbeat | .stream _ .recvErr | .connect _ _ =>
    inferInstanceAs (Decidable True)

theorem step_cases {s t : Directory} {l : DirectoryLabel} (h : s.step l = some t) :
    (∃ pod agentId, l = .connect pod agentId ∧ pod < s.pods.length ∧
      t = { s with streams := s.streams ++ [{ pod := pod, agentId := agentId }] }) ∨
    ∃ i cl st r e, l = .stream i cl ∧ s.streams[i]? = some st ∧ s.pods[st.pod]? = some r ∧
      st.step r s.redis i cl = some e ∧ t = s.after i st e := by
  cases l with
  | connect pod agentId =>
    simp only [step] at h
    split at h
    · next hp => exact .inl ⟨pod, agentId, rfl, hp, (Option.some.inj h).symm⟩
    · cases h
  | stream i cl =>
    obtain ⟨st, hst, h⟩ := Option.bind_eq_some_iff.mp h
    obtain ⟨r, hr, h⟩ := Option.bind_eq_some_iff.mp h
    obtain ⟨e, he, rfl⟩ := Option.map_eq_some_iff.mp h
    exact .inr ⟨i, cl, st, r, e, rfl, hst, hr, he, rfl⟩

/-- The newest published stream of an agent, as long as it is open, has its pod's address in
Redis. -/
structure Inv (s : Directory) : Prop where
  redis : s.redis.isSome = true
  streams : ∀ (i : Nat) (st : ControlStream), s.streams[i]? = some st →
    st.Inv ∧ st.pod < s.pods.length
  newest : ∀ (i : Nat) (st : ControlStream), s.streams[i]? = some st →
    st.published = true → st.isOpen = true → ¬ s.Overtaken i st (fun _ => true) →
      mapping s.redis st.agentId = s.addr st.pod

theorem init_inv (addrs : List String) (redis : RedisKeys) : (init addrs redis).Inv where
  redis := rfl
  streams := fun i st h => by simp [init] at h
  newest := fun i st h => by simp [init] at h

theorem addr_after {s : Directory} {i : Nat} {st : ControlStream} {r : Registry} {e : ControlStep}
    (hr : s.pods[st.pod]? = some r) (ha : e.registry.selfAddr = r.selfAddr) (pod : Nat) :
    (s.after i st e).addr pod = s.addr pod := by
  unfold addr after
  rw [List.getElem?_set]
  split
  · next hp =>
    subst hp
    have hlt : st.pod < s.pods.length := (List.getElem?_eq_some_iff.mp hr).1
    rw [if_pos hlt, hr, Option.map_some, Option.map_some, ha]
  · rfl

theorem Overtaken.after {s : Directory} {i : Nat} {st : ControlStream} {e : ControlStep}
    (hst : s.streams[i]? = some st) (hagent : e.stream.agentId = st.agentId)
    (hpub : st.published = true → e.stream.published = true) {k : Nat} {sk : ControlStream}
    (h : s.Overtaken k sk fun _ => true) : (s.after i st e).Overtaken k sk fun _ => true := by
  obtain ⟨j, hj, hkj, later, hlater, hag, hlp, -⟩ := h
  have hj' : j < (s.after i st e).streams.length := by rwa [Directory.after, List.length_set]
  by_cases hji : j = i
  · subst hji
    obtain rfl : later = st := Option.some.inj (hlater.symm.trans hst)
    exact ⟨j, hj', hkj, e.stream, List.getElem?_set_self hj, hagent.trans hag, hpub hlp, rfl⟩
  · refine ⟨j, hj', hkj, later, ?_, hag, hlp, rfl⟩
    rw [Option.mem_def, Directory.after, List.getElem?_set_ne (Ne.symm hji)]
    exact hlater

theorem connect_inv {s : Directory} {pod : Nat} {agentId : String} (hi : s.Inv)
    (hp : pod < s.pods.length) :
    ({ s with streams := s.streams ++ [{ pod := pod, agentId := agentId }] } : Directory).Inv := by
  have hold : ∀ (i : Nat) (st : ControlStream),
      (s.streams ++ [{ pod := pod, agentId := agentId }])[i]? = some st →
      s.streams[i]? = some st ∨ st = { pod := pod, agentId := agentId } := by
    intro i st h
    rw [List.getElem?_append] at h
    split at h
    · exact .inl h
    · obtain rfl := List.mem_singleton.mp (List.mem_of_getElem? h)
      exact .inr rfl
  refine ⟨hi.redis, fun i st h => ?_, fun i st h hpub hopen hnew => ?_⟩
  · obtain hs | rfl := hold i st h
    · exact hi.streams i st hs
    · exact ⟨fun _ => .inl rfl, hp⟩
  · obtain hs | rfl := hold i st h
    · refine hi.newest i st hs hpub hopen ?_
      rintro ⟨j, hj, hij, later, hlater, hrest⟩
      refine hnew ⟨j, by simp; omega, hij, later, ?_, hrest⟩
      rw [Option.mem_def, List.getElem?_append_left hj]
      exact hlater
    · cases hpub

section Stream
variable {s : Directory} {i : Nat} {l : ControlLabel} {st : ControlStream} {r : Registry}
  {e : ControlStep}

theorem newest_own (hi : s.Inv) (hst : s.streams[i]? = some st) (hr : s.pods[st.pod]? = some r)
    (h : st.step r s.redis i l = some e) (hpub : e.stream.published = true)
    (hopen : e.stream.isOpen = true) (hnew : ¬ s.Overtaken i st fun _ => true) :
    mapping e.redis st.agentId = s.addr st.pod := by
  obtain ⟨-, -, -, -, heff⟩ := ControlStream.step_cases (hi.streams i st hst).1 h
  obtain ⟨he, hpe, hop⟩ | ⟨-, -, he, -⟩ | ⟨-, -, -, -, -, hclosed⟩ := heff
  · rw [he]
    exact hi.newest i st hst (hpe ▸ hpub) (hop hopen) hnew
  · rw [he, mapping_writeMapping_self hi.redis, addr, hr, Option.map_some]
  · rw [hclosed] at hopen
    cases hopen

theorem newest_other (hi : s.Inv) (hok : InTime s (.stream i l)) (hst : s.streams[i]? = some st)
    (hr : s.pods[st.pod]? = some r) (h : st.step r s.redis i l = some e) {k : Nat}
    {sk : ControlStream} (hki : k ≠ i) (hk : s.streams[k]? = some sk) (hpub : sk.published = true)
    (hold : mapping s.redis sk.agentId = s.addr sk.pod)
    (hnew : ¬ (s.after i st e).Overtaken k sk fun _ => true) :
    mapping e.redis sk.agentId = mapping s.redis sk.agentId := by
  obtain ⟨-, -, hagent, -, heff⟩ := ControlStream.step_cases (hi.streams i st hst).1 h
  have hlt : i < s.streams.length := (List.getElem?_eq_some_iff.mp hst).1
  have hklt : k < s.streams.length := (List.getElem?_eq_some_iff.mp hk).1
  -- a stream of the same agent that writes is an older one
  have holder : e.stream.published = true → sk.agentId = st.agentId → i < k := by
    intro hpe hag
    by_contra hnot
    refine hnew ⟨i, ?_, by omega, e.stream, List.getElem?_set_self hlt, hagent.trans hag.symm, hpe,
      rfl⟩
    rwa [after, List.length_set]
  obtain ⟨he, -⟩ | ⟨rfl, hsets, he, hpe⟩ | ⟨rfl, hdrop, he, -, hpe, -⟩ := heff
  · rw [he]
  · have hne : sk.agentId ≠ st.agentId := by
      intro hag
      exact (hok st hst).1 hsets ⟨k, hklt, holder hpe hag, sk, hk, hag, hpub, rfl⟩
    rw [he, mapping_writeMapping_of_ne hne]
  · rw [he]
    refine mapping_dropMapping fun hag hmap => ?_
    refine (hok st hst).2 hdrop ⟨k, hklt, holder hpe hag, sk, hk, hag, hpub, ?_⟩
    rw [decide_eq_true_eq, ← hold, hag, hmap, addr, hr, Option.map_some]

theorem stream_inv (hi : s.Inv) (hok : InTime s (.stream i l)) (hst : s.streams[i]? = some st)
    (hr : s.pods[st.pod]? = some r) (h : st.step r s.redis i l = some e) :
    (s.after i st e).Inv := by
  obtain ⟨hsti, hpod⟩ := hi.streams i st hst
  obtain ⟨haddr, hepod, hagent, heinv, heff⟩ := ControlStream.step_cases hsti h
  have hlt : i < s.streams.length := (List.getElem?_eq_some_iff.mp hst).1
  have hself : (s.after i st e).streams[i]? = some e.stream := List.getElem?_set_self hlt
  have hpubs : st.published = true → e.stream.published = true := by
    intro hp
    obtain ⟨-, hpe, -⟩ | ⟨-, -, -, hpe⟩ | ⟨-, -, -, -, hpe, -⟩ := heff
    · rw [hpe, hp]
    · exact hpe
    · exact hpe
  have hredis : e.redis.isSome = true := by
    obtain ⟨he, -⟩ | ⟨-, -, he, -⟩ | ⟨-, -, he, -⟩ := heff
    · rw [he, hi.redis]
    · rw [he, Registry.writeMapping, Option.isSome_map, hi.redis]
    · rw [he, Registry.dropMapping, Option.isSome_map, hi.redis]
  refine ⟨hredis, fun k sk hk => ?_, fun k sk hk hpub hopen hnew => ?_⟩
  · rw [after, List.length_set]
    by_cases hki : k = i
    · subst hki
      obtain rfl := Option.some.inj (hself.symm.trans hk)
      exact ⟨heinv, hepod ▸ hpod⟩
    · exact hi.streams k sk (by rwa [after, List.getElem?_set_ne (Ne.symm hki)] at hk)
  · rw [addr_after hr haddr]
    by_cases hki : k = i
    · subst hki
      obtain rfl := Option.some.inj (hself.symm.trans hk)
      rw [hagent, hepod]
      refine newest_own hi hst hr h hpub hopen fun ho => hnew ?_
      obtain ⟨j, hj, hkj, later, hlater, hag, hrest⟩ := ho.after hst hagent hpubs
      exact ⟨j, hj, hkj, later, hlater, hag.trans hagent.symm, hrest⟩
    · rw [after, List.getElem?_set_ne (Ne.symm hki)] at hk
      have hold := hi.newest k sk hk hpub hopen fun ho => hnew (ho.after hst hagent hpubs)
      exact (newest_other hi hok hst hr h hki hk hpub hold hnew).trans hold

end Stream

theorem step_inv {s t : Directory} {l : DirectoryLabel} (hi : s.Inv) (hok : InTime s l)
    (h : s.step l = some t) : t.Inv := by
  obtain ⟨pod, agentId, rfl, hp, rfl⟩ | ⟨i, cl, st, r, e, rfl, hst, hr, he, rfl⟩ := step_cases h
  · exact connect_inv hi hp
  · exact stream_inv hi hok hst hr he

/-- The latest stream of an agent, once its `add` is complete and as long as it is open, is where
`locate` points. -/
theorem locate_latest_of_run {addrs : List String} {redis : RedisKeys} {ls : List DirectoryLabel}
    {s : Directory} (h : Lts.Run step InTime (init addrs redis) ls s) {i : Nat} {st : ControlStream}
    (hst : s.streams[i]? = some st)
    (hlatest : ∀ j later, s.streams[j]? = some later → i < j → later.agentId ≠ st.agentId)
    (hadded : st.published = true) (hopen : st.isOpen = true) :
    s.addr st.pod = some (locate s.redis st.agentId) := by
  have hi : s.Inv := h.invariant (fun _ _ _ hi hok hs => step_inv hi hok hs) (init_inv addrs redis)
  -- the latest stream is not overtaken
  have hmap := hi.newest i st hst hadded hopen (by
    rintro ⟨j, -, hij, later, hlater, hag, -⟩
    exact hlatest j later hlater hij hag)
  have hsome : (s.addr st.pod).isSome = true := by
    rw [addr, Option.isSome_map, List.getElem?_eq_getElem (hi.streams i st hst).2, Option.isSome_some]
  obtain ⟨a, ha⟩ := Option.isSome_iff_exists.mp hsome
  rw [locate, hmap, ha, Option.getD_some]

def reconnect : List DirectoryLabel :=
  [.connect 0 "a", .stream 0 .hello, .stream 0 .advance, .connect 1 "a", .stream 1 .hello,
    .stream 1 .advance, .stream 0 .recvErr, .stream 0 .advance, .stream 0 .advance,
    .stream 0 .advance]

theorem locate_latest_of_run_reconnect : ∃ s st,
    Lts.Run step InTime (init ["pod-1", "pod-2"] .empty) reconnect s ∧
      s.streams.map ControlStream.pc = [.done, .recv] ∧ s.streams[1]? = some st ∧
      s.addr st.pod = some (locate s.redis st.agentId) ∧ locate s.redis "a" = "pod-2" := by
  let s := (Lts.execOk step InTime (init ["pod-1", "pod-2"] .empty) reconnect).get
    (by decide +kernel)
  let st := (s.streams[1]?).get (by decide +kernel)
  have hrun := Lts.run_of_execOk (t := s) (Option.some_get _).symm
  have hst : s.streams[1]? = some st := (Option.some_get _).symm
  have hlen : s.streams.length = 2 := by decide +kernel
  have hlatest : ∀ j later, s.streams[j]? = some later → 1 < j → later.agentId ≠ st.agentId := by
    intro j later hj h1
    have hlt := (List.getElem?_eq_some_iff.mp hj).1
    omega
  exact ⟨s, st, hrun, by decide +kernel, hst,
    locate_latest_of_run hrun hst hlatest (by decide +kernel) (by decide +kernel),
    by decide +kernel⟩

/-- The agent reconnects to the same pod between the two steps of the old stream's `remove`: the
compare-and-delete takes the new stream's mapping for the old one. -/
theorem teardown_drops_new_mapping : ∃ s,
    Lts.AnyRun step (init ["pod-1"] .empty)
      [.connect 0 "a", .stream 0 .hello, .stream 0 .advance, .connect 0 "a", .stream 0 .recvErr,
        .stream 0 .advance, .stream 1 .hello, .stream 1 .advance, .stream 0 .advance,
        .stream 0 .advance] s ∧
      s.streams = [⟨0, "a", true, .done⟩, ⟨0, "a", true, .recv⟩] ∧
      s.addr 0 = some "pod-1" ∧ locate s.redis "a" = "" := by
  let s := (Lts.exec step (init ["pod-1"] .empty)
    [.connect 0 "a", .stream 0 .hello, .stream 0 .advance, .connect 0 "a", .stream 0 .recvErr,
      .stream 0 .advance, .stream 1 .hello, .stream 1 .advance, .stream 0 .advance,
      .stream 0 .advance]).get (by decide +kernel)
  exact ⟨s, Lts.anyRun_of_exec (Option.some_get _).symm, by decide +kernel, by decide +kernel,
    by decide +kernel⟩

end Directory
end Hostlink.Controller
