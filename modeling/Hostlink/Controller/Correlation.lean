import Hostlink.Controller.AgentConnCases

/-! Whom a reply reaches: `Change` says what any step of an `agentConn` can do to its numbering,
its maps and its deliveries; that a reply only reaches a request made under its id follows. -/

namespace Hostlink.Controller.AgentConn
variable {π : Type}

def ids (c : AgentConn π) : List Nat := c.calls.map Call.id

def HasId (c : AgentConn π) (d : Nat) (id : String) : Prop :=
  ∃ n, c.ids[d]? = some n ∧ Strconv.formatUint n = id

theorem HasId.grows {c c' : AgentConn π} {d : Nat} {id : String} (h : c.HasId d id)
    (hg : c.ids <+: c'.ids) : c'.HasId d id := by
  obtain ⟨n, hn, hid⟩ := h
  obtain ⟨rest, hr⟩ := hg
  refine ⟨n, ?_, hid⟩
  rw [← hr]
  exact List.getElem?_append_of hn rest

theorem hasId_of_call {c : AgentConn π} {d : Nat} {call : Call π} (h : c.calls[d]? = some call) :
    c.HasId d call.requestId :=
  ⟨call.id, by rw [ids, List.getElem?_map, h, Option.map_some], rfl⟩

structure Change (c c' : AgentConn π) (incoming : Option (Reply π)) : Prop where
  ids : c.ids <+: c'.ids
  pending : ∀ (id : String) (d : Nat), c'.pending.get id = some d →
    c.pending.get id = some d ∨ c'.HasId d id
  pendingStream : ∀ (id : String) (d : Nat), c'.pendingStream.get id = some d →
    c.pendingStream.get id = some d ∨ c'.HasId d id
  delivery : c'.delivery.target = none ∨ c'.delivery = c.delivery ∨
    ∃ d r, incoming = some r ∧ c'.delivery.target = some (d, r) ∧
      (c.pending.get r.requestId = some d ∨ c.pendingStream.get r.requestId = some d)
  delivered : c'.delivered = c.delivered ∨
    ∃ x, c.delivery.target = some x ∧ c'.delivered = c.delivered ++ [x]

section Step
variable {c c' : AgentConn π} {d : Nat} {call call' : Call π}

theorem ids_setCall (h : c.calls[d]? = some call) (hid : call'.id = call.id) :
    (c.setCall d call').ids = c.ids :=
  List.map_set_of_eq h hid

theorem isPrefix_of_ids_eq (h : c'.ids = c.ids) : c.ids <+: c'.ids :=
  ⟨[], by rw [List.append_nil, h]⟩

theorem Change.refl (c : AgentConn π) (incoming : Option (Reply π)) : c.Change c incoming :=
  ⟨List.prefix_rfl, fun _ _ h => .inl h, fun _ _ h => .inl h, .inr (.inl rfl), .inl rfl⟩

theorem callStep_ids {l : CallLabel} {out : Option Command} (hcall : c.calls[d]? = some call)
    (h : CallStep c d call l c' out) : c'.ids = c.ids := by
  obtain ⟨-, call', hcalls, hid, -⟩ := h.set hcall
  rw [ids, hcalls]
  exact List.map_set_of_eq hcall hid

theorem callStep_change {l : CallLabel} {out : Option Command} (hcall : c.calls[d]? = some call)
    (h : CallStep c d call l c' out) : c.Change c' none := by
  have hids : c.ids <+: c'.ids := isPrefix_of_ids_eq (callStep_ids hcall h)
  have hown : c'.HasId d call.requestId := (hasId_of_call hcall).grows hids
  have hnew : ∀ (m : GoMap String Nat) (id : String) (e : Nat),
      (m.insert call.requestId d).get id = some e → m.get id = some e ∨ c'.HasId e id := by
    intro m id e he
    rcases GoMap.get_of_get_insert he with ⟨rfl, rfl⟩ | hold
    · exact .inr hown
    · exact .inl hold
  cases h with
  | registered => exact ⟨hids, hnew _, fun _ _ h => .inl h, .inr (.inl rfl), .inl rfl⟩
  | registeredStream => exact ⟨hids, fun _ _ h => .inl h, hnew _, .inr (.inl rfl), .inl rfl⟩
  | unregistered =>
    exact ⟨hids, fun _ _ h => .inl (GoMap.get_of_get_erase h), fun _ _ h => .inl h,
      .inr (.inl rfl), .inl rfl⟩
  | cancelLive =>
    exact ⟨hids, fun _ _ h => .inl h, fun _ _ h => .inl (GoMap.get_of_get_erase h),
      .inr (.inl rfl), .inl rfl⟩
  | refused | sent | chunk | await | ctxDone | tookResult | tookClosed | tookFrame | cancelGone
  | cancelClosed | cancelSent =>
    exact ⟨hids, fun _ _ h => .inl h, fun _ _ h => .inl h, .inr (.inl rfl), .inl rfl⟩

theorem callStep_request {l : CallLabel} {out : Option Command} (hcall : c.calls[d]? = some call)
    (h : CallStep c d call l c' out) {id : String} {kind : CallKind} {e : Nat}
    (hout : out = some (.request id kind e)) : c.HasId e id := by
  cases h with
  | sent err =>
    split at hout
    · cases hout
      exact hasId_of_call hcall
    · cases hout
  | chunk last err => split at hout <;> cases hout
  | cancelSent failed err => split at hout <;> cases hout
  | refused | registered | registeredStream | await | ctxDone | tookResult | tookClosed | tookFrame
  | unregistered | cancelLive | cancelGone | cancelClosed => cases hout

theorem ids_closeAll (c : AgentConn π) : c.closeAll.ids = c.ids := by
  refine List.ext_getElem? fun d => ?_
  rw [ids, ids, closeAll, List.getElem?_map, List.getElem?_map, List.getElem?_mapIdx]
  cases c.calls[d]? with
  | none => rfl
  | some call =>
    simp only [Option.map_some]
    split <;> rfl

theorem closeAll_change (c : AgentConn π) : c.Change c.closeAll none :=
  ⟨isPrefix_of_ids_eq (ids_closeAll c), fun _ _ h => (by cases h), fun _ _ h => (by cases h),
    .inr (.inl rfl), .inl rfl⟩

def Counts : ConnLabel π → Bool
  | .start _ | .call _ (.cancelSend _) => true
  | _ => false

def incoming : ConnLabel π → Option (Reply π)
  | .receive r => some r
  | _ => none

theorem deliveryStep_change {l : ConnLabel π} (h : DeliveryStep c l c') :
    c.Change c' (incoming l) ∧ c'.ids = c.ids ∧ c'.seq = c.seq := by
  cases h with
  | result id body d _ _ hd =>
    exact ⟨⟨List.prefix_rfl, fun _ _ h => .inl (GoMap.get_of_get_erase h), fun _ _ h => .inl h,
      .inr (.inr ⟨d, .result id body, rfl, rfl, .inl hd⟩), .inl rfl⟩, rfl, rfl⟩
  | terminal id body d _ hd =>
    exact ⟨⟨List.prefix_rfl, fun _ _ h => .inl h, fun _ _ h => .inl (GoMap.get_of_get_erase h),
      .inr (.inr ⟨d, .result id body, rfl, rfl, .inr hd⟩), .inl rfl⟩, rfl, rfl⟩
  | progress id body d dl _ hd hdl =>
    have htarget : dl.target = some (d, .progress id body) := by
      rcases hdl with rfl | ⟨rfl, -⟩
      · rfl
      · rfl
    exact ⟨⟨List.prefix_rfl, fun _ _ h => .inl h, fun _ _ h => .inl h,
      .inr (.inr ⟨d, .progress id body, rfl, htarget, .inr hd⟩), .inl rfl⟩, rfl, rfl⟩
  | unknown => exact ⟨.refl c _, rfl, rfl⟩
  | putResult d r call hd hcall =>
    have hids : (c.setCall d { call with inbox := some r }).ids = c.ids := ids_setCall hcall rfl
    exact ⟨⟨isPrefix_of_ids_eq hids, fun _ _ h => .inl h, fun _ _ h => .inl h, .inl rfl,
      .inr ⟨(d, r), by rw [hd]; rfl, rfl⟩⟩, hids, rfl⟩
  | putFrame d r call hd hcall =>
    have hids : (c.setCall d { call with frames := call.frames ++ [r] }).ids = c.ids :=
      ids_setCall hcall rfl
    have htarget : c.delivery.target = some (d, r) := by
      rcases hd with hd | hd
      · rw [hd]
        rfl
      · rw [hd]
        rfl
    exact ⟨⟨isPrefix_of_ids_eq hids, fun _ _ h => .inl h, fun _ _ h => .inl h, .inl rfl,
      .inr ⟨(d, r), htarget, rfl⟩⟩, hids, rfl⟩
  | dropped =>
    exact ⟨⟨List.prefix_rfl, fun _ _ h => .inl h, fun _ _ h => .inl h, .inl rfl, .inl rfl⟩, rfl, rfl⟩

theorem step_change {l : ConnLabel π} {r : AgentConn π × Option Command}
    (hr : c.step l = some r) :
    c.Change r.1 (incoming l) ∧ (∀ id kind e, r.2 = some (.request id kind e) → c.HasId e id) ∧
      ((r.1.ids = c.ids ∧ r.1.seq = c.seq) ∨
        Counts l = true ∧ r.1.seq = c.nextSeq ∧
          (r.1.ids = c.ids ∨ r.1.ids = c.ids ++ [c.nextSeq])) := by
  obtain ⟨c', out⟩ := r
  cases step_cases hr with
  | start kind =>
    have hids : ({ c with
        seq := c.nextSeq
        calls := c.calls ++ [{ kind := kind, id := c.nextSeq }] } : AgentConn π).ids =
        c.ids ++ [c.nextSeq] := by simp [ids]
    refine ⟨?_, nofun, .inr ⟨rfl, rfl, .inr hids⟩⟩
    exact ⟨hids ▸ List.prefix_append _ _, fun _ _ h => .inl h, fun _ _ h => .inl h,
      .inr (.inl rfl), .inl rfl⟩
  | call d call l c' out hcall h =>
    have hids := callStep_ids hcall h
    refine ⟨callStep_change hcall h, fun _ _ _ hout => callStep_request hcall h hout, ?_⟩
    cases h with
    | cancelSent failed err hpc => exact .inr ⟨rfl, rfl, .inl hids⟩
    | refused | registered | registeredStream | sent | chunk | await | ctxDone | tookResult
    | tookClosed | tookFrame | unregistered | cancelLive | cancelGone | cancelClosed =>
      exact .inl ⟨hids, rfl⟩
  | delivery l c' h =>
    obtain ⟨hchange, hsame⟩ := deliveryStep_change h
    exact ⟨hchange, nofun, .inl hsame⟩
  | closeAll => exact ⟨closeAll_change c, nofun, .inl ⟨ids_closeAll c, rfl⟩⟩
  | closeDone d call hcall =>
    have hids : (c.setCall d { call with done := true }).ids = c.ids := ids_setCall hcall rfl
    refine ⟨?_, nofun, .inl ⟨hids, rfl⟩⟩
    exact ⟨isPrefix_of_ids_eq hids, fun _ _ h => .inl h, fun _ _ h => .inl h, .inr (.inl rfl),
      .inl rfl⟩

structure Inv (c : AgentConn π) : Prop where
  pending : ∀ (id : String) (d : Nat), c.pending.get id = some d → c.HasId d id
  pendingStream : ∀ (id : String) (d : Nat), c.pendingStream.get id = some d → c.HasId d id
  delivery : ∀ (d : Nat) (r : Reply π), c.delivery.target = some (d, r) → c.HasId d r.requestId
  delivered : ∀ (d : Nat) (r : Reply π), (d, r) ∈ c.delivered → c.HasId d r.requestId

theorem init_inv (agentId : String) : (newAgentConn agentId : AgentConn π).Inv where
  pending := fun _ _ h => by cases h
  pendingStream := fun _ _ h => by cases h
  delivery := fun _ _ h => by cases h
  delivered := fun _ _ h => by cases h

theorem Inv.change {i : Option (Reply π)} (hi : c.Inv) (h : c.Change c' i) : c'.Inv := by
  constructor
  · intro id d hd
    exact (h.pending id d hd).elim (fun hd => (hi.pending id d hd).grows h.ids) fun hd => hd
  · intro id d hd
    exact (h.pendingStream id d hd).elim (fun hd => (hi.pendingStream id d hd).grows h.ids)
      fun hd => hd
  · intro d r hd
    obtain hn | he | ⟨d', r', -, ht, hfound⟩ := h.delivery
    · rw [hn] at hd
      cases hd
    · rw [he] at hd
      exact (hi.delivery d r hd).grows h.ids
    · obtain ⟨rfl, rfl⟩ := Prod.mk.inj (Option.some.inj (ht.symm.trans hd))
      exact (hfound.elim (hi.pending _ _) (hi.pendingStream _ _)).grows h.ids
  · intro d r hd
    obtain he | ⟨x, hx, he⟩ := h.delivered
    · rw [he] at hd
      exact (hi.delivered d r hd).grows h.ids
    · rw [he, List.mem_append, List.mem_singleton] at hd
      obtain hd | rfl := hd
      · exact (hi.delivered d r hd).grows h.ids
      · exact (hi.delivery d r hx).grows h.ids

def Carries (c : AgentConn π) (r : Reply π) : Prop :=
  (∃ d, c.delivery.target = some (d, r)) ∨ ∃ d, (d, r) ∈ c.delivered

theorem not_carries_init (agentId : String) (r : Reply π) :
    ¬(newAgentConn agentId : AgentConn π).Carries r := by
  rintro (⟨d, hd⟩ | ⟨d, hd⟩) <;> cases hd

theorem Change.carries {i : Option (Reply π)} (h : c.Change c' i) {r : Reply π}
    (hr : c'.Carries r) : c.Carries r ∨ i = some r := by
  obtain ⟨d, hd⟩ | ⟨d, hd⟩ := hr
  · obtain hn | he | ⟨d', r', hi, ht, -⟩ := h.delivery
    · rw [hn] at hd
      cases hd
    · exact .inl (.inl ⟨d, he ▸ hd⟩)
    · obtain ⟨-, rfl⟩ := Prod.mk.inj (Option.some.inj (ht.symm.trans hd))
      exact .inr hi
  · obtain he | ⟨x, hx, he⟩ := h.delivered
    · exact .inl (.inr ⟨d, he ▸ hd⟩)
    · rw [he, List.mem_append, List.mem_singleton] at hd
      obtain hd | rfl := hd
      · exact .inl (.inr ⟨d, hd⟩)
      · exact .inl (.inl ⟨d, hx⟩)

/-! ### Numbers are not reused -/

structure Numbered (c : AgentConn π) : Prop where
  sorted : c.ids.Pairwise (· < ·)
  bounded : ∀ n ∈ c.ids, n ≤ c.seq

theorem init_numbered (agentId : String) : (newAgentConn agentId : AgentConn π).Numbered :=
  ⟨.nil, fun _ h => by cases h⟩

theorem step_numbered {l : ConnLabel π} {r : AgentConn π × Option Command} (hn : c.Numbered)
    (hseq : Counts l = true → c.seq + 1 < UInt64.size) (hr : c.step l = some r) :
    r.1.Numbered := by
  obtain ⟨-, -, ⟨hids, hsame⟩ | ⟨hl, hnext, hids⟩⟩ := step_change hr
  · exact ⟨hids ▸ hn.sorted, by rw [hids, hsame]; exact hn.bounded⟩
  -- without a wrap-around the new number is larger than all before
  · have hval : c.nextSeq = c.seq + 1 := Nat.mod_eq_of_lt (hseq hl)
    rw [hval] at hnext hids
    obtain hids | hids := hids
    · refine ⟨hids ▸ hn.sorted, fun n hmem => ?_⟩
      rw [hids] at hmem
      have := hn.bounded n hmem
      omega
    · constructor
      · rw [hids, List.pairwise_append]
        refine ⟨hn.sorted, List.pairwise_singleton _ _, fun n hmem m hm => ?_⟩
        have := hn.bounded n hmem
        rw [List.mem_singleton] at hm
        omega
      · intro n hmem
        rw [hids, List.mem_append, List.mem_singleton] at hmem
        obtain hmem | rfl := hmem
        · have := hn.bounded n hmem
          omega
        · omega

theorem HasId.inj (hn : c.Numbered) {d e : Nat} {id : String} (hd : c.HasId d id)
    (he : c.HasId e id) : d = e := by
  obtain ⟨n, hdn, rfl⟩ := hd
  obtain ⟨m, hem, hm⟩ := he
  obtain rfl := Strconv.formatUint_injective hm
  have hnodup : c.ids.Nodup := hn.sorted.imp Nat.ne_of_lt
  exact (List.getElem?_inj (List.getElem?_eq_some_iff.mp hdn).1 hnodup).mp (hdn.trans hem.symm)

end Step

end Hostlink.Controller.AgentConn
