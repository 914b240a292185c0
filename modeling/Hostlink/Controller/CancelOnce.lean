import Hostlink.Controller.CancelCalls

/-! At most one `request.cancel` for a stream. A call of `cancel` that is going to send is counted with
the commands sent: only the call that finds the registration under the lock adds to the sum, and the
registration is there for one call at most. -/

namespace Hostlink.Controller
variable {π : Type}

def LockedFirst (log : List CancelEvent) (d : Nat) : Prop :=
  .locked d ∈ log ∧ ∀ before after, log = before ++ .locked d :: after → .locked d ∉ before →
    .closedAll ∉ before

theorem LockedFirst.append {log : List CancelEvent} {d : Nat} (h : LockedFirst log d)
    (more : List CancelEvent) : LockedFirst (log ++ more) d := by
  refine ⟨List.mem_append_left _ h.1, fun before after hsplit hfirst => ?_⟩
  rcases List.append_eq_append_iff.mp hsplit with ⟨as, rfl, -⟩ | ⟨bs, rfl, hbs⟩
  · exact absurd (List.mem_append_left _ h.1) hfirst
  · rcases List.cons_eq_append_iff.mp hbs with ⟨rfl, -⟩ | ⟨cs, rfl, -⟩
    · rw [List.append_nil] at h
      exact absurd h.1 hfirst
    · exact h.2 before cs rfl hfirst

def CancelCall.claims (d : Nat) (x : CancelCall) : Bool :=
  x.d = d && match x.pc with
    | .close live closed => live && !closed
    | .send => true
    | .lock | .returned => false

theorem CancelCall.claims_close {d e : Nat} {live closed : Bool} :
    CancelCall.claims e { d := d, pc := .close live closed } = true ↔
      d = e ∧ live = true ∧ closed = false := by
  simp [CancelCall.claims]

namespace CancelConn

def claims (s : CancelConn π) (d : Nat) : Nat :=
  s.cancels.countP (·.claims d) + s.log.countP (·.isSent d)

def settled (s : CancelConn π) (d : Nat) : Prop := .locked d ∈ s.log ∨ .taken d ∈ s.log

def Done (s : CancelConn π) (d : Nat) : Prop :=
  ∃ call, s.shared.conn.calls[d]? = some call ∧ call.done = true

def Named (s : CancelConn π) (d : Nat) (target : String) : Prop :=
  ∃ call, s.shared.conn.calls[d]? = some call ∧ call.requestId = target

structure CallOk (s : CancelConn π) (x : CancelCall) : Prop where
  running : ∃ call, s.shared.conn.calls[x.d]? = some call ∧ (call.pc = .consume ∨ call.pc = .cancel)
  locked : x.pc ≠ .lock → .locked x.d ∈ s.log
  done : x.pc = .send → s.Done x.d

structure Inv (s : CancelConn π) : Prop where
  idle : s.shared.conn.delivery = .idle
  accounted : s.shared.conn.Accounted s.settled
  closed : .closedAll ∈ s.log → s.shared.conn.closed = true
  calls : ∀ x ∈ s.cancels, s.CallOk x
  returned : ∀ d, .returned d ∈ s.log → .locked d ∈ s.log ∧ s.Done d
  names : ∀ d id target, .sent d id target ∈ s.log → s.Named d target
  claimed : ∀ d, 0 < s.claims d → s.claims d = 1 ∧ .taken d ∉ s.log ∧ LockedFirst s.log d
  received : s.shared.conn.Received
  results : ∀ d r, r.isResult = true → s.shared.Carries d r → .taken d ∈ s.log

variable {s t : CancelConn π} {d : Nat}

theorem init_inv (agentId : String) : (init agentId : CancelConn π).Inv where
  idle := rfl
  accounted := by
    refine ⟨fun stream id d he => ?_, by rintro d call ⟨⟩, ?_⟩
    · cases stream <;> cases he
    · rintro d (⟨⟨⟩⟩ | ⟨⟨⟩⟩)
  closed := by rintro ⟨⟩
  calls := by rintro x ⟨⟩
  returned := by rintro d ⟨⟩
  names := by rintro d id target ⟨⟩
  claimed := fun d hpos => absurd hpos (Nat.lt_irrefl 0)
  received := by rintro d call ⟨⟩
  results := by
    rintro d r - (⟨dl, hdl, -⟩ | hput)
    · cases hdl
    · cases hput

theorem Done.keeps (h : s.Done d) (hk : s.shared.conn.Keeps t.shared.conn) : t.Done d := by
  obtain ⟨call, hcall, hdone⟩ := h
  obtain ⟨call', hcall', -, hdone', -⟩ := hk d call hcall
  exact ⟨call', hcall', hdone' hdone⟩

theorem Named.keeps {target : String} (h : s.Named d target)
    (hk : s.shared.conn.Keeps t.shared.conn) : t.Named d target := by
  obtain ⟨call, hcall, rfl⟩ := h
  obtain ⟨call', hcall', hid, -⟩ := hk d call hcall
  exact ⟨call', hcall', hid⟩

theorem CallOk.keeps {x : CancelCall} (h : s.CallOk x) (hk : s.shared.conn.Keeps t.shared.conn)
    (hlog : ∀ e ∈ s.log, e ∈ t.log) : t.CallOk x where
  running := by
    obtain ⟨call, hcall, hpc⟩ := h.running
    obtain ⟨call', hcall', -, -, hsame⟩ := hk x.d call hcall
    exact ⟨call', hcall', by rwa [hsame hpc]⟩
  locked := fun hpc => hlog _ (h.locked hpc)
  done := fun hpc => (h.done hpc).keeps hk

theorem claims_set {i : Nat} {x y : CancelCall} {more : List CancelEvent} (hx : s.cancels[i]? = some x)
    (hcancels : t.cancels = s.cancels.set i y) (hlog : t.log = s.log ++ more) (d : Nat) :
    t.claims d + (if x.claims d then 1 else 0) =
      s.claims d + (if y.claims d then 1 else 0) + more.countP (·.isSent d) := by
  obtain ⟨hlt, rfl⟩ := List.getElem?_eq_some_iff.mp hx
  have hone : (if (s.cancels[i]).claims d then 1 else 0) ≤ s.cancels.countP (·.claims d) := by
    split
    · next hp => exact List.countP_pos_iff.mpr ⟨_, List.getElem_mem hlt, hp⟩
    · exact Nat.zero_le _
  rw [claims, claims, hcancels, hlog, List.countP_set hlt, List.countP_append]
  omega

/-- A step after which the log is longer by `more`. What the log said before it still says; what
remains is what the step adds. -/
theorem Inv.advance (hi : s.Inv) (more : List CancelEvent) (hlog : t.log = s.log ++ more)
    (hk : s.shared.conn.Keeps t.shared.conn) (hidle : t.shared.conn.delivery = .idle)
    (haccounted : t.shared.conn.Accounted t.settled)
    (hclosed : s.shared.conn.closed = true ∨ .closedAll ∈ more → t.shared.conn.closed = true)
    (hcalls : ∀ x ∈ t.cancels, x ∈ s.cancels ∨ t.CallOk x)
    (hreturned : ∀ d, .returned d ∈ more → .locked d ∈ s.log ∧ t.Done d)
    (hnames : ∀ d id target, .sent d id target ∈ more → t.Named d target)
    (hclaimed : ∀ d, 0 < t.claims d → t.claims d = 1 ∧
      (0 < s.claims d ∧ .taken d ∉ more ∨ .taken d ∉ t.log ∧ LockedFirst t.log d))
    (hreceived : t.shared.conn.Received)
    (hresults : ∀ d r, r.isResult = true → t.shared.Carries d r →
      s.shared.Carries d r ∨ .taken d ∈ more) : t.Inv := by
  have hsub : ∀ e ∈ s.log, e ∈ t.log := fun e he => hlog ▸ List.mem_append_left more he
  refine ⟨hidle, haccounted, fun he => ?_, fun x hx => ?_, fun d he => ?_, fun d id target he => ?_,
    fun d hpos => ?_, hreceived, fun d r hr hd => ?_⟩
  · rw [hlog] at he
    exact hclosed ((List.mem_append.mp he).imp_left hi.closed)
  · rcases hcalls x hx with hold | hnew
    · exact (hi.calls x hold).keeps hk hsub
    · exact hnew
  · rw [hlog] at he
    rcases List.mem_append.mp he with hold | hnew
    · exact ⟨hsub _ (hi.returned d hold).1, (hi.returned d hold).2.keeps hk⟩
    · exact ⟨hsub _ (hreturned d hnew).1, (hreturned d hnew).2⟩
  · rw [hlog] at he
    rcases List.mem_append.mp he with hold | hnew
    · exact (hi.names d id target hold).keeps hk
    · exact hnames d id target hnew
  · obtain ⟨hone, ⟨hold, hmore⟩ | hnew⟩ := hclaimed d hpos
    · obtain ⟨-, htaken, hfirst⟩ := hi.claimed d hold
      rw [hlog]
      exact ⟨hone, fun he => (List.mem_append.mp he).elim htaken hmore, hfirst.append more⟩
    · exact ⟨hone, hnew⟩
  · rw [hlog]
    rcases hresults d r hr hd with hold | hnew
    · exact List.mem_append_left _ (hi.results d r hr hold)
    · exact List.mem_append_right _ hnew

theorem Inv.claimed_of_eq {more : List CancelEvent} (hi : s.Inv) (hsame : t.claims d = s.claims d)
    (hmore : 0 < s.claims d → .taken d ∉ more) (hpos : 0 < t.claims d) : t.claims d = 1 ∧
      (0 < s.claims d ∧ .taken d ∉ more ∨ .taken d ∉ t.log ∧ LockedFirst t.log d) := by
  rw [hsame] at hpos ⊢
  exact ⟨(hi.claimed d hpos).1, .inl ⟨hpos, hmore hpos⟩⟩

theorem settled_append {more : List CancelEvent} (hlog : t.log = s.log ++ more) :
    t.settled d ↔ s.settled d ∨ .locked d ∈ more ∨ .taken d ∈ more := by
  rw [settled, settled, hlog, List.mem_append, List.mem_append, or_or_or_comm]

/-! ### The steps -/

theorem conn_inv {l : SharedLabel π} {shared : SharedConn π} (hi : s.Inv)
    (hl : cancelling l = false) (h : s.shared.step l = some shared) :
    Inv { s with shared := shared, log := s.log ++ noted s.shared.conn l } := by
  have hcancel : ∀ e, l ≠ .conn (.call e .cancel) := by
    rintro e rfl
    cases hl
  have hidle : shared.conn.delivery = .idle := by
    obtain ⟨dl, F, k, c', out, hf⟩ := SharedConn.step_focus hi.idle h
    rw [hf.conn]
  have hquiet : ∀ d, (noted s.shared.conn l).countP (·.isSent d) = 0 := by
    intro d
    refine List.countP_eq_zero.mpr fun e he => ?_
    rcases noted_cases he with ⟨d', rfl⟩ | ⟨rfl, -⟩
    · exact Bool.false_ne_true
    · exact Bool.false_ne_true
  refine hi.advance _ rfl (SharedConn.step_keeps hi.idle h hcancel) hidle ?_ ?_ (fun x hx => .inl hx)
    (fun d he => ?_) (fun d id target he => ?_) (fun d hpos => ?_)
    (SharedConn.step_received hi.idle h hi.received)
    (fun d r hr hd => SharedConn.carries_step hi.idle h hr hd)
  · refine (SharedConn.accounted_taken hi.accounted h hcancel).of_iff fun e => ?_
    rw [settled_append rfl, or_iff_right locked_notMem_noted]
  · rintro (hold | hnew)
    · exact SharedConn.step_closed hi.idle h hold
    · rcases noted_cases hnew with ⟨d', he⟩ | ⟨-, rfl⟩
      · cases he
      · obtain rfl := Option.some.inj h
        rfl
  · rcases noted_cases he with ⟨d', he⟩ | ⟨he, -⟩
    · cases he
    · cases he
  · rcases noted_cases he with ⟨d', he⟩ | ⟨he, -⟩
    · cases he
    · cases he
  · refine hi.claimed_of_eq ?_ (fun hold htaken => ?_) hpos
    · rw [claims, claims, List.countP_append, hquiet, Nat.add_zero]
    · -- the registration is gone since a `cancel` has held the lock
      exact SharedConn.registration_of_taken hi.accounted htaken (.inl (hi.claimed d hold).2.2.1)

theorem call_inv (hi : s.Inv) {call : Call π} (hcall : s.shared.conn.calls[d]? = some call)
    (hpc : call.pc = .consume ∨ call.pc = .cancel) :
    Inv { s with cancels := s.cancels ++ [{ d := d }] } := by
  refine hi.advance [] (List.append_nil _).symm (.of_calls rfl) hi.idle hi.accounted
    (fun h => h.elim id fun he => absurd he List.not_mem_nil) (fun x hx => ?_)
    (fun d he => absurd he List.not_mem_nil) (fun d id target he => absurd he List.not_mem_nil)
    (fun e hpos => ?_) hi.received fun d r hr hd => .inl hd
  · rcases List.mem_append.mp hx with hold | hnew
    · exact .inl hold
    · rw [List.mem_singleton.mp hnew]
      exact .inr ⟨⟨call, hcall, hpc⟩, fun h => absurd rfl h, by rintro ⟨⟩⟩
  · refine hi.claimed_of_eq ?_ (fun _ => List.not_mem_nil) hpos
    have hfresh : CancelCall.claims e { d := d } = false := Bool.and_false _
    rw [claims, claims, List.countP_append, List.countP_singleton, hfresh]
    rfl

theorem not_claimed_of_unsettled (hi : s.Inv) (h : ¬ s.settled d) : s.claims d = 0 :=
  Nat.eq_zero_of_not_pos fun hpos => h (.inl (hi.claimed d hpos).2.2.1)

theorem lockedFirst_concat {log : List CancelEvent} (h : .closedAll ∉ log) :
    LockedFirst (log ++ [.locked d]) d := by
  refine ⟨List.mem_append_right _ (List.mem_singleton.mpr rfl), fun before after hsplit _ hclosed => ?_⟩
  have hmem : CancelEvent.closedAll ∈ log ++ [.locked d] := by
    rw [hsplit]
    exact List.mem_append_left _ hclosed
  rcases List.mem_append.mp hmem with hold | hnew
  · exact h hold
  · cases List.mem_singleton.mp hnew

theorem accounted_lock (hi : s.Inv) {i : Nat} {call : Call π}
    (hcall : s.shared.conn.calls[d]? = some call) (hpc : call.pc = .consume ∨ call.pc = .cancel) :
    (s.lock i d call).shared.conn.Accounted fun e => s.settled e ∨ e = d := by
  by_cases hlive : s.shared.conn.pendingStream.get call.requestId = some d
  · refine hi.accounted.takeOut true hlive rfl ?_ rfl
    simp only [lock, hlive, decide_true, if_true]
    rfl
  · have hsame : (s.lock i d call).shared.conn = s.shared.conn := by
      simp only [lock, hlive, decide_false, Bool.false_eq_true, if_false]
    rw [hsame]
    refine hi.accounted.leave hcall ?_ fun stream id he => ?_
    · rcases hpc with hpc | hpc
      all_goals
        rw [hpc]
        rintro ⟨⟩
    · obtain ⟨rfl, -, hholds⟩ := hi.accounted.key hcall he
      cases stream with
      | true => exact hlive he
      | false =>
        rcases hpc with hpc | hpc
        all_goals
          rw [hpc] at hholds
          cases hholds

theorem lock_inv (hi : s.Inv) {i : Nat} {call : Call π} (hx : s.cancels[i]? = some { d := d })
    (hcall : s.shared.conn.calls[d]? = some call) : (s.lock i d call).Inv := by
  have hrunning := (hi.calls _ (List.mem_of_getElem? hx)).running
  obtain ⟨call', hcall', hpc⟩ := hrunning
  obtain rfl := Option.some.inj (hcall.symm.trans hcall')
  refine hi.advance [.locked d] rfl (.of_calls rfl) hi.idle ?_ (fun h => ?_) (fun x hx' => ?_)
    (fun e he => by cases List.mem_singleton.mp he)
    (fun e id target he => by cases List.mem_singleton.mp he) (fun e hpos => ?_) hi.received
    fun e r hr hd => .inl hd
  · refine (accounted_lock hi hcall hpc).of_iff fun e => ?_
    rw [settled_append rfl]
    simp
  · rcases h with hold | hnew
    · exact hold
    · cases List.mem_singleton.mp hnew
  · rcases List.mem_or_eq_of_mem_set hx' with hold | rfl
    · exact .inl hold
    · refine .inr ⟨⟨call, hcall, hpc⟩, fun _ => ?_, by rintro ⟨⟩⟩
      exact List.mem_append_right _ (List.mem_singleton.mpr rfl)
  · have hcount := claims_set (t := s.lock i d call) hx rfl rfl e
    have hfresh : CancelCall.claims e { d := d } = false := Bool.and_false _
    have hquiet : [CancelEvent.locked d].countP (·.isSent e) = 0 := rfl
    rw [hfresh, hquiet] at hcount
    by_cases hclaim : d = e ∧ s.shared.conn.pendingStream.get call.requestId = some d ∧
        s.shared.conn.closed = false
    · rw [if_pos (CancelCall.claims_close.mpr ⟨hclaim.1, decide_eq_true hclaim.2.1, hclaim.2.2⟩)] at hcount
      obtain ⟨rfl, hlive, hopen⟩ := hclaim
      have hun : ¬ s.settled d := (hi.accounted.entry true _ d hlive).1
      rw [not_claimed_of_unsettled hi hun] at hcount
      refine ⟨hcount, .inr ⟨fun he => ?_, lockedFirst_concat fun he => ?_⟩⟩
      · rcases List.mem_append.mp he with hold | hnew
        · exact hun (.inr hold)
        · cases List.mem_singleton.mp hnew
      · rw [hi.closed he] at hopen
        cases hopen
    · rw [if_neg fun h => hclaim ((CancelCall.claims_close.mp h).imp_right fun h =>
        ⟨of_decide_eq_true h.1, h.2⟩)] at hcount
      exact hi.claimed_of_eq hcount (fun _ he => by cases List.mem_singleton.mp he) hpos

theorem close_inv (hi : s.Inv) {i : Nat} {call : Call π} {live closed : Bool}
    (hx : s.cancels[i]? = some { d := d, pc := .close live closed })
    (hcall : s.shared.conn.calls[d]? = some call) : (s.close i d call live closed).Inv := by
  have hlt : d < s.shared.conn.calls.length := (List.getElem?_eq_some_iff.mp hcall).1
  have hok := hi.calls _ (List.mem_of_getElem? hx)
  have hlocked : .locked d ∈ s.log := hok.locked (by rintro ⟨⟩)
  have hk : s.shared.conn.Keeps (s.close i d call live closed).shared.conn :=
    .set hcall rfl rfl (fun _ => rfl) fun _ => rfl
  have hdone : (s.close i d call live closed).Done d :=
    ⟨{ call with done := true }, List.getElem?_set_self hlt, rfl⟩
  have hmore : ∀ e ∈ (if !live || closed then [CancelEvent.returned d] else []), e = .returned d := by
    intro e he
    split at he
    · exact List.mem_singleton.mp he
    · cases he
  refine hi.advance _ rfl hk hi.idle ?_ (fun h => ?_) (fun x hx' => ?_) (fun e he => ?_)
    (fun e id target he => by cases hmore _ he) (fun e hpos => ?_) ?_ fun e r hr hd => .inl hd
  · refine AgentConn.Accounted.of_iff (hi.accounted.setCall hcall rfl rfl id fun _ h _ => h) fun e => ?_
    rw [settled_append rfl, or_iff_left]
    rintro (he | he)
    · cases hmore _ he
    · cases hmore _ he
  · exact h.elim id fun he => by cases hmore _ he
  · rcases List.mem_or_eq_of_mem_set hx' with hold | rfl
    · exact .inl hold
    · exact .inr ⟨(hok.keeps hk fun e he => List.mem_append_left _ he).running,
        fun _ => List.mem_append_left _ hlocked, fun _ => hdone⟩
  · cases hmore _ he
    exact ⟨hlocked, hdone⟩
  · have hcount := claims_set (t := s.close i d call live closed) hx rfl rfl e
    have hquiet : (if !live || closed then [CancelEvent.returned d] else []).countP (·.isSent e) = 0 :=
      List.countP_eq_zero.mpr fun x hx => by rw [hmore x hx]; exact Bool.false_ne_true
    have hsame : CancelCall.claims e { d := d, pc := if !live || closed then .returned else .send } =
        CancelCall.claims e { d := d, pc := .close live closed } := by
      cases live <;> cases closed <;> rfl
    rw [hquiet, hsame] at hcount
    exact hi.claimed_of_eq (Nat.add_right_cancel hcount) (fun _ he => by cases hmore _ he) hpos
  · exact AgentConn.Received.setCall hi.received hcall rfl rfl fun _ => id

theorem send_inv (hi : s.Inv) {i : Nat} {call : Call π}
    (hx : s.cancels[i]? = some { d := d, pc := .send })
    (hcall : s.shared.conn.calls[d]? = some call) : (s.send i d call).Inv := by
  have hok := hi.calls _ (List.mem_of_getElem? hx)
  have hlocked : .locked d ∈ s.log := hok.locked (by rintro ⟨⟩)
  refine hi.advance _ rfl (.of_calls rfl) hi.idle ?_ (fun h => ?_) (fun x hx' => ?_) (fun e he => ?_)
    (fun e id target he => ?_) (fun e hpos => ?_) hi.received fun e r hr hd => .inl hd
  · refine AgentConn.Accounted.of_iff (hi.accounted.congr rfl fun _ _ _ he => he) fun e => ?_
    rw [settled_append rfl]
    simp
  · exact h.elim id fun he => by simp at he
  · rcases List.mem_or_eq_of_mem_set hx' with hold | rfl
    · exact .inl hold
    · exact .inr ⟨hok.running, fun _ => List.mem_append_left _ hlocked, by rintro ⟨⟩⟩
  · obtain rfl : e = d := by simpa using he
    exact ⟨hlocked, hok.done rfl⟩
  · obtain ⟨rfl, rfl, rfl⟩ : e = d ∧ _ ∧ target = call.requestId := by simpa using he
    exact ⟨call, hcall, rfl⟩
  · have hcount := claims_set (t := s.send i d call) hx rfl rfl e
    have hclaim : CancelCall.claims e { d := d, pc := .send } = decide (d = e) := Bool.and_true _
    have hreturned : CancelCall.claims e { d := d, pc := .returned } = false := Bool.and_false _
    have hsent : [CancelEvent.sent d (Strconv.formatUint s.shared.conn.nextSeq) call.requestId,
        .returned d].countP (·.isSent e) = if decide (d = e) then 1 else 0 := by
      simp [CancelEvent.isSent, List.countP_cons]
    -- the claim of the call becomes that of the command
    rw [hclaim, hreturned, hsent] at hcount
    exact hi.claimed_of_eq (Nat.add_right_cancel hcount) (fun _ he => by simp at he) hpos

theorem step_inv {l : CancelLabel π} (hi : s.Inv) (h : s.step l = some t) : t.Inv := by
  cases step_cases h with
  | conn l shared hl hstep => exact conn_inv hi hl hstep
  | call d call hcall hpc => exact call_inv hi hcall hpc
  | lock i d call hx hcall => exact lock_inv hi hx hcall
  | close i d call live closed hx hcall => exact close_inv hi hx hcall
  | send i d call hx hcall => exact send_inv hi hx hcall

/-! ### The ids of the commands -/

structure Numbers (s : CancelConn π) : Prop where
  idle : s.shared.conn.delivery = .idle
  numbered : s.shared.conn.Numbered
  own : ∀ d id target, .sent d id target ∈ s.log →
    ∃ n, id = Strconv.formatUint n ∧ n ≤ s.shared.conn.seq ∧ n ∉ s.shared.conn.ids

theorem init_numbers (agentId : String) : (init agentId : CancelConn π).Numbers :=
  ⟨rfl, AgentConn.init_numbered agentId, by rintro d id target ⟨⟩⟩

theorem lt_nextSeq {c : AgentConn π} (h : c.seq + 1 < UInt64.size) : c.seq < c.nextSeq := by
  rw [AgentConn.nextSeq, Nat.mod_eq_of_lt h]
  exact Nat.lt_succ_self _

theorem Numbers.advance (hn : s.Numbers) {more : List CancelEvent} (hlog : t.log = s.log ++ more)
    (hidle : t.shared.conn.delivery = .idle) (hnumbered : t.shared.conn.Numbered)
    (hseq : s.shared.conn.seq ≤ t.shared.conn.seq)
    (hids : ∀ n ∈ t.shared.conn.ids, n ∈ s.shared.conn.ids ∨ s.shared.conn.seq < n)
    (hmore : ∀ d id target, .sent d id target ∈ more →
      ∃ n, id = Strconv.formatUint n ∧ n ≤ t.shared.conn.seq ∧ n ∉ t.shared.conn.ids) :
    t.Numbers := by
  refine ⟨hidle, hnumbered, fun d id target he => ?_⟩
  rw [hlog] at he
  rcases List.mem_append.mp he with hold | hnew
  · obtain ⟨n, hid, hle, hfresh⟩ := hn.own d id target hold
    refine ⟨n, hid, Nat.le_trans hle hseq, fun hmem => ?_⟩
    exact (hids n hmem).elim hfresh (Nat.not_lt_of_le hle)
  · exact hmore d id target hnew

theorem step_numbers {l : CancelLabel π} (hn : s.Numbers)
    (hseq : takesNumber l = true → s.shared.conn.seq + 1 < UInt64.size) (h : s.step l = some t) :
    t.Numbers := by
  have hnone : ∀ d id target, CancelEvent.sent d id target ∈ [] →
      ∃ n, id = Strconv.formatUint n ∧ n ≤ t.shared.conn.seq ∧ n ∉ t.shared.conn.ids :=
    fun _ _ _ he => absurd he List.not_mem_nil
  cases step_cases h with
  | conn l shared hl hstep =>
    obtain ⟨dl, F, k, c', out, hf⟩ := SharedConn.step_focus hn.idle hstep
    have hstart : ({ s.shared.conn with delivery := dl } : AgentConn π).Numbered :=
      ⟨hn.numbered.sorted, hn.numbered.bounded⟩
    have hfits : AgentConn.Counts k = true → s.shared.conn.seq + 1 < UInt64.size :=
      fun hk => hseq (hf.counts.symm.trans hk)
    have hnext := AgentConn.step_numbered hstart hfits hf.step
    have hgrows : s.shared.conn.seq ≤ c'.seq ∧
        ∀ n ∈ c'.ids, n ∈ s.shared.conn.ids ∨ s.shared.conn.seq < n := by
      obtain ⟨-, -, ⟨hids, hsame⟩ | ⟨hk, hval, hids⟩⟩ := AgentConn.step_change hf.step
      · exact ⟨Nat.le_of_eq hsame.symm, fun n hmem => .inl (hids ▸ hmem)⟩
      · have hlt : s.shared.conn.seq < s.shared.conn.nextSeq := lt_nextSeq (hfits hk)
        refine ⟨Nat.le_of_lt (hval ▸ hlt), fun n hmem => ?_⟩
        rcases hids with hids | hids
        · exact .inl (hids ▸ hmem)
        · dsimp only at hmem hids
          rw [hids] at hmem
          rcases List.mem_append.mp hmem with hold | hnew
          · exact .inl hold
          · rw [List.mem_singleton.mp hnew]
            exact .inr hlt
    refine hn.advance rfl (by rw [hf.conn]) (by rw [hf.conn]; exact ⟨hnext.sorted, hnext.bounded⟩)
      (by rw [hf.conn]; exact hgrows.1) (by rw [hf.conn]; exact hgrows.2) fun d id target he => ?_
    rcases noted_cases he with ⟨d', he⟩ | ⟨he, -⟩
    · cases he
    · cases he
  | call d call hcall hpc => exact ⟨hn.idle, hn.numbered, hn.own⟩
  | lock i d call hx hcall =>
    refine hn.advance rfl hn.idle ⟨hn.numbered.sorted, hn.numbered.bounded⟩ (Nat.le_refl _)
      (fun _ => .inl) fun e id target he => ?_
    cases List.mem_singleton.mp he
  | close i d call live closed hx hcall =>
    have hids : (s.close i d call live closed).shared.conn.ids = s.shared.conn.ids :=
      AgentConn.ids_setCall hcall rfl
    refine hn.advance rfl hn.idle ?_ (Nat.le_refl _) (fun n hmem => .inl (hids ▸ hmem))
      fun e id target he => ?_
    · exact ⟨hids ▸ hn.numbered.sorted, by rw [hids]; exact hn.numbered.bounded⟩
    · split at he
      · cases List.mem_singleton.mp he
      · cases he
  | send i d call hx hcall =>
    have hlt := lt_nextSeq (hseq rfl)
    have hbound : ∀ n ∈ s.shared.conn.ids, n < s.shared.conn.nextSeq :=
      fun n hmem => Nat.lt_of_le_of_lt (hn.numbered.bounded n hmem) hlt
    refine hn.advance rfl hn.idle ⟨hn.numbered.sorted, fun n hmem => Nat.le_of_lt (hbound n hmem)⟩
      (Nat.le_of_lt hlt) (fun _ => .inl) fun e id target he => ?_
    obtain ⟨-, hid, -⟩ : e = d ∧ id = Strconv.formatUint s.shared.conn.nextSeq ∧ _ := by simpa using he
    exact ⟨s.shared.conn.nextSeq, hid, Nat.le_refl _, fun hmem => Nat.lt_irrefl _ (hbound _ hmem)⟩

theorem step_seq {l : CancelLabel π} (hidle : s.shared.conn.delivery = .idle) (h : s.step l = some t) :
    t.shared.conn.seq ≤ s.shared.conn.seq + if takesNumber l then 1 else 0 := by
  cases step_cases h with
  | conn l shared hl hstep => exact SharedConn.step_seq hidle hstep
  | call | lock | close => exact Nat.le_refl _
  | send => exact Nat.mod_le _ _

theorem numbers_of_run {agentId : String} {ls : List (CancelLabel π)}
    (h : Lts.AnyRun step (init agentId) ls s) (hseq : ls.countP takesNumber < UInt64.size) :
    s.Numbers :=
  h.invariant_below (fun _ _ _ hn hl hs => step_numbers hn hl hs)
    (fun _ _ _ hn hs => step_seq hn.idle hs) (init_numbers agentId) rfl hseq

/-! ### One command at most -/

structure CancelledOnce (s : CancelConn π) (d : Nat) : Prop where
  once : s.log.countP (·.isSent d) ≤ 1
  names : ∀ id target, .sent d id target ∈ s.log →
    ∃ call, s.shared.conn.calls[d]? = some call ∧ call.requestId = target
  unlessOver : ∀ before after, s.log = before ++ .locked d :: after → .locked d ∉ before →
    .taken d ∈ before ∨ .closedAll ∈ before → s.log.countP (·.isSent d) = 0
  silent : 0 < s.log.countP (·.isSent d) → ∀ r, r.isResult = true →
    (d, r) ∉ s.shared.conn.delivered ∧ (∀ dl ∈ s.shared.deliveries, dl.target ≠ some (d, r)) ∧
    ∀ call, s.shared.conn.calls[d]? = some call → r ∉ call.frames ∧ r ∉ call.taken
  unblocked : .returned d ∈ s.log → (∀ id, s.shared.conn.pendingStream.get id ≠ some d) ∧
    ∀ (i : Nat) (r : Reply π), s.shared.deliveries[i]? = some (.stream d r) ∨
      s.shared.deliveries[i]? = some (.advisory d r) → (s.step (.conn (.drop i))).isSome = true

def OwnId (s : CancelConn π) (d : Nat) : Prop :=
  ∀ id target, .sent d id target ∈ s.log → s.shared.conn.pending.get id = none ∧
    s.shared.conn.pendingStream.get id = none ∧
    ∀ call ∈ s.shared.conn.calls, call.requestId ≠ id

theorem drop_isSome {i : Nat} {call : Call π} {r : Reply π}
    (hcall : s.shared.conn.calls[d]? = some call) (hdone : call.done = true)
    (hdl : s.shared.deliveries[i]? = some (.stream d r) ∨
      s.shared.deliveries[i]? = some (.advisory d r)) : (s.step (.conn (.drop i))).isSome = true := by
  rcases hdl with hdl | hdl
  · simp [step, cancelling, SharedConn.step, SharedConn.deliver, hdl, AgentConn.step, AgentConn.drop,
      hcall, hdone]
  · simp [step, cancelling, SharedConn.step, SharedConn.deliver, hdl, AgentConn.step, AgentConn.drop,
      hcall, hdone]

theorem Inv.cancelledOnce (hi : s.Inv) (d : Nat) : s.CancelledOnce d := by
  have hclaims : s.log.countP (·.isSent d) ≤ s.claims d := Nat.le_add_left _ _
  have hle : s.claims d ≤ 1 := by
    rcases Nat.eq_zero_or_pos (s.claims d) with hzero | hpos
    · omega
    · exact Nat.le_of_eq (hi.claimed d hpos).1
  refine ⟨Nat.le_trans hclaims hle, hi.names d, fun before after hsplit hfirst hover => ?_,
    fun hsent r hr => ?_, fun hreturned => ⟨fun id he => ?_, fun i r hdl => ?_⟩⟩
  · refine Nat.eq_zero_of_not_pos fun hsent => ?_
    obtain ⟨-, htaken, hlocked⟩ := hi.claimed d (Nat.lt_of_lt_of_le hsent hclaims)
    rcases hover with hbefore | hbefore
    · exact htaken (hsplit ▸ List.mem_append_left _ hbefore)
    · exact hlocked.2 before after hsplit hfirst hbefore
  · obtain ⟨-, htaken, -⟩ := hi.claimed d (Nat.lt_of_lt_of_le hsent hclaims)
    have hnone : ¬ s.shared.Carries d r := fun hcarries => htaken (hi.results d r hr hcarries)
    have hput : (d, r) ∉ s.shared.conn.delivered := fun hmem => hnone (.inr hmem)
    refine ⟨hput, fun dl hdl htarget => hnone (.inl ⟨dl, hdl, htarget⟩), fun call hcall => ⟨?_, ?_⟩⟩
    · exact fun hmem => hput (hi.received d call hcall r (.inr (.inl hmem)))
    · exact fun hmem => hput (hi.received d call hcall r (.inr (.inr hmem)))
  · exact (hi.accounted.entry true id d he).1 (.inl (hi.returned d hreturned).1)
  · obtain ⟨call, hcall, hdone⟩ := (hi.returned d hreturned).2
    exact drop_isSome hcall hdone hdl

theorem ownId_of_numbers (hi : s.Inv) (hn : s.Numbers) (d : Nat) : s.OwnId d := by
  intro id target hsent
  obtain ⟨n, rfl, -, hfresh⟩ := hn.own d id target hsent
  have hnew : ∀ call ∈ s.shared.conn.calls, call.requestId ≠ Strconv.formatUint n := by
    intro call hmem heq
    refine hfresh (List.mem_map.mpr ⟨call, hmem, ?_⟩)
    exact Strconv.formatUint_injective heq
  have hnone : ∀ stream, (s.shared.conn.registrations stream).get (Strconv.formatUint n) = none := by
    intro stream
    refine Option.eq_none_iff_forall_ne_some.mpr fun e he => ?_
    obtain ⟨-, call, hcall, hid, -⟩ := hi.accounted.entry stream _ e he
    exact hnew call (List.mem_of_getElem? hcall) hid
  exact ⟨hnone false, hnone true, hnew⟩

/-- For every stream and every interleaving, at most one `request.cancel` is sent; until the counter
of the connection wraps around, under an id of its own. -/
theorem cancelled_once_of_run {agentId : String} {ls : List (CancelLabel π)}
    (h : Lts.AnyRun step (init agentId) ls s) (d : Nat) :
    s.CancelledOnce d ∧ (ls.countP takesNumber < UInt64.size → s.OwnId d) := by
  have hi : s.Inv := h.invariant (fun _ _ _ hi _ hs => step_inv hi hs) (init_inv agentId)
  exact ⟨hi.cancelledOnce d, fun hseq => ownId_of_numbers hi (numbers_of_run h hseq) d⟩

/-- Two goroutines cancel a download while a chunk is on its way; both have called `cancel` before
the first one holds the lock. The result comes too late. -/
def raced : List (CancelLabel Nat) :=
  [.conn (.conn (.start (.stream true))), .conn (.conn (.call 0 .register)),
    .conn (.conn (.call 0 (.send none))), .conn (.conn (.receive (.progress "1" 7))), .call 0, .call 0,
    .lock 1, .lock 0, .close 0, .conn (.conn (.receive (.result "1" 0))), .close 1, .send 1,
    .conn (.drop 0)]

theorem cancelled_once_of_run_raced : ∃ s : CancelConn Nat, Lts.AnyRun step (init "node-1") raced s ∧
    s.log = [.locked 0, .locked 0, .returned 0, .sent 0 "2" "1", .returned 0] ∧
    s.CancelledOnce 0 ∧ s.OwnId 0 := by
  let s := (Lts.exec step (init "node-1") raced).get (by decide +kernel)
  have hrun := Lts.anyRun_of_exec (t := s) (Option.some_get _).symm
  have honce := cancelled_once_of_run hrun 0
  exact ⟨s, hrun, by decide +kernel, honce.1, honce.2 (by decide +kernel)⟩

end CancelConn
end Hostlink.Controller
