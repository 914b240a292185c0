import Hostlink.Lib.Run
import Hostlink.Lib.Slots

/-! A loop that starts one process for each of its turns, with a bounded number of them at a time: it puts
a token into a buffered channel before it starts a process, and the process takes one out when it ends.
A wait group lets the loop wait for all of them. -/

namespace Fanout

/-- Where a process stands: `returned` is its body, `released` has taken a token out of the channel,
`finished` has left the wait group. -/
inductive Job where
  | idle
  | running
  | returned
  | released
  | finished
  deriving DecidableEq

/-- `next` is the number of processes started, `sem` that of the tokens in the channel, `wg` the counter
of the wait group; `joined` says that the wait is over. -/
structure State where
  next : Nat := 0
  sem : Nat := 0
  wg : Nat
  jobs : List Job
  joined : Bool := false

inductive Label where
  | spawn
  | ret (i : Nat)
  | release (i : Nat)
  | done (i : Nat)
  | join

namespace State

def start (n : Nat) : State := { wg := n, jobs := List.replicate n .idle }

def step (cap : Nat) (s : State) : Label → Option State
  | .spawn =>
    if s.next < s.jobs.length ∧ s.sem < cap then
      some { s with next := s.next + 1, sem := s.sem + 1, jobs := s.jobs.set s.next .running }
    else none
  | .ret i =>
    if s.jobs[i]? = some .running then some { s with jobs := s.jobs.set i .returned } else none
  | .release i =>
    if s.jobs[i]? = some .returned ∧ s.sem ≠ 0 then
      some { s with sem := s.sem - 1, jobs := s.jobs.set i .released }
    else none
  | .done i =>
    if s.jobs[i]? = some .released then some { s with wg := s.wg - 1, jobs := s.jobs.set i .finished }
    else none
  | .join =>
    if s.next = s.jobs.length ∧ s.wg = 0 ∧ s.joined = false then some { s with joined := true } else none

end State

namespace Job

def holds : Job → Bool
  | .running | .returned => true
  | .idle | .released | .finished => false

def counted : Job → Bool
  | .finished => false
  | .idle | .running | .returned | .released => true

def ended : Job → Bool
  | .returned | .released | .finished => true
  | .idle | .running => false

def left : Job → Nat
  | .idle => 4
  | .running => 3
  | .returned => 2
  | .released => 1
  | .finished => 0

theorem left_le (job : Job) : job.left ≤ 4 := by
  cases job <;> decide

end Job

namespace State
variable {cap i : Nat} {s t : State} {l : Label}

inductive Step (cap : Nat) (s : State) : Label → State → Prop
  | spawn (hlt : s.next < s.jobs.length) (hfree : s.sem < cap) : Step cap s .spawn
      { s with next := s.next + 1, sem := s.sem + 1, jobs := s.jobs.set s.next .running }
  | ret (i : Nat) (hi : s.jobs[i]? = some .running) :
      Step cap s (.ret i) { s with jobs := s.jobs.set i .returned }
  | release (i : Nat) (hi : s.jobs[i]? = some .returned) (htoken : s.sem ≠ 0) :
      Step cap s (.release i) { s with sem := s.sem - 1, jobs := s.jobs.set i .released }
  | done (i : Nat) (hi : s.jobs[i]? = some .released) :
      Step cap s (.done i) { s with wg := s.wg - 1, jobs := s.jobs.set i .finished }
  | join (hnext : s.next = s.jobs.length) (hwg : s.wg = 0) (hwaits : s.joined = false) :
      Step cap s .join { s with joined := true }

theorem step_cases (h : s.step cap l = some t) : Step cap s l t := by
  cases l with
  | spawn =>
    obtain ⟨hif, ⟨⟩⟩ := Option.ite_none_right_eq_some.mp h
    exact .spawn hif.1 hif.2
  | ret i =>
    obtain ⟨hi, ⟨⟩⟩ := Option.ite_none_right_eq_some.mp h
    exact .ret i hi
  | release i =>
    obtain ⟨hif, ⟨⟩⟩ := Option.ite_none_right_eq_some.mp h
    exact .release i hif.1 hif.2
  | done i =>
    obtain ⟨hi, ⟨⟩⟩ := Option.ite_none_right_eq_some.mp h
    exact .done i hi
  | join =>
    obtain ⟨hif, ⟨⟩⟩ := Option.ite_none_right_eq_some.mp h
    exact .join hif.1 hif.2.1 hif.2.2

/-! ### The counters -/

structure Inv (cap : Nat) (s : State) : Prop where
  next : s.next ≤ s.jobs.length
  idle : ∀ (i : Nat) job, s.jobs[i]? = some job → (job = .idle ↔ s.next ≤ i)
  sem : s.sem = s.jobs.countP Job.holds
  wg : s.wg = s.jobs.countP Job.counted
  cap : s.sem ≤ cap
  joined : s.joined = true → s.wg = 0

theorem inv_start (cap n : Nat) : (start n).Inv cap where
  next := Nat.zero_le _
  idle := by
    intro i job hi
    have hjob := List.eq_of_mem_replicate (List.mem_of_getElem? hi)
    exact iff_of_true hjob (Nat.zero_le i)
  sem := by simp [start, List.countP_replicate, Job.holds]
  wg := by simp [start, List.countP_replicate, Job.counted]
  cap := Nat.zero_le _
  joined := by rintro ⟨⟩

theorem Inv.move (hs : s.Inv cap) {job job' : Job} (hi : s.jobs[i]? = some job) (hjob : job ≠ .idle)
    (hjob' : job' ≠ .idle) {sem wg : Nat}
    (hsem : sem + (if job.holds then 1 else 0) = s.sem + if job'.holds then 1 else 0)
    (hwg : wg + (if job.counted then 1 else 0) = s.wg + if job'.counted then 1 else 0)
    (hcap : sem ≤ cap) (hjoined : s.joined = true → wg = 0) :
    Inv cap { s with sem := sem, wg := wg, jobs := s.jobs.set i job' } where
  next := Nat.le_trans hs.next (Nat.le_of_eq List.length_set.symm)
  idle := by
    intro n other hn
    rcases List.getElem?_of_set hn with ⟨-, hold⟩ | ⟨rfl, rfl⟩
    · exact hs.idle n other hold
    · exact iff_of_false hjob' fun hle => hjob ((hs.idle n job hi).mpr hle)
  sem := by
    rw [hs.sem, ← List.countP_set_of Job.holds hi job'] at hsem
    exact Nat.add_right_cancel hsem
  wg := by
    rw [hs.wg, ← List.countP_set_of Job.counted hi job'] at hwg
    exact Nat.add_right_cancel hwg
  cap := hcap
  joined := hjoined

theorem Inv.next_idle (hs : s.Inv cap) (hlt : s.next < s.jobs.length) : s.jobs[s.next]? = some .idle := by
  have hget := List.getElem?_eq_getElem hlt
  rw [hget]
  exact congrArg some ((hs.idle _ _ hget).mpr (Nat.le_refl _))

theorem Inv.spawn (hs : s.Inv cap) (hlt : s.next < s.jobs.length) (hfree : s.sem < cap) :
    Inv cap { s with next := s.next + 1, sem := s.sem + 1, jobs := s.jobs.set s.next .running } where
  next := by
    show s.next + 1 ≤ (s.jobs.set _ _).length
    rw [List.length_set]
    exact hlt
  idle := by
    intro n other hn
    rcases List.getElem?_of_set hn with ⟨hne, hold⟩ | ⟨rfl, rfl⟩
    · rw [hs.idle n other hold]
      exact ⟨fun hle => Nat.lt_of_le_of_ne hle (Ne.symm hne), Nat.le_of_succ_le⟩
    · exact iff_of_false Job.noConfusion (Nat.not_succ_le_self _)
  sem := by
    rw [hs.sem]
    exact (List.countP_set_of Job.holds (hs.next_idle hlt) .running).symm
  wg := by
    rw [hs.wg]
    exact (Nat.add_right_cancel (List.countP_set_of Job.counted (hs.next_idle hlt) .running)).symm
  cap := hfree
  joined := hs.joined

theorem Inv.step (hs : s.Inv cap) (h : s.step cap l = some t) : t.Inv cap := by
  cases step_cases h with
  | spawn hlt hfree => exact hs.spawn hlt hfree
  | ret i hi => exact hs.move hi Job.noConfusion Job.noConfusion rfl rfl hs.cap hs.joined
  | release i hi htoken =>
    exact hs.move hi Job.noConfusion Job.noConfusion (Nat.sub_one_add_one htoken) rfl
      (Nat.le_trans (Nat.sub_le ..) hs.cap) hs.joined
  | done i hi =>
    have hwg : 0 < s.wg := by
      rw [hs.wg]
      exact List.countP_pos_iff.mpr ⟨_, List.mem_of_getElem? hi, rfl⟩
    refine hs.move hi Job.noConfusion Job.noConfusion rfl (Nat.sub_one_add_one (Nat.ne_of_gt hwg)) hs.cap ?_
    intro hjoined
    rw [hs.joined hjoined]
  | join hnext hwg hwaits => exact ⟨hs.next, hs.idle, hs.sem, hs.wg, hs.cap, fun _ => hwg⟩

theorem Inv.running_le (hs : s.Inv cap) : s.jobs.countP (· = .running) ≤ cap := by
  have hle : s.jobs.countP (· = .running) ≤ s.jobs.countP Job.holds := by
    apply List.countP_mono_left
    intro job _ hjob
    obtain rfl := of_decide_eq_true hjob
    rfl
  exact Nat.le_trans hle (hs.sem ▸ hs.cap)

theorem Inv.finished (hs : s.Inv cap) (hjoined : s.joined = true) : ∀ job ∈ s.jobs, job = .finished := by
  intro job hjob
  have hnot := List.countP_eq_zero.mp (hs.wg.symm.trans (hs.joined hjoined)) job hjob
  cases job with
  | finished => rfl
  | idle | running | returned | released => exact absurd rfl hnot

theorem ended_of_step (h : s.step cap l = some t) {n : Nat} {job : Job} (hn : t.jobs[n]? = some job)
    (hended : job.ended = true) : (∃ job', s.jobs[n]? = some job' ∧ job'.ended = true) ∨ l = .ret n := by
  cases step_cases h with
  | spawn =>
    rcases List.getElem?_of_set hn with ⟨-, hold⟩ | ⟨-, rfl⟩
    · exact .inl ⟨job, hold, hended⟩
    · cases hended
  | ret i hi =>
    rcases List.getElem?_of_set hn with ⟨-, hold⟩ | ⟨rfl, -⟩
    · exact .inl ⟨job, hold, hended⟩
    · exact .inr rfl
  | release i hi | done i hi =>
    rcases List.getElem?_of_set hn with ⟨-, hold⟩ | ⟨rfl, -⟩
    · exact .inl ⟨job, hold, hended⟩
    · exact .inl ⟨_, hi, rfl⟩
  | join => exact .inl ⟨job, hn, hended⟩

theorem length_of_step (h : s.step cap l = some t) : t.jobs.length = s.jobs.length := by
  cases step_cases h with
  | spawn | ret | release | done => exact List.length_set
  | join => rfl

/-! ### Progress -/

theorem Inv.exists_step (hs : s.Inv cap) (hcap : 0 < cap) (hwaits : s.joined = false) :
    ∃ l, (s.step cap l).isSome = true := by
  by_cases hbusy : ∃ job ∈ s.jobs, job = .running ∨ job = .returned ∨ job = .released
  · obtain ⟨job, hjob, hpc⟩ := hbusy
    obtain ⟨i, hi⟩ := List.getElem?_of_mem hjob
    rcases hpc with rfl | rfl | rfl
    · exact ⟨.ret i, by simp [State.step, hi]⟩
    · have htoken : s.sem ≠ 0 := by
        rw [hs.sem, ← Nat.pos_iff_ne_zero]
        exact List.countP_pos_iff.mpr ⟨_, hjob, rfl⟩
      exact ⟨.release i, by simp [State.step, hi, htoken]⟩
    · exact ⟨.done i, by simp [State.step, hi]⟩
  · have hrest : ∀ job ∈ s.jobs, job = .idle ∨ job = .finished := by
      intro job hjob
      cases job with
      | idle => exact .inl rfl
      | finished => exact .inr rfl
      | running => exact absurd ⟨_, hjob, .inl rfl⟩ hbusy
      | returned => exact absurd ⟨_, hjob, .inr (.inl rfl)⟩ hbusy
      | released => exact absurd ⟨_, hjob, .inr (.inr rfl)⟩ hbusy
    have hsem : s.sem = 0 := by
      rw [hs.sem, List.countP_eq_zero]
      intro job hjob
      rcases hrest job hjob with rfl | rfl <;> simp [Job.holds]
    rcases Nat.lt_or_eq_of_le hs.next with hlt | hnext
    · exact ⟨.spawn, by simp [State.step, hlt, hsem, hcap]⟩
    · have hwg : s.wg = 0 := by
        rw [hs.wg, List.countP_eq_zero]
        intro job hjob
        rcases hrest job hjob with rfl | rfl
        · obtain ⟨i, hi⟩ := List.getElem?_of_mem hjob
          have hlt := (List.getElem?_eq_some_iff.mp hi).1
          have hle := (hs.idle i _ hi).mp rfl
          omega
        · simp [Job.counted]
      exact ⟨.join, by simp [State.step, hnext, hwg, hwaits]⟩

def left (s : State) : Nat := s.jobs.weight Job.left + if s.joined then 0 else 1

theorem Inv.left_of_step (hs : s.Inv cap) (h : s.step cap l = some t) : t.left + 1 ≤ s.left := by
  have hset : ∀ {i : Nat} {job : Job} (job' : Job), s.jobs[i]? = some job → job'.left + 1 = job.left →
      (s.jobs.set i job').weight Job.left + 1 = s.jobs.weight Job.left := by
    intro i job job' hi hleft
    have hweight := List.weight_set_of Job.left hi job'
    omega
  simp only [left]
  cases step_cases h with
  | spawn hlt hfree =>
    have hweight := hset .running (hs.next_idle hlt) rfl
    dsimp only
    omega
  | ret i hi =>
    have hweight := hset .returned hi rfl
    dsimp only
    omega
  | release i hi _ =>
    have hweight := hset .released hi rfl
    dsimp only
    omega
  | done i hi =>
    have hweight := hset .finished hi rfl
    dsimp only
    omega
  | join _ _ hwaits => simp [hwaits]

theorem left_start (n : Nat) : (start n).left ≤ 4 * n + 1 := by
  have hweight := List.weight_le Job.left_le (List.replicate n .idle)
  rw [List.length_replicate] at hweight
  exact Nat.add_le_add hweight (Nat.le_refl 1)

end State
end Fanout
