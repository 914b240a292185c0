import Hostlink.Controller.AgentUp
import Hostlink.Controller.FamilyMerge
import Hostlink.Lib.Fanout

/-! `agentMetrics` with its goroutines: the loop that starts a scrape for every listed agent, no more than
`metricsFanoutConcurrency` of them at a time, and the response once all have ended. -/

namespace Hostlink.Controller

def metricsFanoutConcurrency : Nat := 16

inductive MetricsResponse where
  | badGateway (error : String)
  | exposition (families : List MetricFamily)

structure MetricsRequest where
  fan : Fanout.State
  round : ScrapeRound
  response : Option MetricsResponse := none

inductive MetricsLabel where
  | fan (l : Fanout.Label)
  | add (i k : Nat)

/-- What a scrape does, and not the request itself. -/
def MetricsLabel.ofScrape : MetricsLabel → Bool
  | .add _ _ | .fan (.ret _) => true
  | .fan .spawn | .fan (.release _) | .fan (.done _) | .fan .join => false

namespace MetricsRequest

def start (parser : TextParser) : Except GoError (List ScrapedAgent) → MetricsRequest
  | .error _ =>
    { fan := .start 0, round := .start parser [], response := some (.badGateway "list online agents failed") }
  | .ok fleet => { fan := .start fleet.length, round := .start parser fleet }

def returns (s : MetricsRequest) (i : Nat) : Bool :=
  (s.round.pending[i]?).all fun batches => batches.flatten.isEmpty

/-- The loop and its goroutines. The response is written once `wg.Wait` has returned. -/
def stepFan (s : MetricsRequest) (l : Fanout.Label) : Option MetricsRequest :=
  (s.fan.step metricsFanoutConcurrency l).bind fun fan =>
    match l with
    | .ret i => if s.returns i then some { s with fan := fan } else none
    | .join => some { s with fan := fan, response := some (.exposition s.round.acc.families) }
    | .spawn | .release _ | .done _ => some { s with fan := fan }

def step (s : MetricsRequest) : MetricsLabel → Option MetricsRequest
  | .fan l => if s.response.isSome then none else s.stepFan l
  | .add i k =>
    if s.fan.jobs[i]? = some .running then
      (s.round.step (i, k)).map fun round => { s with round := round }
    else none

variable {parser : TextParser} {fleet : List ScrapedAgent} {s t : MetricsRequest}

inductive Step (s : MetricsRequest) : MetricsRequest → Prop
  | fan (l : Fanout.Label) (fan : Fanout.State) (hfan : s.fan.step metricsFanoutConcurrency l = some fan)
      (hjoined : fan.joined = s.fan.joined) (hreturns : ∀ i, l = .ret i → s.returns i = true) :
      Step s { s with fan := fan }
  | join (fan : Fanout.State) (hfan : s.fan.step metricsFanoutConcurrency .join = some fan) :
      Step s { s with fan := fan, response := some (.exposition s.round.acc.families) }
  | add (i k : Nat) (round : ScrapeRound) (hrunning : s.fan.jobs[i]? = some .running)
      (hround : s.round.step (i, k) = some round) : Step s { s with round := round }

theorem stepFan_cases {l : Fanout.Label} (h : s.stepFan l = some t) : s.Step t := by
  obtain ⟨fan, hfan, h⟩ := Option.bind_eq_some_iff.mp h
  have hcases := Fanout.State.step_cases hfan
  cases l with
  | ret i =>
    obtain ⟨hreturns, ⟨⟩⟩ := Option.ite_none_right_eq_some.mp h
    cases hcases with
    | ret =>
      refine .fan _ _ hfan rfl ?_
      rintro j ⟨⟩
      exact hreturns
  | join =>
    obtain rfl := Option.some.inj h
    exact .join fan hfan
  | spawn | release i | done i =>
    obtain rfl := Option.some.inj h
    cases hcases
    exact .fan _ _ hfan rfl (by rintro j ⟨⟩)

theorem step_cases {l : MetricsLabel} (h : s.step l = some t) : s.Step t := by
  cases l with
  | fan l => exact stepFan_cases (Option.ite_none_left_eq_some.mp h).2
  | add i k =>
    obtain ⟨hrunning, h⟩ := Option.ite_none_right_eq_some.mp h
    obtain ⟨round, hround, rfl⟩ := Option.map_eq_some_iff.mp h
    exact .add i k round hrunning hround

/-! ### A round with its goroutines is a round -/

structure Inv (parser : TextParser) (fleet : List ScrapedAgent) (s : MetricsRequest) : Prop where
  fan : s.fan.Inv metricsFanoutConcurrency
  length : s.round.pending.length = s.fan.jobs.length
  round : ∃ order, Lts.AnyRun ScrapeRound.step (.start parser fleet) order s.round
  ended : ∀ (i : Nat) job, s.fan.jobs[i]? = some job → job.ended = true → s.returns i = true
  response : s.response = if s.fan.joined then some (.exposition s.round.acc.families) else none

theorem inv_start (parser : TextParser) (fleet : List ScrapedAgent) : Inv parser fleet (start parser (.ok fleet)) where
  fan := Fanout.State.inv_start ..
  length := by
    show (fleet.map _).length = (List.replicate fleet.length Fanout.Job.idle).length
    rw [List.length_map, List.length_replicate]
  round := ⟨[], .nil⟩
  ended := by
    intro i job hi hended
    obtain rfl := List.eq_of_mem_replicate (List.mem_of_getElem? hi)
    cases hended
  response := rfl

theorem returns_of_round {i k n : Nat} {round : ScrapeRound} (h : s.round.step (i, k) = some round) (hne : n ≠ i) :
    returns { s with round := round } n = s.returns n := by
  obtain ⟨batches, hb, h⟩ := Option.bind_eq_some_iff.mp h
  obtain ⟨⟨a, left⟩, htake, rfl⟩ := Option.map_eq_some_iff.mp h
  simp only [returns, List.getElem?_set_ne hne.symm]

theorem length_of_round {l : Nat × Nat} {r round : ScrapeRound} (h : r.step l = some round) :
    round.pending.length = r.pending.length := by
  obtain ⟨batches, hb, h⟩ := Option.bind_eq_some_iff.mp h
  obtain ⟨⟨a, left⟩, htake, rfl⟩ := Option.map_eq_some_iff.mp h
  exact List.length_set

theorem Inv.ended_fan (hs : s.Inv parser fleet) {l : Fanout.Label} {fan : Fanout.State}
    (h : s.fan.step metricsFanoutConcurrency l = some fan) (hreturns : ∀ i, l = .ret i → s.returns i = true) :
    ∀ (i : Nat) job, fan.jobs[i]? = some job → job.ended = true → s.returns i = true := by
  intro i job hi hended
  rcases Fanout.State.ended_of_step h hi hended with ⟨job', hold, hended'⟩ | hl
  · exact hs.ended i job' hold hended'
  · exact hreturns i hl

theorem Inv.step {l : MetricsLabel} (hs : s.Inv parser fleet) (h : s.step l = some t) : t.Inv parser fleet := by
  cases step_cases h with
  | fan l fan hfan hjoined hreturns =>
    refine ⟨hs.fan.step hfan, hs.length.trans (Fanout.State.length_of_step hfan).symm, hs.round,
      hs.ended_fan hfan hreturns, ?_⟩
    rw [hjoined]
    exact hs.response
  | join fan hfan =>
    refine ⟨hs.fan.step hfan, hs.length.trans (Fanout.State.length_of_step hfan).symm, hs.round,
      hs.ended_fan hfan (by rintro i ⟨⟩), ?_⟩
    cases Fanout.State.step_cases hfan with
    | join => rfl
  | add i k round hrunning hround =>
    obtain ⟨order, hrun⟩ := hs.round
    refine ⟨hs.fan, (length_of_round hround).trans hs.length, ⟨_, hrun.snoc trivial hround⟩, ?_, ?_⟩
    · intro n job hn hended
      have hne : n ≠ i := by
        rintro rfl
        obtain rfl := Option.some.inj (hn.symm.trans hrunning)
        cases hended
      rw [returns_of_round hround hne]
      exact hs.ended n job hn hended
    · -- after the wait nobody gives anything to the merger
      have hwaits : s.fan.joined = false := by
        rw [← Bool.not_eq_true]
        intro hjoined
        have hfinished := hs.fan.finished hjoined _ (List.mem_of_getElem? hrunning)
        cases hfinished
      have hresponse := hs.response
      rw [hwaits] at hresponse ⊢
      exact hresponse

theorem inv_of_run {ls : List MetricsLabel} (h : Lts.AnyRun MetricsRequest.step (start parser (.ok fleet)) ls s) :
    s.Inv parser fleet :=
  h.invariant (fun _ _ _ hs _ hstep => hs.step hstep) (inv_start parser fleet)

theorem Inv.finished (hs : s.Inv parser fleet) (hjoined : s.fan.joined = true) : s.round.finished := by
  intro batches hbatches
  obtain ⟨i, hi⟩ := List.getElem?_of_mem hbatches
  have hlt : i < s.fan.jobs.length := by
    rw [← hs.length]
    exact (List.getElem?_eq_some_iff.mp hi).1
  have hget := List.getElem?_eq_getElem hlt
  have hjob := hs.fan.finished hjoined _ (List.mem_of_getElem? hget)
  have hreturns := hs.ended i _ hget (by rw [hjob]; rfl)
  rw [returns, hi] at hreturns
  exact List.isEmpty_iff.mp hreturns

theorem Inv.exposition (hs : s.Inv parser fleet) {response : MetricsResponse} (h : s.response = some response) :
    ∃ order, Lts.AnyRun ScrapeRound.step (.start parser fleet) order s.round ∧ s.round.finished ∧
      response = .exposition s.round.acc.families := by
  have hresponse := hs.response
  rw [h] at hresponse
  split at hresponse
  · next hjoined =>
    obtain ⟨order, hrun⟩ := hs.round
    exact ⟨order, hrun, hs.finished hjoined, Option.some.inj hresponse⟩
  · cases hresponse

theorem families_of_finished {fleet' : List ScrapedAgent} (hfleet : fleet.Perm fleet')
    {order order' : List (Nat × Nat)} {t t' : ScrapeRound}
    (hagree : TypesAgree (ScrapeRound.start parser fleet).rest)
    (hrun : Lts.AnyRun ScrapeRound.step (.start parser fleet) order t) (hfinished : t.finished)
    (hrun' : Lts.AnyRun ScrapeRound.step (.start parser fleet') order' t') (hfinished' : t'.finished) :
    List.Forall₂ MetricFamily.SameSeries t.acc.families t'.acc.families := by
  obtain ⟨items, hacc, hperm⟩ := Feed.run_items_of_finished hrun hfinished
  obtain ⟨items', hacc', hperm'⟩ := Feed.run_items_of_finished hrun' hfinished'
  have hrest : (ScrapeRound.start parser fleet).rest.Perm (ScrapeRound.start parser fleet').rest := by
    rw [rest_start, rest_start]
    exact hfleet.flatMap_right _
  rw [hacc, hacc']
  exact FamilyMerger.sameSeries_families (hagree.of_perm hperm) (hperm.symm.trans (hrest.trans hperm'))

/-- For every interleaving of the loop and the scrapes, what is written has exactly one `agent_up` series
for each listed agent, as long as no exporter uses that name; and two requests that get the same answers
from the fleet, listed in any order, write the same series if families of one name agree in their type. -/
theorem exposition_of_run {ls : List MetricsLabel} {families : List MetricFamily}
    (h : Lts.AnyRun MetricsRequest.step (start parser (.ok fleet)) ls s)
    (hresponse : s.response = some (.exposition families)) :
    ((∀ a ∈ fleet, a.LeavesName parser metricAgentUp) → AgentUpExact fleet families) ∧
    (TypesAgree (ScrapeRound.start parser fleet).rest → ∀ fleet', fleet.Perm fleet' →
      ∀ ls' s' families', Lts.AnyRun MetricsRequest.step (start parser (.ok fleet')) ls' s' →
      s'.response = some (.exposition families') → List.Forall₂ MetricFamily.SameSeries families families') := by
  obtain ⟨order, hrun, hfinished, ⟨⟩⟩ := (inv_of_run h).exposition hresponse
  refine ⟨fun hleaves => agentUpExact_of_leavesName hleaves hrun hfinished, ?_⟩
  intro hagree fleet' hfleet ls' s' families' h' hresponse'
  obtain ⟨order', hrun', hfinished', ⟨⟩⟩ := (inv_of_run h').exposition hresponse'
  exact families_of_finished hfleet hagree hrun hfinished hrun' hfinished'

def mixedFleet : List ScrapedAgent := [⟨"node-1", oneExporter "node" "up 1"⟩, ⟨"node-2", none⟩]

def mixedFleetRound : List MetricsLabel :=
  [.fan .spawn, .fan .spawn, .add 1 0, .add 0 0, .fan (.ret 1), .add 0 0, .fan (.release 1), .add 0 0,
    .fan (.ret 0), .fan (.done 1), .fan (.release 0), .fan (.done 0), .fan .join]

theorem exposition_of_mixedFleet : ∃ s families,
    Lts.AnyRun MetricsRequest.step (start lineParser (.ok mixedFleet)) mixedFleetRound s ∧
    s.response = some (.exposition families) ∧ AgentUpExact mixedFleet families := by
  let s := (Lts.exec MetricsRequest.step (start lineParser (.ok mixedFleet)) mixedFleetRound).get
    (by decide +kernel)
  have hrun := Lts.anyRun_of_exec (t := s) (Option.some_get _).symm
  have hsome : s.response.isSome = true := by decide +kernel
  obtain ⟨response, hresponse⟩ := Option.isSome_iff_exists.mp hsome
  obtain ⟨-, -, -, rfl⟩ := (inv_of_run hrun).exposition hresponse
  have hleaves : ∀ a ∈ mixedFleet, a.LeavesName lineParser metricAgentUp := by decide +kernel
  exact ⟨s, _, hrun, hresponse, (exposition_of_run hrun hresponse).1 hleaves⟩

/-! ### The request is answered -/

theorem Inv.exists_step (hs : s.Inv parser fleet) (hopen : s.response = none) :
    (∃ i : Nat, s.fan.jobs[i]? = some .running) ∨ ∃ l, l.ofScrape = false ∧ (s.step l).isSome = true := by
  have hwaits : s.fan.joined = false := by
    have hresponse := hs.response
    rw [hopen] at hresponse
    cases hjoined : s.fan.joined with
    | false => rfl
    | true => simp [hjoined] at hresponse
  obtain ⟨l, hl⟩ := hs.fan.exists_step (by decide) hwaits
  obtain ⟨fan, hfan⟩ := Option.isSome_iff_exists.mp hl
  have hstep : s.step (.fan l) = s.stepFan l := by
    rw [MetricsRequest.step, hopen]
    rfl
  cases l with
  | ret i =>
    -- whether this scrape ever returns is not for the request to say
    cases Fanout.State.step_cases hfan with
    | ret _ hrunning => exact .inl ⟨i, hrunning⟩
  | spawn => exact .inr ⟨.fan .spawn, rfl, by simp [hstep, stepFan, hfan]⟩
  | release i => exact .inr ⟨.fan (.release i), rfl, by simp [hstep, stepFan, hfan]⟩
  | done i => exact .inr ⟨.fan (.done i), rfl, by simp [hstep, stepFan, hfan]⟩
  | join => exact .inr ⟨.fan .join, rfl, by simp [hstep, stepFan, hfan]⟩

def left (s : MetricsRequest) : Nat := s.fan.left + s.round.rest.length

theorem Inv.left_of_step {l : MetricsLabel} (hs : s.Inv parser fleet) (h : s.step l = some t) :
    t.left + 1 ≤ s.left := by
  simp only [left]
  cases step_cases h with
  | fan l fan hfan =>
    have hleft := hs.fan.left_of_step hfan
    dsimp only
    omega
  | join fan hfan =>
    have hleft := hs.fan.left_of_step hfan
    dsimp only
    omega
  | add i k round hrunning hround =>
    obtain ⟨a, -, hperm⟩ := Feed.step_item hround
    have hlength := hperm.length_eq
    rw [List.length_cons] at hlength
    dsimp only
    omega

/-- No more than `metricsFanoutConcurrency` agents are scraped at a time, and the request is answered if
each scrape returns: until it is, a scrape is running or the request has a step of its own to take, and there
are no more steps than four for each agent, one for each family and one for the wait. -/
theorem scrapes_bounded_of_run {ls : List MetricsLabel}
    (h : Lts.AnyRun MetricsRequest.step (start parser (.ok fleet)) ls s) :
    s.fan.jobs.countP (· = .running) ≤ metricsFanoutConcurrency ∧
    (s.response = none → (∃ i : Nat, s.fan.jobs[i]? = some .running) ∨
      ∃ l, l.ofScrape = false ∧ (s.step l).isSome = true) ∧
    ls.length ≤ 4 * fleet.length + 1 + (ScrapeRound.start parser fleet).rest.length := by
  have hs := inv_of_run h
  refine ⟨hs.fan.running_le, hs.exists_step, ?_⟩
  have hcount := h.countP_le (I := Inv parser fleet) (μ := left) (p := fun _ => true)
    (fun _ _ _ hu _ hstep => hu.step hstep) (fun _ _ _ hu _ hstep => by simpa using hu.left_of_step hstep)
    (inv_start parser fleet)
  rw [List.countP_true] at hcount
  have hstart : (start parser (.ok fleet)).left ≤
      4 * fleet.length + 1 + (ScrapeRound.start parser fleet).rest.length :=
    Nat.add_le_add_right (Fanout.State.left_start fleet.length) _
  omega

/-- The loop has to wait for a scrape to end before it starts another one. -/
theorem scrapes_bounded_of_large_fleet : ∃ s,
    Lts.AnyRun MetricsRequest.step (start lineParser (.ok (List.replicate 17 ⟨"node", none⟩)))
      (List.replicate 16 (.fan .spawn)) s ∧ s.fan.jobs.countP (· = .running) = 16 ∧
    (s.step (.fan .spawn)).isNone = true ∧ s.response = none ∧
    ((∃ i : Nat, s.fan.jobs[i]? = some .running) ∨ ∃ l, l.ofScrape = false ∧ (s.step l).isSome = true) := by
  let s := (Lts.exec MetricsRequest.step (start lineParser (.ok (List.replicate 17 ⟨"node", none⟩)))
    (List.replicate 16 (.fan .spawn))).get (by decide +kernel)
  have hrun := Lts.anyRun_of_exec (t := s) (Option.some_get _).symm
  have hopen : s.response = none := by rfl
  exact ⟨s, hrun, by decide +kernel, by decide +kernel, hopen, (scrapes_bounded_of_run hrun).2.1 hopen⟩

end MetricsRequest
end Hostlink.Controller
