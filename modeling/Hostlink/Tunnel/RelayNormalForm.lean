import Hostlink.Tunnel.SpliceStream

/-! The output of one relay direction, for every input, when no `Send` fails: what the input carries up to
the frame that ends it, and a RESET unless it ended in order. A second relay leaves such an output as it is. -/

namespace Hostlink.Tunnel

def Frame.carried (f : Frame) : Option Frame :=
  match f.type with
  | .data => some (.ofData f.data)
  | .halfClose => some .halfClose
  | .reset | .open | .ready | .unknown _ => none

def carried (fs : List Frame) : List Frame := fs.filterMap Frame.carried

def HalfClosed (fs : List Frame) : Prop := ∃ g ∈ fs, g.type = .halfClose

def Ends (before : List Frame) (f : Frame) : Prop :=
  f.type = .reset ∨ (∃ code, f.type = .unknown code) ∨ HalfClosed before

def Flows (fs : List Frame) : Prop := ∀ before f after, fs = before ++ f :: after → ¬ Ends before f

structure Cut (fs taken rest : List Frame) : Prop where
  parts : fs = taken ++ rest
  flows : Flows taken
  ends : ∀ f after, rest = f :: after → Ends taken f

def cleanEnd (taken rest : List Frame) (err : GoError) : Bool :=
  rest.isEmpty && err.is .eof && taken.getLast?.any fun g => g.type = .halfClose

def NormalForm (fs : List Frame) (err : GoError) (out : List Frame) (r : Option GoError) : Prop :=
  ∃ taken rest, Cut fs taken rest ∧
    out = carried taken ++ (if cleanEnd taken rest err then [] else [.reset]) ∧
    (r = none ↔ cleanEnd taken rest err = true)

variable {fs before taken rest out out' : List Frame} {f : Frame} {err : GoError} {r r' : Option GoError}

/-! ### Input that flows -/

theorem flows_nil : Flows [] := by
  intro before f after h
  cases before <;> cases h

theorem flows_snoc : Flows (fs ++ [f]) ↔ Flows fs ∧ ¬ Ends fs f := by
  constructor
  · intro h
    refine ⟨fun before g after hparts => h before g (after ++ [f]) ?_, h fs f [] rfl⟩
    rw [hparts, List.append_assoc, List.cons_append]
  · rintro ⟨hflows, hends⟩ before g after hparts
    rcases List.eq_nil_or_concat' after with rfl | ⟨after, g', rfl⟩
    · obtain ⟨rfl, hlast⟩ := List.append_inj' hparts rfl
      rwa [← (List.cons.inj hlast).1]
    · rw [← List.cons_append, ← List.append_assoc] at hparts
      exact hflows before g after (List.append_inj' hparts rfl).1

theorem halfClosed_snoc : HalfClosed (fs ++ [f]) ↔ HalfClosed fs ∨ f.type = .halfClose := by
  constructor
  · rintro ⟨g, hg, htype⟩
    rcases List.mem_append.mp hg with hold | hlast
    · exact .inl ⟨g, hold, htype⟩
    · rw [← List.mem_singleton.mp hlast]
      exact .inr htype
  · rintro (⟨g, hg, htype⟩ | htype)
    · exact ⟨g, List.mem_append_left _ hg, htype⟩
    · exact ⟨f, List.mem_append_right _ (List.mem_singleton_self f), htype⟩

theorem not_ends (hopen : ¬ HalfClosed before)
    (htype : f.type ≠ .reset ∧ ∀ code, f.type ≠ .unknown code) : ¬ Ends before f := by
  rintro (hreset | ⟨code, hunknown⟩ | hc)
  · exact htype.1 hreset
  · exact htype.2 code hunknown
  · exact hopen hc

theorem Flows.last_iff (h : Flows fs) :
    (fs.getLast?.any fun g => g.type = .halfClose) = true ↔ HalfClosed fs := by
  rcases List.eq_nil_or_concat' fs with rfl | ⟨fs, f, rfl⟩
  · refine iff_of_false Bool.false_ne_true ?_
    rintro ⟨g, hg, -⟩
    exact absurd hg List.not_mem_nil
  · rw [List.getLast?_concat, Option.any_some, decide_eq_true_eq, halfClosed_snoc]
    refine ⟨.inr, ?_⟩
    rintro (hbefore | hlast)
    · exact absurd (.inr (.inr hbefore)) (flows_snoc.mp h).2
    · exact hlast

theorem Cut.unique {taken' rest' : List Frame} (h : Cut fs taken rest) (h' : Cut fs taken' rest') :
    taken = taken' ∧ rest = rest' := by
  have hparts := h.parts.symm.trans h'.parts
  -- the longer one would take the frame that ends the other
  have hshort : ∀ {t r t' r'}, Cut fs t r → Cut fs t' r' → t <+: t' → t = t' := by
    rintro t r t' r' hc hc' ⟨more, rfl⟩
    cases more with
    | nil => exact (List.append_nil t).symm
    | cons g more =>
      have hrest := hc.parts.symm.trans hc'.parts
      rw [List.append_assoc] at hrest
      have hends := hc.ends g (more ++ r') (List.append_cancel_left hrest)
      exact absurd hends (hc'.flows t g more rfl)
  have htaken : taken = taken' := by
    have hpre : taken <+: fs := ⟨rest, h.parts.symm⟩
    have hpre' : taken' <+: fs := ⟨rest', h'.parts.symm⟩
    rcases List.prefix_or_prefix_of_prefix hpre hpre' with hle | hge
    · exact hshort h h' hle
    · exact (hshort h' h hge).symm
  subst htaken
  exact ⟨rfl, List.append_cancel_left hparts⟩

/-! ### What is carried -/

theorem carried_snoc (fs : List Frame) (f : Frame) :
    carried (fs ++ [f]) = carried fs ++ f.carried.toList := by
  rw [carried, List.filterMap_append]
  refine congrArg (carried fs ++ ·) ?_
  cases hf : f.carried with
  | none => exact List.filterMap_cons_none hf
  | some g => exact List.filterMap_cons_some hf

theorem Frame.carried_cases (f : Frame) :
    (f.type = .data ∧ f.carried = some (.ofData f.data)) ∨
      (f.type = .halfClose ∧ f.carried = some .halfClose) ∨
        (f.type ≠ .data ∧ f.type ≠ .halfClose ∧ f.carried = none) := by
  unfold Frame.carried
  cases f.type with
  | data => exact .inl ⟨rfl, rfl⟩
  | halfClose => exact .inr (.inl ⟨rfl, rfl⟩)
  | reset | «open» | ready | unknown code =>
    refine .inr (.inr ⟨?_, ?_, rfl⟩)
    · rintro ⟨⟩
    · rintro ⟨⟩

theorem carried_carried (fs : List Frame) : carried (carried fs) = carried fs := by
  induction fs using List.reverseRecOn with
  | nil => rfl
  | append_singleton fs f ih =>
    rw [carried_snoc]
    rcases f.carried_cases with ⟨-, hf⟩ | ⟨-, hf⟩ | ⟨-, -, hf⟩
    · rw [hf, Option.toList_some, carried_snoc, ih]
      rfl
    · rw [hf, Option.toList_some, carried_snoc, ih]
      rfl
    · rw [hf, Option.toList_none, List.append_nil, ih]

theorem halfClosed_carried (fs : List Frame) : HalfClosed (carried fs) ↔ HalfClosed fs := by
  induction fs using List.reverseRecOn with
  | nil => exact Iff.rfl
  | append_singleton fs f ih =>
    rw [carried_snoc, halfClosed_snoc]
    rcases f.carried_cases with ⟨htype, hf⟩ | ⟨htype, hf⟩ | ⟨-, hne, hf⟩
    · rw [hf, Option.toList_some, halfClosed_snoc, ih, htype]
      refine or_congr_right (iff_of_false ?_ ?_)
      · rintro ⟨⟩
      · rintro ⟨⟩
    · rw [hf, Option.toList_some, halfClosed_snoc, ih]
      exact or_congr_right (iff_of_true rfl htype)
    · rw [hf, Option.toList_none, List.append_nil, ih]
      exact (or_iff_left hne).symm

theorem flows_carried (h : Flows fs) : Flows (carried fs) := by
  induction fs using List.reverseRecOn with
  | nil => exact flows_nil
  | append_singleton fs f ih =>
    obtain ⟨hflows, hends⟩ := flows_snoc.mp h
    have hopen : ¬ HalfClosed (carried fs) := fun hc =>
      hends (.inr (.inr ((halfClosed_carried fs).mp hc)))
    rw [carried_snoc]
    rcases f.carried_cases with ⟨-, hf⟩ | ⟨-, hf⟩ | ⟨-, -, hf⟩
    · rw [hf, Option.toList_some, flows_snoc]
      exact ⟨ih hflows, not_ends hopen (by simp [Frame.ofData])⟩
    · rw [hf, Option.toList_some, flows_snoc]
      exact ⟨ih hflows, not_ends hopen (by simp [Frame.halfClose])⟩
    · rw [hf, Option.toList_none, List.append_nil]
      exact ih hflows

/-! ### The normal form -/

theorem NormalForm.unique (h : NormalForm fs err out r) (h' : NormalForm fs err out' r') : out = out' := by
  obtain ⟨taken, rest, hcut, rfl, -⟩ := h
  obtain ⟨taken', rest', hcut', rfl, -⟩ := h'
  obtain ⟨rfl, rfl⟩ := hcut.unique hcut'
  rfl

theorem cleanEnd_iff (h : Flows taken) :
    cleanEnd taken rest err = true ↔ rest = [] ∧ err.is .eof = true ∧ HalfClosed taken := by
  rw [cleanEnd, Bool.and_eq_true, Bool.and_eq_true, h.last_iff, List.isEmpty_iff, and_assoc]

theorem NormalForm.again (h : NormalForm fs err out r) : ∃ r', NormalForm out .eof out r' := by
  obtain ⟨taken, rest, hcut, rfl, -⟩ := h
  have hflows := flows_carried hcut.flows
  by_cases hclean : cleanEnd taken rest err = true
  · obtain ⟨-, -, hhalf⟩ := (cleanEnd_iff hcut.flows).mp hclean
    have hagain : cleanEnd (carried taken) [] .eof = true :=
      (cleanEnd_iff hflows).mpr ⟨rfl, rfl, (halfClosed_carried taken).mpr hhalf⟩
    rw [if_pos hclean, List.append_nil]
    refine ⟨none, carried taken, [], ⟨(List.append_nil _).symm, hflows, ?_⟩, ?_, iff_of_true rfl hagain⟩
    · rintro f after ⟨⟩
    · rw [if_pos hagain, List.append_nil, carried_carried]
  · rw [if_neg hclean]
    refine ⟨some errReset, carried taken, [.reset], ⟨rfl, hflows, fun f after hrest => ?_⟩, ?_, ?_⟩
    · rw [← (List.cons.inj hrest).1]
      exact .inl rfl
    · rw [carried_carried]
      rfl
    · exact iff_of_false (Option.some_ne_none _) Bool.false_ne_true

/-! ### Runs -/

def DirectionLabel.Succeeds : DirectionLabel → Prop
  | .send err => err = none
  | .recv _ | .recvErr _ => True

instance : (l : DirectionLabel) → Decidable l.Succeeds
  | .send err => inferInstanceAs (Decidable (err = none))
  | .recv _ | .recvErr _ => isTrue trivial

def reads (ls : List DirectionLabel) : List (Except GoError Frame) := ls.filterMap DirectionLabel.incoming

namespace Direction

def Relays (fs : List Frame) (err : GoError) (out : List Frame) (r : Option GoError) : Prop :=
  ∃ ls d, Lts.Run step (fun _ l => l.Succeeds) (init []) ls d ∧
    reads ls <+: fs.map .ok ++ [.error err] ∧ d.pc = .done r ∧ d.sent = out

def Broken (ls : List DirectionLabel) (rcvd out : List Frame) : Prop :=
  (∃ before f, reads ls = rcvd.map .ok ∧ rcvd = before ++ [f] ∧ Flows before ∧ Ends before f ∧
    out = carried before) ∨
  ∃ err, reads ls = rcvd.map .ok ++ [.error err] ∧ Flows rcvd ∧
    ¬ (err.is .eof = true ∧ HalfClosed rcvd) ∧ out = carried rcvd

def Progress (ls : List DirectionLabel) (d : Direction) : Prop :=
  match d.pc with
  | .recv halfClosed => reads ls = d.rcvd.map .ok ∧ Flows d.rcvd ∧
      (halfClosed = true ↔ HalfClosed d.rcvd) ∧ d.sent = carried d.rcvd
  | .forwardData data => reads ls = d.rcvd.map .ok ∧ Flows d.rcvd ∧ ¬ HalfClosed d.rcvd ∧
      d.sent ++ [.ofData data] = carried d.rcvd
  | .forwardHalfClose => reads ls = d.rcvd.map .ok ∧ Flows d.rcvd ∧ HalfClosed d.rcvd ∧
      d.sent ++ [.halfClose] = carried d.rcvd
  | .forwardReset | .sendReset _ => Broken ls d.rcvd d.sent
  | .done none => ∃ err, reads ls = d.rcvd.map .ok ++ [.error err] ∧ Flows d.rcvd ∧
      (err.is .eof = true ∧ HalfClosed d.rcvd) ∧ d.sent = carried d.rcvd
  | .done (some _) => ∃ out, d.sent = out ++ [.reset] ∧ Broken ls d.rcvd out

theorem reads_append (ls ms : List DirectionLabel) : reads (ls ++ ms) = reads ls ++ reads ms :=
  List.filterMap_append

theorem reads_snoc (ls : List DirectionLabel) (l : DirectionLabel) :
    reads (ls ++ [l]) = reads ls ++ l.incoming.toList := by
  rw [reads_append]
  cases l <;> rfl

theorem onFrame_cases {halfClosed : Bool} (h : halfClosed = true ↔ HalfClosed before) (f : Frame) :
    (Ends before f ∧ (onFrame halfClosed f = .forwardReset ∨
      ∃ cause, onFrame halfClosed f = .sendReset cause)) ∨
    (¬ Ends before f ∧ ¬ HalfClosed before ∧
      ((f.type = .data ∧ onFrame halfClosed f = .forwardData f.data) ∨
        (f.type = .halfClose ∧ onFrame halfClosed f = .forwardHalfClose) ∨
        (f.type ≠ .halfClose ∧ f.carried = none ∧ onFrame halfClosed f = .recv false))) := by
  cases halfClosed with
  | true =>
    refine .inl ⟨.inr (.inr (h.mp rfl)), ?_⟩
    by_cases htype : f.type = .reset
    · left
      rw [onFrame, if_neg fun hc => hc.2 htype, htype]
    · exact .inr ⟨_, if_pos ⟨rfl, htype⟩⟩
  | false =>
    have hopen : ¬ HalfClosed before := fun hc => Bool.false_ne_true (h.mpr hc)
    have hguard : ¬ (false = true ∧ f.type ≠ .reset) := fun hc => Bool.false_ne_true hc.1
    rw [onFrame, if_neg hguard]
    rw [Frame.carried]
    cases htype : f.type with
    | data => exact .inr ⟨not_ends hopen (by simp [htype]), hopen, .inl ⟨rfl, rfl⟩⟩
    | halfClose => exact .inr ⟨not_ends hopen (by simp [htype]), hopen, .inr (.inl ⟨rfl, rfl⟩)⟩
    | «open» | ready =>
      refine .inr ⟨not_ends hopen (by simp [htype]), hopen, .inr (.inr ⟨?_, rfl, rfl⟩)⟩
      rintro ⟨⟩
    | reset => exact .inl ⟨.inl htype, .inl rfl⟩
    | unknown code => exact .inl ⟨.inr (.inl ⟨code, htype⟩), .inr ⟨_, rfl⟩⟩

theorem Progress.recv {ls : List DirectionLabel} {d : Direction} {halfClosed : Bool}
    (hi : Progress ls d) (hpc : d.pc = .recv halfClosed) (f : Frame) :
    Progress (ls ++ [.recv f]) { d with pc := onFrame halfClosed f, rcvd := d.rcvd ++ [f] } := by
  simp only [Progress, hpc] at hi
  obtain ⟨hreads, hflows, hhalf, hsent⟩ := hi
  have hnext : reads (ls ++ [.recv f]) = (d.rcvd ++ [f]).map .ok := by
    rw [reads_snoc, hreads, List.map_append]
    rfl
  rcases onFrame_cases hhalf f with ⟨hends, hon⟩ | ⟨hends, hopen, hon⟩
  · have hbroken : Broken (ls ++ [.recv f]) (d.rcvd ++ [f]) d.sent :=
      .inl ⟨d.rcvd, f, hnext, rfl, hflows, hends, hsent⟩
    rcases hon with hon | ⟨cause, hon⟩
    · simpa only [Progress, hon] using hbroken
    · simpa only [Progress, hon] using hbroken
  · have hmore : Flows (d.rcvd ++ [f]) := flows_snoc.mpr ⟨hflows, hends⟩
    rcases hon with ⟨htype, hon⟩ | ⟨htype, hon⟩ | ⟨htype, hskip, hon⟩
    · simp only [Progress, hon]
      refine ⟨hnext, hmore, ?_, ?_⟩
      · rw [halfClosed_snoc, htype]
        rintro (hc | ⟨⟨⟩⟩)
        exact hopen hc
      · rw [carried_snoc, hsent, Frame.carried, htype]
        rfl
    · simp only [Progress, hon]
      refine ⟨hnext, hmore, halfClosed_snoc.mpr (.inr htype), ?_⟩
      rw [carried_snoc, hsent, Frame.carried, htype]
      rfl
    · simp only [Progress, hon]
      refine ⟨hnext, hmore, ?_, ?_⟩
      · rw [halfClosed_snoc]
        exact iff_of_false Bool.false_ne_true (not_or.mpr ⟨hopen, htype⟩)
      · rw [carried_snoc, hsent, hskip, Option.toList_none, List.append_nil]

theorem Progress.recvErr {ls : List DirectionLabel} {d : Direction} {halfClosed : Bool}
    (hi : Progress ls d) (hpc : d.pc = .recv halfClosed) (err : GoError) :
    Progress (ls ++ [.recvErr err]) { d with pc := onRecvErr halfClosed err } := by
  simp only [Progress, hpc] at hi
  obtain ⟨hreads, hflows, hhalf, hsent⟩ := hi
  have hnext : reads (ls ++ [.recvErr err]) = d.rcvd.map .ok ++ [.error err] := by
    rw [reads_snoc, hreads]
    rfl
  by_cases hclean : (halfClosed && err.is .eof) = true
  · simp only [Progress, onRecvErr, if_pos hclean]
    obtain ⟨hc, heof⟩ := Bool.and_eq_true_iff.mp hclean
    exact ⟨err, hnext, hflows, ⟨heof, hhalf.mp hc⟩, hsent⟩
  · simp only [Progress, onRecvErr, if_neg hclean]
    refine .inr ⟨err, hnext, hflows, ?_, hsent⟩
    rintro ⟨heof, hc⟩
    exact hclean (Bool.and_eq_true_iff.mpr ⟨hhalf.mpr hc, heof⟩)

theorem Progress.send {ls : List DirectionLabel} {d : Direction} {frame : Frame} (hi : Progress ls d)
    (hout : output d.pc = some frame) :
    Progress (ls ++ [.send none]) { d with pc := afterSend d.pc none, sent := d.sent ++ [frame] } := by
  have hreads : reads (ls ++ [.send none]) = reads ls := by
    rw [reads_snoc]
    exact List.append_nil _
  have hbroken : ∀ out, Broken ls d.rcvd out → Broken (ls ++ [.send none]) d.rcvd out := by
    intro out h
    unfold Broken at h ⊢
    rwa [hreads]
  cases hpc : d.pc with
  | recv halfClosed | done r =>
    rw [hpc] at hout
    cases hout
  | forwardData data =>
    rw [hpc] at hout
    obtain rfl := Option.some.inj hout
    simp only [Progress, hpc] at hi
    obtain ⟨hold, hflows, hopen, hsent⟩ := hi
    simp only [Progress, afterSend]
    exact ⟨hreads.trans hold, hflows, iff_of_false Bool.false_ne_true hopen, hsent⟩
  | forwardHalfClose =>
    rw [hpc] at hout
    obtain rfl := Option.some.inj hout
    simp only [Progress, hpc] at hi
    obtain ⟨hold, hflows, hhalf, hsent⟩ := hi
    simp only [Progress, afterSend]
    exact ⟨hreads.trans hold, hflows, iff_of_true trivial hhalf, hsent⟩
  | forwardReset | sendReset cause =>
    rw [hpc] at hout
    obtain rfl := Option.some.inj hout
    simp only [Progress, hpc] at hi
    simp only [Progress, afterSend]
    exact ⟨d.sent, rfl, hbroken _ hi⟩

theorem Progress.step {ls : List DirectionLabel} {d d' : Direction} {l : DirectionLabel}
    (hi : Progress ls d) (hok : l.Succeeds) (h : d.step l = some d') : Progress (ls ++ [l]) d' := by
  obtain ⟨f, halfClosed, rfl, hpc, rfl⟩ | ⟨err, halfClosed, rfl, hpc, rfl⟩ | ⟨err, frame, rfl, hout, rfl⟩ :=
    step_cases h
  · exact hi.recv hpc f
  · exact hi.recvErr hpc err
  · obtain rfl : err = none := hok
    exact hi.send hout

theorem progress_of_run {ls : List DirectionLabel} {d : Direction}
    (h : Lts.Run step (fun _ l => l.Succeeds) (init []) ls d) : Progress ls d := by
  refine h.history (I := Progress) (fun _ _ _ _ hi hok hs => hi.step hok hs) ⟨rfl, flows_nil, ?_, rfl⟩
  refine iff_of_false Bool.false_ne_true ?_
  rintro ⟨g, hg, -⟩
  exact absurd hg List.not_mem_nil

/-! ### What a direction relays -/

theorem eq_of_reads {rcvd : List Frame} {err' : GoError}
    (h : rcvd.map Except.ok ++ [.error err'] <+: fs.map Except.ok ++ [.error err]) :
    rcvd = fs ∧ err' = err := by
  induction rcvd generalizing fs with
  | nil =>
    cases fs with
    | nil => exact ⟨rfl, Except.error.inj (List.cons_prefix_cons.mp h).1⟩
    | cons f fs => cases (List.cons_prefix_cons.mp h).1
  | cons g rcvd ih =>
    cases fs with
    | nil => cases (List.cons_prefix_cons.mp h).1
    | cons f fs =>
      obtain ⟨hhead, htail⟩ := List.cons_prefix_cons.mp h
      obtain ⟨rfl, rfl⟩ := ih htail
      obtain rfl := Except.ok.inj hhead
      exact ⟨rfl, rfl⟩

theorem isPrefix_of_reads {rcvd : List Frame}
    (h : rcvd.map Except.ok <+: fs.map Except.ok ++ [Except.error err]) : rcvd <+: fs := by
  induction rcvd generalizing fs with
  | nil => exact List.nil_prefix
  | cons g rcvd ih =>
    cases fs with
    | nil => cases (List.cons_prefix_cons.mp h).1
    | cons f fs =>
      obtain ⟨hhead, htail⟩ := List.cons_prefix_cons.mp h
      exact List.cons_prefix_cons.mpr ⟨Except.ok.inj hhead, ih htail⟩

theorem Broken.normalForm {ls : List DirectionLabel} {rcvd : List Frame} {cause : GoError}
    (h : Broken ls rcvd out) (hreads : reads ls <+: fs.map .ok ++ [.error err]) :
    NormalForm fs err (out ++ [.reset]) (some cause) := by
  obtain ⟨before, f, hls, rfl, hflows, hends, rfl⟩ | ⟨err', hls, hflows, hclean, rfl⟩ := h
  · rw [hls] at hreads
    obtain ⟨after, rfl⟩ := isPrefix_of_reads hreads
    refine ⟨before, f :: after, ⟨?_, hflows, fun g after' hg => ?_⟩, rfl, ?_⟩
    · rw [List.append_assoc]
      rfl
    · rwa [← (List.cons.inj hg).1]
    · exact iff_of_false (Option.some_ne_none _) Bool.false_ne_true
  · rw [hls] at hreads
    obtain ⟨rfl, rfl⟩ := eq_of_reads hreads
    have hnot : ¬ cleanEnd rcvd [] err' = true := fun hc =>
      hclean ((cleanEnd_iff hflows).mp hc).2
    refine ⟨rcvd, [], ⟨(List.append_nil _).symm, hflows, ?_⟩, ?_, ?_⟩
    · rintro g after ⟨⟩
    · rw [if_neg hnot]
    · exact iff_of_false (Option.some_ne_none _) hnot

theorem Relays.normalForm (h : Relays fs err out r) : NormalForm fs err out r := by
  obtain ⟨ls, d, hrun, hreads, hpc, rfl⟩ := h
  have hi := progress_of_run hrun
  cases r with
  | some cause =>
    simp only [Progress, hpc] at hi
    obtain ⟨out, hsent, hbroken⟩ := hi
    rw [hsent]
    exact hbroken.normalForm hreads
  | none =>
    simp only [Progress, hpc] at hi
    obtain ⟨err', hls, hflows, hclean, hsent⟩ := hi
    rw [hls] at hreads
    obtain ⟨rfl, rfl⟩ := eq_of_reads hreads
    have hend : cleanEnd d.rcvd [] err' = true := (cleanEnd_iff hflows).mpr ⟨rfl, hclean⟩
    refine ⟨d.rcvd, [], ⟨(List.append_nil _).symm, hflows, ?_⟩, ?_, iff_of_true rfl hend⟩
    · rintro g after ⟨⟩
    · rw [if_pos hend, List.append_nil, hsent]

theorem exists_turn (d : Direction) : ∃ ls d', Lts.Run step (fun _ l => l.Succeeds) d ls d' ∧
    reads ls = [] ∧ ((∃ halfClosed, d'.pc = .recv halfClosed) ∨ ∃ r, d'.pc = .done r) := by
  have hsend : ∀ frame, output d.pc = some frame → Lts.Run step (fun _ l => l.Succeeds) d [.send none]
      { d with pc := afterSend d.pc none, sent := d.sent ++ [frame] } := by
    intro frame hout
    refine Lts.Run.snoc .nil rfl ?_
    rw [step, hout]
    rfl
  cases hpc : d.pc with
  | recv halfClosed => exact ⟨[], d, .nil, rfl, .inl ⟨halfClosed, hpc⟩⟩
  | done r => exact ⟨[], d, .nil, rfl, .inr ⟨r, hpc⟩⟩
  | forwardData data =>
    refine ⟨_, _, hsend (.ofData data) (by rw [hpc]; rfl), rfl, .inl ⟨false, ?_⟩⟩
    rw [hpc]
    rfl
  | forwardHalfClose =>
    refine ⟨_, _, hsend .halfClose (by rw [hpc]; rfl), rfl, .inl ⟨true, ?_⟩⟩
    rw [hpc]
    rfl
  | forwardReset =>
    refine ⟨_, _, hsend .reset (by rw [hpc]; rfl), rfl, .inr ⟨some errReset, ?_⟩⟩
    rw [hpc]
    rfl
  | sendReset cause =>
    refine ⟨_, _, hsend .reset (by rw [hpc]; rfl), rfl, .inr ⟨some cause, ?_⟩⟩
    rw [hpc]
    rfl

theorem exists_return {d : Direction} {halfClosed : Bool} (hpc : d.pc = .recv halfClosed) (err : GoError) :
    ∃ ls d' r, Lts.Run step (fun _ l => l.Succeeds) d ls d' ∧ reads ls = [.error err] ∧ d'.pc = .done r := by
  have hread : d.step (.recvErr err) = some { d with pc := onRecvErr halfClosed err } := by
    rw [step, hpc]
  by_cases hclean : (halfClosed && err.is .eof) = true
  · exact ⟨[.recvErr err], _, none, .snoc .nil trivial hread, rfl, if_pos hclean⟩
  · rw [onRecvErr, if_neg hclean] at hread
    exact ⟨[.recvErr err, .send none], _, _, .cons trivial hread (.snoc .nil rfl rfl), rfl, rfl⟩

/-- The loop returns: every turn takes a frame, and the source ends. -/
theorem exists_run (fs : List Frame) (err : GoError) {d : Direction} {halfClosed : Bool}
    (hpc : d.pc = .recv halfClosed) : ∃ ls d' r, Lts.Run step (fun _ l => l.Succeeds) d ls d' ∧
      reads ls <+: fs.map .ok ++ [.error err] ∧ d'.pc = .done r := by
  induction fs generalizing d halfClosed with
  | nil =>
    obtain ⟨ls, d', r, hrun, hreads, hdone⟩ := exists_return hpc err
    exact ⟨ls, d', r, hrun, hreads ▸ List.prefix_rfl, hdone⟩
  | cons f fs ih =>
    have hread : d.step (.recv f) =
        some { d with pc := onFrame halfClosed f, rcvd := d.rcvd ++ [f] } := by
      rw [step, hpc]
    obtain ⟨ms, d₁, hturn, hms, ⟨halfClosed', hrecv⟩ | ⟨r, hdone⟩⟩ := exists_turn
      { d with pc := onFrame halfClosed f, rcvd := d.rcvd ++ [f] }
    · obtain ⟨ls, d', r, hrun, hreads, hdone⟩ := ih hrecv
      refine ⟨.recv f :: (ms ++ ls), d', r, .cons trivial hread (hturn.trans hrun), ?_, hdone⟩
      show .ok f :: reads (ms ++ ls) <+: .ok f :: (fs.map .ok ++ [.error err])
      rw [reads_append, hms, List.nil_append]
      exact List.cons_prefix_cons.mpr ⟨rfl, hreads⟩
    · refine ⟨.recv f :: ms, d₁, r, .cons trivial hread hturn, ?_, hdone⟩
      show .ok f :: reads ms <+: .ok f :: (fs.map .ok ++ [.error err])
      rw [hms]
      exact List.cons_prefix_cons.mpr ⟨rfl, List.nil_prefix⟩

theorem exists_relays (fs : List Frame) (err : GoError) : ∃ out r, Relays fs err out r := by
  obtain ⟨ls, d, r, hrun, hreads, hdone⟩ := exists_run fs err (d := init []) rfl
  exact ⟨d.sent, r, ls, d, hrun, hreads, hdone, rfl⟩

/-- Every direction returns with the normal form of its input, and relaying that once more changes nothing. -/
theorem relays_normal_form (fs : List Frame) (err : GoError) :
    (∃ out r, Relays fs err out r) ∧ ∀ out r, Relays fs err out r →
      NormalForm fs err out r ∧ (∃ r', Relays out .eof out r') ∧
        ∀ out' r', Relays out .eof out' r' → out' = out := by
  refine ⟨exists_relays fs err, fun out r h => ?_⟩
  obtain ⟨_, hagain⟩ := h.normalForm.again
  have hsame : ∀ out' r', Relays out .eof out' r' → out' = out := fun out' r' h' =>
    h'.normalForm.unique hagain
  refine ⟨h.normalForm, ?_, hsame⟩
  obtain ⟨out', r', h'⟩ := exists_relays out .eof
  obtain rfl := hsame out' r' h'
  exact ⟨r', h'⟩

/-- A frame after HALF_CLOSE: what came before it is relayed and a RESET is sent. -/
theorem relays_normal_form_late : ∃ r, Relays
    [{ type := .open }, .ofData [1], .halfClose, { type := .ready }, .ofData [2]] .eof
      [.ofData [1], .halfClose, .reset] r ∧
    ∀ out' r', Relays [.ofData [1], .halfClose, .reset] .eof out' r' →
      out' = [.ofData [1], .halfClose, .reset] := by
  let ls : List DirectionLabel := [.recv { type := .open }, .recv (.ofData [1]), .send none,
    .recv .halfClose, .send none, .recv { type := .ready }, .send none]
  let d := (Lts.execOk step (fun _ l => l.Succeeds) (init []) ls).get (by decide +kernel)
  have hrun := Lts.run_of_execOk (t := d) (Option.some_get _).symm
  have hrelays : Relays
      [{ type := .open }, .ofData [1], .halfClose, { type := .ready }, .ofData [2]] .eof
      [.ofData [1], .halfClose, .reset] (some (.new "frame type 4 after half-close")) :=
    ⟨ls, d, hrun, by decide +kernel, by decide +kernel, by decide +kernel⟩
  exact ⟨_, hrelays, ((relays_normal_form _ _).2 _ _ hrelays).2.2⟩

end Direction
end Hostlink.Tunnel
