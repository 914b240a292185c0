import Hostlink.Lib.GoError
import Hostlink.Lib.NamedFile
import Hostlink.Lib.Run
import Hostlink.Lib.Slots

/-! Uploads to one path: the handlers of any number of `fs.write` requests, from `writeFile` to the
deferred clean-up. `opens` records which requests opened the file, in order, and whether no other
request had it open then. -/

namespace Hostlink.Agent

abbrev Bytes := List UInt8

def errFsNotConfigured : GoError := .new "agent working directory is not configured"
def errPathEscapes : GoError := .new "path escapes the working directory"
def errNotExist : GoError := .new "file does not exist"
def errExist : GoError := .new "file already exists"

def fsErrorCode (err : GoError) : Nat :=
  if err.is errFsNotConfigured then 501
  else if err.is errPathEscapes then 400
  else if err.is errNotExist then 404
  else if err.is errExist then 409
  else 500

structure UploadChunk where
  data : Bytes
  last : Bool
  deriving DecidableEq, Repr

/-- The body that a sequence of chunks carries: everything up to the chunk marked last. -/
def fullBody : List UploadChunk → Bytes
  | [] => []
  | chunk :: chunks => if chunk.last then chunk.data else chunk.data ++ fullBody chunks

def hasLast (chunks : List UploadChunk) : Bool := chunks.any (·.last)

theorem hasLast_append (l m : List UploadChunk) : hasLast (l ++ m) = (hasLast l || hasLast m) :=
  List.any_append

theorem fullBody_append {l : List UploadChunk} (h : hasLast l = false) (m : List UploadChunk) :
    fullBody (l ++ m) = fullBody l ++ fullBody m := by
  induction l with
  | nil => rfl
  | cons chunk l ih =>
    rw [hasLast, List.any_cons, Bool.or_eq_false_iff] at h
    rw [List.cons_append, fullBody, fullBody, h.1, if_neg Bool.false_ne_true,
      if_neg Bool.false_ne_true, ih h.2, List.append_assoc]

structure FsWriteRequest where
  exclusive : Bool
  chunks : List UploadChunk
  deriving DecidableEq, Repr

inductive UploadPc where
  | prepare
  | openFile
  | consume (ino off : Nat) (chunks : List UploadChunk)
  | sync (ino : Nat)
  | close (committed : Bool) (code : Nat)
  | remove (code : Nat)
  | finished (code : Nat)
  deriving DecidableEq, Repr

/-- `kept` says that the deferred Remove failed. -/
structure Upload where
  req : FsWriteRequest
  pc : UploadPc := .prepare
  kept : Bool := false
  deriving DecidableEq, Repr

inductive UploadLabel where
  | invalid
  | prepare (err : Option GoError)
  | openFile (err : Option GoError)
  | ctxDone
  | idle
  | chunk (n : Nat) (err : Option GoError)
  | sync (err : Option GoError)
  | close
  | remove (err : Option GoError)
  deriving DecidableEq, Repr

def UploadPc.active : UploadPc → Bool
  | .consume _ _ _ | .sync _ | .close _ _ | .remove _ => true
  | .prepare | .openFile | .finished _ => false

def afterChunk (ino off : Nat) (chunk : UploadChunk) (chunks : List UploadChunk) :
    Option GoError → UploadPc
  | some err => .close false (fsErrorCode err)
  | none => if chunk.last then .sync ino else .consume ino off chunks

namespace Upload

def step (f : NamedFile) (u : Upload) : UploadLabel → Option (NamedFile × Upload)
  | .invalid =>
    match u.pc with
    | .prepare => some (f, { u with pc := .finished 400 })
    | _ => none
  | .prepare err =>
    match u.pc with
    | .prepare =>
      -- `resolve` and `MkdirAll`
      let pc := match err with
        | some err => UploadPc.finished (fsErrorCode err)
        | none => .openFile
      some (f, { u with pc := pc })
    | _ => none
  | .openFile err =>
    match u.pc, err with
    | .openFile, some err => some (f, { u with pc := .finished (fsErrorCode err) })
    | .openFile, none =>
      if u.req.exclusive then
        match f.openExcl with
        | some (ino, f) => some (f, { u with pc := .consume ino 0 u.req.chunks })
        | none => some (f, { u with pc := .finished (fsErrorCode errExist) })
      else some (f.openTrunc.2, { u with pc := .consume f.openTrunc.1 0 u.req.chunks })
    | _, _ => none
  | .ctxDone =>
    match u.pc with
    | .consume _ _ _ => some (f, { u with pc := .close false 500 })
    | _ => none
  | .idle =>
    match u.pc with
    | .consume _ _ _ => some (f, { u with pc := .close false 408 })
    | _ => none
  | .chunk n err =>
    match u.pc with
    | .consume ino off (chunk :: chunks) =>
      -- a write that does not fail is complete, and nothing is written for an empty chunk
      if n ≤ chunk.data.length ∧ (err = none → n = chunk.data.length) ∧
          (chunk.data = [] → err = none) then
        some (f.writeAt ino off (chunk.data.take n),
          { u with pc := afterChunk ino (off + n) chunk chunks err })
      else none
    | _ => none
  | .sync err =>
    match u.pc with
    | .sync _ =>
      let pc := match err with
        | some err => UploadPc.close false (fsErrorCode err)
        | none => .close true 201
      some (f, { u with pc := pc })
    | _ => none
  | .close =>
    match u.pc with
    | .close committed code =>
      some (f, { u with pc := if committed then .finished code else .remove code })
    | _ => none
  | .remove err =>
    match u.pc with
    | .remove code =>
      some (if err.isNone then f.remove else f,
        { u with pc := .finished code, kept := err.isSome })
    | _ => none

def Ok (f : NamedFile) (u : Upload) : Prop :=
  match u.pc with
  | .prepare | .openFile => False
  | .consume ino off chunks =>
    ∃ d, f.Holds ino d ∧ off = d.length ∧ d ++ fullBody chunks = fullBody u.req.chunks
  | .sync ino => f.Holds ino (fullBody u.req.chunks)
  | .close true code => code = 201 ∧ f.content = some (fullBody u.req.chunks)
  | .close false code | .remove code => code ≠ 201
  | .finished code => (code = 201 → f.content = some (fullBody u.req.chunks)) ∧
      (code ≠ 201 → u.kept = false → f.content = none)

end Upload

theorem fsErrorCode_ne (err : GoError) : fsErrorCode err ≠ 201 := by
  unfold fsErrorCode
  split_ifs <;> decide

namespace Upload
variable {f : NamedFile} {u : Upload} {l : UploadLabel} {r : NamedFile × Upload}

inductive Step (f : NamedFile) (u : Upload) : NamedFile × Upload → Prop
  | refused (code : Nat) (hpc : u.pc = .prepare ∨ u.pc = .openFile) :
      Step f u (f, { u with pc := .finished code })
  | prepared (hpc : u.pc = .prepare) : Step f u (f, { u with pc := .openFile })
  | opened (ino : Nat) (f' : NamedFile) (hpc : u.pc = .openFile) (hf : f'.Holds ino []) :
      Step f u (f', { u with pc := .consume ino 0 u.req.chunks })
  | aborted (code : Nat) (f' : NamedFile) (hactive : u.pc.active = true) (hcode : code ≠ 201) :
      Step f u (f', { u with pc := .close false code })
  | wrote (ino off : Nat) (chunk : UploadChunk) (chunks : List UploadChunk)
      (hpc : u.pc = .consume ino off (chunk :: chunks)) :
      Step f u (f.writeAt ino off chunk.data,
        { u with pc := afterChunk ino (off + chunk.data.length) chunk chunks none })
  | synced (ino : Nat) (hpc : u.pc = .sync ino) : Step f u (f, { u with pc := .close true 201 })
  | closed (committed : Bool) (code : Nat) (hpc : u.pc = .close committed code) :
      Step f u (f, { u with pc := if committed then .finished code else .remove code })
  | removed (code : Nat) (err : Option GoError) (hpc : u.pc = .remove code) :
      Step f u (if err.isNone then f.remove else f,
        { u with pc := .finished code, kept := err.isSome })

theorem active_of_eq {pc : UploadPc} (hpc : u.pc = pc) (h : pc.active = true) :
    u.pc.active = true := by
  rw [hpc, h]

theorem step_cases (h : u.step f l = some r) : Step f u r := by
  cases l with
  | invalid =>
    simp only [step] at h
    split at h
    · next hpc =>
      cases h
      exact .refused _ (.inl hpc)
    · cases h
  | prepare err =>
    simp only [step] at h
    split at h
    · next hpc =>
      cases h
      cases err with
      | some err => exact .refused _ (.inl hpc)
      | none => exact .prepared hpc
    · cases h
  | openFile err =>
    simp only [step] at h
    split at h
    · next hpc =>
      cases h
      exact .refused _ (.inr hpc)
    · next hpc =>
      split at h
      · split at h
        · next ino f' hopen =>
          cases h
          exact .opened ino f' hpc (NamedFile.openExcl_holds hopen)
        · cases h
          exact .refused _ (.inr hpc)
      · cases h
        exact .opened _ _ hpc f.openTrunc_holds
    · cases h
  | ctxDone | idle =>
    simp only [step] at h
    split at h
    · next hpc =>
      cases h
      exact .aborted _ _ (active_of_eq hpc rfl) (by decide)
    · cases h
  | chunk n err =>
    simp only [step] at h
    split at h
    · next ino off chunk chunks hpc =>
      split at h
      · next hn =>
        cases h
        cases err with
        | some err => exact .aborted _ _ (active_of_eq hpc rfl) (fsErrorCode_ne err)
        | none =>
          obtain rfl : n = chunk.data.length := hn.2.1 rfl
          rw [List.take_length]
          exact .wrote ino off chunk chunks hpc
      · cases h
    · cases h
  | sync err =>
    simp only [step] at h
    split at h
    · next ino hpc =>
      cases h
      cases err with
      | some err => exact .aborted _ _ (active_of_eq hpc rfl) (fsErrorCode_ne err)
      | none => exact .synced ino hpc
    · cases h
  | close =>
    simp only [step] at h
    split at h
    · next committed code hpc =>
      cases h
      exact .closed committed code hpc
    · cases h
  | remove err =>
    simp only [step] at h
    split at h
    · next code hpc =>
      cases h
      exact .removed code err hpc
    · cases h

theorem step_req (h : u.step f l = some r) : r.2.req = u.req := by
  cases step_cases h <;> rfl

theorem step_inactive (h : u.step f l = some r) (hu : u.pc.active = false) :
    (r.2.pc.active = false ∧ r.1 = f) ∨ (r.2.pc.active = true ∧ r.2.Ok r.1) := by
  cases step_cases h with
  | refused | prepared => exact .inl ⟨rfl, rfl⟩
  | opened ino f' hpc hf => exact .inr ⟨rfl, [], hf, rfl, rfl⟩
  | aborted code f' hactive =>
    rw [hactive] at hu
    cases hu
  | wrote _ _ _ _ hpc | synced _ hpc | closed _ _ hpc | removed _ _ hpc =>
    rw [hpc] at hu
    cases hu

theorem ok_wrote {ino : Nat} {d : Bytes} {chunk : UploadChunk} {chunks : List UploadChunk}
    (hd : f.Holds ino d) (hbody : d ++ fullBody (chunk :: chunks) = fullBody u.req.chunks) :
    Ok (f.writeAt ino d.length chunk.data)
      { u with pc := afterChunk ino (d.length + chunk.data.length) chunk chunks none } := by
  have hholds := hd.writeAt chunk.data
  rw [fullBody] at hbody
  simp only [afterChunk]
  split
  · next hlast =>
    rw [if_pos hlast] at hbody
    change NamedFile.Holds _ ino (fullBody u.req.chunks)
    rwa [← hbody]
  · next hlast =>
    rw [if_neg hlast, ← List.append_assoc] at hbody
    exact ⟨_, hholds, by rw [List.length_append], hbody⟩

theorem step_ok (hok : u.Ok f) (h : u.step f l = some r) : r.2.Ok r.1 := by
  unfold Ok at hok
  cases step_cases h with
  | refused code hpc =>
    obtain hpc | hpc := hpc
    · rw [hpc] at hok
      exact hok.elim
    · rw [hpc] at hok
      exact hok.elim
  | prepared hpc | opened _ _ hpc =>
    rw [hpc] at hok
    exact hok.elim
  | aborted code f' hactive hcode => exact hcode
  | wrote ino off chunk chunks hpc =>
    rw [hpc] at hok
    obtain ⟨d, hd, rfl, hbody⟩ := hok
    exact ok_wrote hd hbody
  | synced ino hpc =>
    rw [hpc] at hok
    exact ⟨rfl, hok.content⟩
  | closed committed code hpc =>
    rw [hpc] at hok
    cases committed with
    | true => exact ⟨fun _ => hok.2, fun hne => absurd hok.1 hne⟩
    | false => exact hok
  | removed code err hpc =>
    rw [hpc] at hok
    refine ⟨fun heq => absurd heq hok, fun _ hkept => ?_⟩
    cases err with
    | some err => cases hkept
    | none => rfl

end Upload

structure UploadDir where
  file : NamedFile
  uploads : List Upload
  opens : List (Nat × Bool) := []

namespace UploadDir

def Idle (s : UploadDir) : Prop := ∀ u ∈ s.uploads, u.pc.active = false

instance (s : UploadDir) : Decidable s.Idle :=
  inferInstanceAs (Decidable (∀ u ∈ s.uploads, u.pc.active = false))

def opened (s : UploadDir) (i : Nat) (u u' : Upload) : List (Nat × Bool) :=
  if u.pc.active = false ∧ u'.pc.active = true then [(i, decide s.Idle)] else []

def step (s : UploadDir) (l : Nat × UploadLabel) : Option UploadDir :=
  (s.uploads[l.1]?).bind fun u => (u.step s.file l.2).map fun r =>
    { file := r.1
      uploads := s.uploads.set l.1 r.2
      opens := s.opens ++ s.opened l.1 u r.2 }

def init (before : Option Bytes) (reqs : List FsWriteRequest) : UploadDir where
  file := .ofContent before
  uploads := reqs.map fun req => { req := req }

theorem step_cases {s t : UploadDir} {l : Nat × UploadLabel} (h : s.step l = some t) :
    ∃ u r, s.uploads[l.1]? = some u ∧ u.step s.file l.2 = some r ∧
      t = { file := r.1
            uploads := s.uploads.set l.1 r.2
            opens := s.opens ++ s.opened l.1 u r.2 } := by
  obtain ⟨u, hu, h⟩ := Option.bind_eq_some_iff.mp h
  obtain ⟨r, hr, rfl⟩ := Option.map_eq_some_iff.mp h
  exact ⟨u, r, hu, hr, rfl⟩

structure Inv (before : Option Bytes) (reqs : List FsWriteRequest) (s : UploadDir) : Prop where
  reqs : s.uploads.map Upload.req = reqs
  untouched : s.opens = [] → s.file.content = before ∧ s.Idle
  alone : ∀ i, s.opens.getLast? = some (i, true) →
    (∃ u, s.uploads[i]? = some u ∧ u.Ok s.file) ∧
      ∀ (j : Nat) (v : Upload), s.uploads[j]? = some v → j ≠ i → v.pc.active = false

theorem init_inv (before : Option Bytes) (reqs : List FsWriteRequest) :
    (init before reqs).Inv before reqs where
  reqs := by
    rw [init, List.map_map]
    exact List.map_id reqs
  untouched := fun _ => by
    refine ⟨NamedFile.content_ofContent before, fun u hu => ?_⟩
    obtain ⟨req, -, rfl⟩ := List.mem_map.mp hu
    rfl
  alone := fun i h => by cases h

section Step
variable {before : Option Bytes} {reqs : List FsWriteRequest} {s : UploadDir} {i : Nat} {u : Upload}
  {l : UploadLabel} {r : NamedFile × Upload}

theorem opening_inv (hi : s.Inv before reqs) (hu : s.uploads[i]? = some u)
    (h : u.step s.file l = some r) (hok : r.2.Ok r.1) :
    Inv before reqs ⟨r.1, s.uploads.set i r.2, s.opens ++ [(i, decide s.Idle)]⟩ where
  reqs := (List.map_set_of_eq hu (Upload.step_req h)).trans hi.reqs
  untouched := fun hnil => absurd hnil (List.append_ne_nil_of_right_ne_nil _ (List.cons_ne_nil _ _))
  alone := fun k hk => by
    rw [List.getLast?_concat, Option.some.injEq, Prod.mk.injEq, decide_eq_true_eq] at hk
    obtain ⟨rfl, hidle⟩ := hk
    refine ⟨⟨r.2, List.getElem?_set_self (List.getElem?_eq_some_iff.mp hu).1, hok⟩, ?_⟩
    intro j v hv hj
    obtain ⟨-, hv⟩ | ⟨rfl, -⟩ := List.getElem?_of_set hv
    · exact hidle v (List.mem_of_getElem? hv)
    · exact absurd rfl hj

theorem other_inv (hi : s.Inv before reqs) (hu : s.uploads[i]? = some u)
    (h : u.step s.file l = some r)
    (hno : u.pc.active = true ∨ (r.2.pc.active = false ∧ r.1 = s.file)) :
    Inv before reqs ⟨r.1, s.uploads.set i r.2, s.opens⟩ where
  reqs := (List.map_set_of_eq hu (Upload.step_req h)).trans hi.reqs
  untouched := fun hnil => by
    obtain ⟨hcontent, hidle⟩ := hi.untouched hnil
    obtain hact | ⟨hr, hfile⟩ := hno
    · rw [hidle u (List.mem_of_getElem? hu)] at hact
      cases hact
    · refine ⟨hfile ▸ hcontent, fun v hv => ?_⟩
      obtain hv | rfl := List.mem_or_eq_of_mem_set hv
      · exact hidle v hv
      · exact hr
  alone := fun k hk => by
    obtain ⟨⟨w, hw, hok⟩, halone⟩ := hi.alone k hk
    by_cases hik : i = k
    · subst hik
      obtain rfl := Option.some.inj (hu.symm.trans hw)
      refine ⟨⟨r.2, List.getElem?_set_self (List.getElem?_eq_some_iff.mp hu).1,
        Upload.step_ok hok h⟩, fun j v hv hj => ?_⟩
      obtain ⟨-, hv⟩ | ⟨rfl, -⟩ := List.getElem?_of_set hv
      · exact halone j v hv hj
      · exact absurd rfl hj
    · -- the handler that takes the step does not have the file
      have hin : u.pc.active = false := halone i u hu hik
      obtain hact | ⟨hr, hfile⟩ := hno
      · rw [hin] at hact
        cases hact
      · refine ⟨⟨w, ?_, hfile ▸ hok⟩, fun j v hv hj => ?_⟩
        · rw [List.getElem?_set_ne hik]
          exact hw
        · obtain ⟨-, hv⟩ | ⟨-, rfl⟩ := List.getElem?_of_set hv
          · exact halone j v hv hj
          · exact hr

theorem step_inv {t : UploadDir} {l : Nat × UploadLabel} (hi : s.Inv before reqs)
    (h : s.step l = some t) : t.Inv before reqs := by
  obtain ⟨u, r, hu, hr, rfl⟩ := step_cases h
  cases hact : u.pc.active with
  | true =>
    have hopened : s.opened l.1 u r.2 = [] := if_neg fun hc => by simp [hact] at hc
    rw [hopened, List.append_nil]
    exact other_inv hi hu hr (.inl hact)
  | false =>
    obtain hstay | ⟨hnow, hok⟩ := Upload.step_inactive hr hact
    · have hopened : s.opened l.1 u r.2 = [] := if_neg fun hc => by simp [hstay.1] at hc
      rw [hopened, List.append_nil]
      exact other_inv hi hu hr (.inr hstay)
    · have hopened : s.opened l.1 u r.2 = [(l.1, decide s.Idle)] := if_pos ⟨hact, hnow⟩
      rw [hopened]
      exact opening_inv hi hu hr hok

end Step

/-- While no request has opened the file, the path holds what it held before. Once the request that
opened it last, with no other one under way, has finished, the path holds its full body if it was
answered 201; otherwise it does not exist, unless removing it failed. -/
theorem last_upload_of_run {before : Option Bytes} {reqs : List FsWriteRequest}
    {ls : List (Nat × UploadLabel)} {s : UploadDir} (h : Lts.AnyRun step (init before reqs) ls s) :
    s.uploads.map Upload.req = reqs ∧
    (s.opens = [] → s.file.content = before) ∧
    ∀ i u, s.opens.getLast? = some (i, true) → s.uploads[i]? = some u →
      (u.pc = .finished 201 → s.file.content = some (fullBody u.req.chunks)) ∧
      ∀ code, u.pc = .finished code → code ≠ 201 → u.kept = false → s.file.content = none := by
  have hi : s.Inv before reqs :=
    h.invariant (fun _ _ _ hi _ hs => step_inv hi hs) (init_inv before reqs)
  refine ⟨hi.reqs, fun hnil => (hi.untouched hnil).1, fun i u hlast hu => ?_⟩
  obtain ⟨⟨v, hv, hok⟩, -⟩ := hi.alone i hlast
  obtain rfl := Option.some.inj (hu.symm.trans hv)
  unfold Upload.Ok at hok
  constructor
  · intro hpc
    rw [hpc] at hok
    exact hok.1 rfl
  · intro code hpc hne hkept
    rw [hpc] at hok
    exact hok.2 hne hkept

def retryAfterTimeout : List (Nat × UploadLabel) :=
  [(0, .prepare none), (0, .openFile none), (0, .chunk 1 none), (0, .idle), (0, .close),
    (0, .remove none), (1, .prepare none), (1, .openFile none), (1, .chunk 1 none),
    (1, .chunk 2 none), (1, .sync none), (1, .close)]

def helloRequest : FsWriteRequest := ⟨false, [⟨[1], false⟩, ⟨[2, 3], true⟩]⟩

theorem last_upload_of_run_retryAfterTimeout : ∃ s u,
    Lts.AnyRun step (init (some [9]) [helloRequest, helloRequest]) retryAfterTimeout s ∧
      s.opens.getLast? = some (1, true) ∧ s.uploads[1]? = some u ∧ u.pc = .finished 201 ∧
      s.file.content = some [1, 2, 3] := by
  let s := (Lts.exec step (init (some [9]) [helloRequest, helloRequest]) retryAfterTimeout).get
    (by decide +kernel)
  let u := (s.uploads[1]?).get (by decide +kernel)
  have hrun := Lts.anyRun_of_exec (t := s) (Option.some_get _).symm
  have hlast : s.opens.getLast? = some (1, true) := by decide +kernel
  have hu : s.uploads[1]? = some u := (Option.some_get _).symm
  have hpc : u.pc = .finished 201 := by decide +kernel
  have hreq : u.req = helloRequest := by decide +kernel
  have hcontent := ((last_upload_of_run hrun).2.2 1 u hlast hu).1 hpc
  rw [hreq] at hcontent
  exact ⟨s, u, hrun, hlast, hu, hpc, hcontent⟩

/-- One overwrite of an existing file is cancelled after the open: nothing was committed, and what
the path held before is gone. -/
theorem aborted_overwrite_loses_old : ∃ s,
    Lts.AnyRun step (init (some [9]) [helloRequest])
      [(0, .prepare none), (0, .openFile none), (0, .ctxDone), (0, .close), (0, .remove none)] s ∧
      s.uploads.map Upload.pc = [.finished 500] ∧ s.file.content = none := by
  let s := (Lts.exec step (init (some [9]) [helloRequest])
    [(0, .prepare none), (0, .openFile none), (0, .ctxDone), (0, .close), (0, .remove none)]).get
    (by decide +kernel)
  exact ⟨s, Lts.anyRun_of_exec (Option.some_get _).symm, by decide +kernel, by decide +kernel⟩

end UploadDir
end Hostlink.Agent
