import Hostlink.Agent.PathContainment
import Hostlink.Controller.Responses

/-! `fsUpload`: the parts of a multipart form are written one after the other, each to the path that
its filename makes in the requested directory. -/

namespace Hostlink.Controller
open Agent.Fs (resolve requested AbsClean OsState resolveDataDir)
open GoPath (Plain components push)

/-- `strings.ReplaceAll(s, "\\", "/")`. -/
def toSlashes (s : String) : String := String.ofList (s.toList.map fun c => if c = '\\' then '/' else c)

def joinFsPath (dir name : String) : String :=
  if dir = "" then name else String.ofList (dir.toList.rdropWhile (· = '/')) ++ "/" ++ name

def partName (fileName : String) : String := GoPath.base (toSlashes fileName)

structure FsWriteRequest where
  path : String
  exclusive : Bool
  deriving DecidableEq, Repr

structure UploadOutcome where
  name : String
  error : String := ""
  deriving DecidableEq, Repr

inductive UploadReply where
  | refused (response : HttpResponse)
  | outcomes (status : Nat) (written failed : List UploadOutcome)
  deriving DecidableEq, Repr

/-- What `NextPart` gives before the form ends, and what the write of a file came to. -/
inductive PartTurn where
  | failed
  | part (fileName : String) (reply : Except GoError AgentResult)

section Upload
variable (statusText : Nat → String) (dirPath : String) (exclusive : Bool)

def agentResultMessage (result : AgentResult) : String :=
  if result.error ≠ "" then result.error else statusText result.code

def uploadStatus (written failed : List UploadOutcome) : Nat :=
  if failed.length > 0 ∧ written.length = 0 then 409 else if failed.length > 0 then 207 else 201

/-- The loop of `fsUpload`, with the requests it dispatches. -/
def uploadParts : List PartTurn → List UploadOutcome → List UploadOutcome →
    UploadReply × List FsWriteRequest
  | [], written, failed => (.outcomes (uploadStatus written failed) written failed, [])
  | .failed :: _, _, _ => (.refused ⟨400, .error "read multipart form failed"⟩, [])
  | .part fileName reply :: turns, written, failed =>
    -- a form field that is no file
    if fileName = "" then uploadParts turns written failed
    else
      let name := partName fileName
      let request : FsWriteRequest := ⟨joinFsPath dirPath name, exclusive⟩
      match reply with
      | .error err => (.refused (mapDispatchError err), [request])
      | .ok result =>
        let r := if result.code = 201 ∨ result.code = 200 then
            uploadParts turns (written ++ [{ name }]) failed
          else uploadParts turns written (failed ++ [⟨name, agentResultMessage statusText result⟩])
        (r.1, request :: r.2)

def fsUpload (form : Except GoError (List PartTurn)) : UploadReply × List FsWriteRequest :=
  match form with
  | .error _ => (.refused ⟨400, .error "expected a multipart form"⟩, [])
  | .ok turns => uploadParts statusText dirPath exclusive turns [] []

end Upload

def LandsIn (dataDir dirPath path : String) : Prop :=
  ∃ dir full name, resolve dataDir dirPath = .ok dir ∧ resolve dataDir path = .ok full ∧
    components full.toList = components dir.toList ++ [name]

/-- The last component of the filename names neither a directory nor its parent. -/
def NamesFile (fileName : String) : Prop :=
  ∃ name, (components (toSlashes fileName).toList).getLast? = some name ∧
    name ≠ ['.'] ∧ name ≠ ['.', '.']

/-! ### The target -/

theorem noSlash_of_components {path c : List Char} (h : c ∈ components path) : c ≠ [] ∧ '/' ∉ c := by
  obtain ⟨hmem, hne⟩ := List.mem_filter.mp h
  exact ⟨of_decide_eq_true hne, GoPath.noSlash_of_mem_splitOn hmem⟩

theorem base_of_last {path : String} {c : List Char}
    (h : (components path.toList).getLast? = some c) : GoPath.base path = String.ofList c := by
  have hlast := GoPath.getLast?_components path.toList
  rw [h] at hlast
  split at hlast
  · cases hlast
  · next hne =>
    have hpath : path ≠ "" := by
      rintro rfl
      exact hne rfl
    rw [GoPath.base, if_neg hpath, if_neg hne, ← Option.some.inj hlast]

theorem base_of_none {path : String} (h : (components path.toList).getLast? = none) :
    GoPath.base path = "." ∨ GoPath.base path = "/" := by
  have hlast := GoPath.getLast?_components path.toList
  rw [h] at hlast
  split at hlast
  · next hnil =>
    by_cases hpath : path = ""
    · exact .inl (if_pos hpath)
    · exact .inr (by rw [GoPath.base, if_neg hpath, if_pos hnil])
  · cases hlast

theorem requested_joinFsPath (dir name : String) :
    requested (joinFsPath dir name) = (name.toList.splitOn '/').foldl push (requested dir) := by
  unfold joinFsPath
  split
  · next hdir =>
    subst hdir
    rfl
  · have htext : (String.ofList (dir.toList.rdropWhile (· = '/')) ++ "/" ++ name).toList =
        dir.toList.rdropWhile (· = '/') ++ '/' :: name.toList := by
      simp
    have htrim := GoPath.normalize_rdropWhile dir.toList
    rw [requested, htext, List.splitOn_append_cons_self, GoPath.normalize, List.foldl_append]
    rw [GoPath.normalize] at htrim
    rw [htrim]
    rfl

theorem requested_of_last {dir path : String} {c : List Char}
    (h : (components path.toList).getLast? = some c) :
    requested (joinFsPath dir (GoPath.base path)) = push (requested dir) c := by
  obtain ⟨-, hslash⟩ := noSlash_of_components (List.mem_of_getLast? h)
  rw [requested_joinFsPath, base_of_last h, String.toList_ofList, List.splitOn_eq_singleton hslash]
  rfl

theorem requested_of_names {dir fileName : String} (h : NamesFile fileName) :
    ∃ name, requested (joinFsPath dir (partName fileName)) = requested dir ++ [name] := by
  obtain ⟨name, hlast, hdot, hdotdot⟩ := h
  obtain ⟨hne, hslash⟩ := noSlash_of_components (List.mem_of_getLast? hlast)
  have hplain : Plain name := ⟨hne, hdot, hdotdot, hslash⟩
  exact ⟨name, (requested_of_last hlast).trans (GoPath.push_plain hplain)⟩

theorem requested_of_not_names (dir : String) {fileName : String} (h : ¬ NamesFile fileName) :
    (requested (joinFsPath dir (partName fileName))).length ≤ (requested dir).length := by
  cases hlast : (components (toSlashes fileName).toList).getLast? with
  | none =>
    rw [requested_joinFsPath]
    rcases base_of_none hlast with hbase | hbase
    · rw [partName, hbase]
      exact Nat.le_refl _
    · rw [partName, hbase]
      exact Nat.le_refl _
  | some name =>
    rw [partName, requested_of_last hlast]
    unfold push
    split
    · exact Nat.le_refl _
    · next hdot =>
      split
      · rw [List.length_dropLast]
        exact Nat.sub_le _ _
      · next hdotdot =>
        exact absurd ⟨name, hlast, fun he => hdot (.inr he), hdotdot⟩ h

theorem landsIn_iff {dataDir dirPath path : String} (h : AbsClean dataDir) :
    LandsIn dataDir dirPath path ↔
      dataDir ≠ "/" ∧ ∃ name, requested path = requested dirPath ++ [name] := by
  constructor
  · rintro ⟨dir, full, name, hdir, hfull, hchild⟩
    rw [Agent.Fs.components_resolve h hdir, Agent.Fs.components_resolve h hfull, List.append_assoc,
      List.append_cancel_left_eq] at hchild
    refine ⟨?_, name, hchild⟩
    rintro rfl
    rcases Agent.Fs.resolve_cases h path with ⟨-, -, herr⟩ | ⟨hroot | hnil, -⟩
    · rw [herr] at hfull
      cases hfull
    · exact hroot rfl
    · rw [hnil] at hchild
      exact List.concat_ne_nil _ _ hchild.symm
  · rintro ⟨hroot, name, hchild⟩
    have hok : ∀ rel, ∃ full, resolve dataDir rel = .ok full := by
      intro rel
      rcases Agent.Fs.resolve_cases h rel with ⟨heq, -⟩ | ⟨-, full, hfull, -⟩
      · exact absurd heq hroot
      · exact ⟨full, hfull⟩
    obtain ⟨dir, hdir⟩ := hok dirPath
    obtain ⟨full, hfull⟩ := hok path
    refine ⟨dir, full, name, hdir, hfull, ?_⟩
    rw [Agent.Fs.components_resolve h hdir, Agent.Fs.components_resolve h hfull, hchild,
      List.append_assoc]

/-- A part lands in the requested directory exactly if its filename ends in a name. -/
theorem upload_lands_iff {quote : String → String} {wd configured dataDir : String} {s : OsState}
    (hwd : GoPath.isAbs wd = true) (hne : configured ≠ "")
    (h : ((resolveDataDir quote (.ok wd) configured).eval OsState.exec s).1 = .ok dataDir)
    (dirPath fileName : String) :
    LandsIn dataDir dirPath (joinFsPath dirPath (partName fileName)) ↔
      NamesFile fileName ∧ dataDir ≠ "/" := by
  rw [landsIn_iff (Agent.Fs.absClean_of_resolveDataDir hwd hne h)]
  constructor
  · rintro ⟨hroot, name, hchild⟩
    refine ⟨?_, hroot⟩
    by_contra hnot
    have hle := requested_of_not_names dirPath hnot
    rw [hchild, List.length_append, List.length_singleton] at hle
    omega
  · rintro ⟨hnames, hroot⟩
    exact ⟨hroot, requested_of_names hnames⟩

theorem upload_lands_iff_report :
    LandsIn "/srv/data" "docs//" (joinFsPath "docs//" (partName "C:\\tmp\\report.txt")) := by
  have h : ((resolveDataDir id (.ok "/srv") "data").eval OsState.exec
      ⟨Agent.Fs.smallTree, []⟩).1 = .ok "/srv/data" := by decide +kernel
  apply (upload_lands_iff (by decide +kernel) (by decide) h _ _).mpr
  exact ⟨⟨"report.txt".toList, by decide +kernel⟩, by decide⟩

/-- The filename `..` selects the parent of the directory, and `.` the directory. -/
theorem upload_leaves_dir :
    ((resolveDataDir id (.ok "/srv") "data").eval OsState.exec ⟨Agent.Fs.smallTree, []⟩).1 =
        .ok "/srv/data" ∧
      resolve "/srv/data" "docs" = .ok "/srv/data/docs" ∧
      resolve "/srv/data" (joinFsPath "docs" (partName "..")) = .ok "/srv/data" ∧
      ¬ LandsIn "/srv/data" "docs" (joinFsPath "docs" (partName "..")) ∧
      ¬ LandsIn "/srv/data" "docs" (joinFsPath "docs" (partName ".")) := by
  have hdir : resolve "/srv/data" "docs" = .ok "/srv/data/docs" := by decide +kernel
  have hparent : resolve "/srv/data" (joinFsPath "docs" (partName "..")) = .ok "/srv/data" := by
    decide +kernel
  have hself : resolve "/srv/data" (joinFsPath "docs" (partName ".")) = .ok "/srv/data/docs" := by
    decide +kernel
  -- a child has one component more than its directory
  have hlength : ∀ {dir full : String} {name : List Char},
      components full.toList = components dir.toList ++ [name] →
      (components full.toList).length = (components dir.toList).length + 1 := by
    intro dir full name hchild
    rw [hchild, List.length_append, List.length_singleton]
  refine ⟨by decide +kernel, hdir, hparent, ?_, ?_⟩
  · rintro ⟨dir, full, name, hdir', hfull, hchild⟩
    obtain rfl := Except.ok.inj (hdir.symm.trans hdir')
    obtain rfl := Except.ok.inj (hparent.symm.trans hfull)
    exact absurd (hlength hchild) (by decide +kernel)
  · rintro ⟨dir, full, name, hdir', hfull, hchild⟩
    obtain rfl := Except.ok.inj (hdir.symm.trans hdir')
    obtain rfl := Except.ok.inj (hself.symm.trans hfull)
    exact absurd (hlength hchild) (by decide +kernel)

/-! ### The whole form -/

theorem uploadParts_request (statusText : Nat → String) (dirPath : String) (exclusive : Bool)
    {turns : List PartTurn} {written failed : List UploadOutcome} {request : FsWriteRequest}
    (h : request ∈ (uploadParts statusText dirPath exclusive turns written failed).2) :
    ∃ fileName reply, .part fileName reply ∈ turns ∧ fileName ≠ "" ∧
      request = ⟨joinFsPath dirPath (partName fileName), exclusive⟩ := by
  have hlater : ∀ {turn : PartTurn} {turns : List PartTurn},
      (∃ fileName reply, .part fileName reply ∈ turns ∧ fileName ≠ "" ∧
        request = ⟨joinFsPath dirPath (partName fileName), exclusive⟩) →
      ∃ fileName reply, .part fileName reply ∈ turn :: turns ∧ fileName ≠ "" ∧
        request = ⟨joinFsPath dirPath (partName fileName), exclusive⟩ := by
    rintro turn turns ⟨fileName, reply, hmem, hrest⟩
    exact ⟨fileName, reply, List.mem_cons_of_mem _ hmem, hrest⟩
  induction turns generalizing written failed with
  | nil => exact absurd h List.not_mem_nil
  | cons turn turns ih =>
    cases turn with
    | failed => exact absurd h List.not_mem_nil
    | part fileName reply =>
      rw [uploadParts] at h
      split at h
      · exact hlater (ih h)
      · next hne =>
        cases reply with
        | error err =>
          obtain rfl := List.mem_singleton.mp h
          exact ⟨fileName, _, List.mem_cons_self, hne, rfl⟩
        | ok result =>
          rcases List.mem_cons.mp h with rfl | h
          · exact ⟨fileName, _, List.mem_cons_self, hne, rfl⟩
          · split at h
            · exact hlater (ih h)
            · exact hlater (ih h)

theorem fsUpload_lands {dataDir : String} (hclean : AbsClean dataDir) (hroot : dataDir ≠ "/")
    (statusText : Nat → String) (dirPath : String) (exclusive : Bool) {turns : List PartTurn}
    (hnames : ∀ fileName reply, .part fileName reply ∈ turns → fileName ≠ "" → NamesFile fileName) :
    ∀ request ∈ (fsUpload statusText dirPath exclusive (.ok turns)).2,
      LandsIn dataDir dirPath request.path := by
  intro request hrequest
  obtain ⟨fileName, reply, hmem, hne, rfl⟩ :=
    uploadParts_request statusText dirPath exclusive hrequest
  exact (landsIn_iff hclean).mpr ⟨hroot, requested_of_names (hnames fileName reply hmem hne)⟩

end Hostlink.Controller
