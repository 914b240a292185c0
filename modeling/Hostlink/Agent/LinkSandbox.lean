import Hostlink.Agent.PathContainment

/-! What the `fs` methods reach once the operating system follows the links of a path: they stay inside the
data directory exactly when its links do. -/

namespace Hostlink.Agent.Fs
open GoPath (Plain components)
open Posix (Path Tree)

structure OsState.Within (t : Tree) (D : Path) (s : OsState) : Prop where
  touched : ∀ p ∈ s.touched, D <+: p
  outside : ∀ q, ¬ D <+: q → s.tree.get q = t.get q

/-- The data directory is at `D`, from where `links` links may still be followed. -/
structure Site (dataDir : String) (t : Tree) (D : Path) (links : Nat) : Prop where
  clean : AbsClean dataDir
  wf : Posix.WellFormed t
  leads : Posix.lookup t true dataDir.toList = .found D links
  dir : t.get D = some .dir

variable {t : Tree} {D : Path} {s : OsState} {dataDir full : String} {links : Nat}
  {rs : List (List Char)}

/-! ### Single calls -/

theorem OsState.within_start (t : Tree) (D : Path) : (⟨t, []⟩ : OsState).Within t D :=
  ⟨fun _ hp => absurd hp List.not_mem_nil, fun _ _ => rfl⟩

theorem OsState.Within.touch (h : s.Within t D) {paths : List Path} (hpaths : ∀ p ∈ paths, D <+: p) :
    (s.touch paths).Within t D := by
  exact ⟨List.forall_mem_append.mpr ⟨h.touched, hpaths⟩, h.outside⟩

theorem OsState.Within.after {α : Type} (h : s.Within t D) {e : Posix.Effect α} (hframe : e.Frame s.tree)
    (he : ∀ p ∈ e.touched, D <+: p) : (s.after e).Within t D := by
  refine ⟨List.forall_mem_append.mpr ⟨h.touched, he⟩, fun q hq => ?_⟩
  have hkept : e.tree.get q = s.tree.get q := hframe q fun hmem => hq (he q hmem)
  exact hkept.trans (h.outside q hq)

section Reading
variable {α : Type} {read : Path → Except Posix.Errno α × List Path}

theorem OsState.tree_reading (s : OsState) (op path : String) :
    (s.reading op path read).2.tree = s.tree := by
  unfold OsState.reading
  split <;> rfl

theorem OsState.Within.reading (h : s.Within t D) {op path : String}
    (hin : (Posix.lookup s.tree true path.toList).Inside D)
    (hread : ∀ p, D <+: p → ∀ q ∈ (read p).2, D <+: q) : (s.reading op path read).2.Within t D := by
  unfold OsState.reading
  split
  · exact h
  · next p hp => exact h.touch (hread p (Posix.resolve_inside hin hp))

end Reading

theorem OsState.Within.stat (h : s.Within t D)
    (hin : (Posix.lookup s.tree true full.toList).Inside D) : (s.exec (.stat full)).2.Within t D :=
  h.reading hin fun p hp q hq => by rwa [List.mem_singleton.mp hq]

theorem OsState.Within.open (h : s.Within t D)
    (hin : (Posix.lookup s.tree true full.toList).Inside D) : (s.exec (.open full)).2.Within t D :=
  h.reading hin fun p hp q hq => by rwa [List.mem_singleton.mp hq]

theorem inside_children {p : Path} (hp : D <+: p) : ∀ q ∈ Posix.children t p, D <+: q := by
  intro q hq
  obtain ⟨-, hchild⟩ := List.mem_filter.mp hq
  obtain ⟨-, hparent, -⟩ := of_decide_eq_true hchild
  rw [← hparent] at hp
  exact hp.trans (List.dropLast_prefix q)

theorem OsState.Within.readDir (h : s.Within t D)
    (hin : (Posix.lookup s.tree true full.toList).Inside D) :
    (s.exec (.readDir full)).2.Within t D := by
  refine h.reading hin fun p hp q hq => ?_
  split at hq
  · rcases List.mem_cons.mp hq with rfl | hchild
    · exact hp
    · exact inside_children hp q hchild
  · rwa [List.mem_singleton.mp hq]

/-! ### Paths of requests -/

structure Requests (dataDir full : String) (rs : List (List Char)) : Prop where
  path : full.toList = GoPath.render (components dataDir.toList ++ rs)
  plain : ∀ c ∈ rs, Plain c

theorem requests_of_resolve {rel : String} (h : AbsClean dataDir)
    (hok : resolve dataDir rel = .ok full) : Requests dataDir full (requested rel) :=
  ⟨resolve_ok h hok, plain_requested rel⟩

theorem Site.plain (h : Site dataDir t D links) (hfull : Requests dataDir full rs) :
    ∀ c ∈ components dataDir.toList ++ rs, Plain c :=
  List.forall_mem_append.mpr ⟨h.clean.render.2, hfull.plain⟩

theorem Site.walk (h : Site dataDir t D links) :
    Posix.walk t true Posix.maxLinks [] (components dataDir.toList) = .found D links := by
  rw [← Posix.lookup_render h.wf.root h.clean.render.2, h.clean.render.1]
  exact h.leads

theorem Site.top (h : Site dataDir t D links) (hin : Posix.LinksInside t D links) :
    Posix.Top t (components dataDir.toList) D links :=
  ⟨h.wf, h.walk, h.dir, hin⟩

section Contained
variable (h : Site dataDir t D links) (hin : Posix.LinksInside t D links)
  (hfull : Requests dataDir full rs)
include h hin hfull

theorem Site.lookup_inside : (Posix.lookup t true full.toList).Inside D := by
  rw [hfull.path, Posix.lookup_render h.wf.root (h.plain hfull)]
  by_cases hnil : rs = []
  · rw [hnil, List.append_nil, h.walk]
    exact List.prefix_refl D
  · exact (h.top hin).walk_inside hfull.plain hnil true

theorem Site.stat_within : ((OsState.mk t []).exec (.stat full)).2.Within t D :=
  (OsState.within_start t D).stat (h.lookup_inside hin hfull)

theorem Site.mkdirAll_within :
    (((OsState.mk t []).exec (.stat full)).2.exec (.mkdirAll full)).2.Within t D := by
  have hmade := Posix.mkdirAll_made (h.top hin) hfull.plain
  have hcomponents : components full.toList = components dataDir.toList ++ rs := by
    rw [hfull.path, GoPath.components_render (h.plain hfull)]
  refine (h.stat_within hin hfull).after (Posix.mkdirAll_frame _ _) ?_
  rw [hcomponents]
  have htree : ((OsState.mk t []).exec (.stat full)).2.tree = t := OsState.tree_reading _ _ _
  rw [htree]
  exact hmade.touched

theorem Site.removeAll_within (hne : full ≠ dataDir) :
    (((OsState.mk t []).exec (.stat full)).2.exec (.removeAll full)).2.Within t D := by
  have htree : ((OsState.mk t []).exec (.stat full)).2.tree = t := OsState.tree_reading _ _ _
  have hrs : rs ≠ [] := by
    rintro rfl
    have hpath := hfull.path
    rw [List.append_nil, h.clean.render.1] at hpath
    exact hne (String.toList_inj.mp hpath)
  refine (h.stat_within hin hfull).after (Posix.removeAll_frame _ _) ?_
  rw [htree]
  refine Posix.removeAll_inside ?_
  rw [hfull.path, Posix.lookup_render h.wf.root (h.plain hfull)]
  exact (h.top hin).walk_inside hfull.plain hrs false

end Contained

/-! ### Uploads -/

theorem consumeUpload_within {file : Path} (hfile : D <+: file) (turns : List UploadTurn)
    (h : s.Within t D) : ((consumeUpload file turns).eval OsState.exec s).2.Within t D ∧
      Posix.Extends s.tree ((consumeUpload file turns).eval OsState.exec s).2.tree := by
  induction turns generalizing s with
  | nil => exact ⟨h, Posix.Extends.refl _⟩
  | cons turn turns ih =>
    cases turn with
    | ctxDone err => exact ⟨h, Posix.Extends.refl _⟩
    | idle => exact ⟨h, Posix.Extends.refl _⟩
    | chunk chunk fault syncErr =>
      have hnext : ∀ {s : OsState}, s.Within t D →
          ((uploadNext chunk syncErr (consumeUpload file turns)).eval OsState.exec s).2.Within t D ∧
            Posix.Extends s.tree
              ((uploadNext chunk syncErr (consumeUpload file turns)).eval OsState.exec s).2.tree := by
        intro s hs
        unfold uploadNext
        split
        · split <;> exact ⟨hs, Posix.Extends.refl _⟩
        · exact ih hs
      have hwrite : ∀ data, (s.exec (.write file data)).2.Within t D := fun data =>
        h.after (Posix.append_frame _ _ _) (Posix.append_inside hfile _ _)
      have hgrows : ∀ data, Posix.Extends s.tree (s.exec (.write file data)).2.tree := fun data =>
        Posix.append_extends _ _ _
      rw [consumeUpload.eq_def]
      dsimp only
      split
      · exact hnext h
      · split
        · exact ⟨hwrite _, hgrows _⟩
        · obtain ⟨hwithin, hmore⟩ := hnext (hwrite chunk.data)
          exact ⟨hwithin, (hgrows chunk.data).trans hmore⟩

theorem Site.storeUpload_root (h : Site dataDir t D links) (hfull : Requests dataDir full [])
    (exclusive : Bool) (turns : List UploadTurn) :
    ((storeUpload full exclusive turns).eval OsState.exec ⟨t, []⟩).2 = ⟨t, []⟩ := by
  have hpath : full.toList = GoPath.render (components dataDir.toList) := by
    rw [hfull.path, List.append_nil]
  have hparent : Posix.mkdirAll t (components (GoPath.dir full).toList).reverse = ⟨.ok (), t, []⟩ := by
    have hwalk := h.walk
    rcases List.eq_nil_or_concat' (components dataDir.toList) with hnil | ⟨up, c, hup⟩
    · rw [hnil] at hpath
      obtain rfl : full = "/" := String.toList_inj.mp hpath
      rfl
    · rw [hup] at hpath hwalk
      obtain ⟨q, l, hq, hdir, -⟩ := Posix.parent_of_found hwalk
      rw [GoPath.components_dir (hup ▸ h.clean.render.2) hpath]
      exact Posix.mkdirAll_of_found hq hdir
  have hmkdir : (OsState.mk t []).exec (.mkdirAll (GoPath.dir full)) = (.ok (), ⟨t, []⟩) := by
    rw [OsState.exec, hparent]
    rfl
  have hlookup : Posix.lookup t true full.toList = .found D links := by
    rw [hpath, Posix.lookup_render h.wf.root h.clean.render.2]
    exact h.walk
  obtain ⟨err, hcreate⟩ := Posix.create_of_dir exclusive hlookup h.dir
  have hopen : (OsState.mk t []).exec (.openFile full exclusive) =
      (.error (osError "open" full err), ⟨t, []⟩) := by
    rw [OsState.exec, hcreate]
    rfl
  rw [storeUpload, Prog.eval, hmkdir]
  dsimp only
  rw [openUpload, Prog.eval, hopen]
  rfl

theorem openUpload_within (hs : s.Within t D) {exclusive : Bool}
    (hopen : (Posix.lookup s.tree (!exclusive) full.toList).Inside D)
    (hremove : ∀ t', Posix.Extends s.tree t' → (Posix.lookup t' false full.toList).Inside D)
    (turns : List UploadTurn) :
    ((openUpload full exclusive turns).eval OsState.exec s).2.Within t D := by
  have hframe := Posix.create_frame s.tree exclusive full.toList
  have hgrows := Posix.create_extends s.tree exclusive full.toList
  obtain ⟨hmade, hfile⟩ := Posix.create_inside hopen
  rw [openUpload, Prog.eval, OsState.exec]
  generalize Posix.create s.tree exclusive full.toList = opened at hframe hgrows hmade hfile
  have hopened : (s.after opened).Within t D := hs.after hframe hmade
  dsimp only
  cases hreply : opened.reply with
  | error err => exact hopened
  | ok file =>
    obtain ⟨hwithin, hmore⟩ := consumeUpload_within (hfile file hreply) turns hopened
    show ((consumeUpload file turns >>= _).eval OsState.exec (s.after opened)).2.Within t D
    rw [Prog.eval_bind]
    split
    · exact hwithin
    · exact hwithin.after (Posix.remove_frame _ _)
        (Posix.remove_inside (hremove _ (hgrows.trans hmore)))

theorem Site.storeUpload_within (h : Site dataDir t D links) (hin : Posix.LinksInside t D links)
    {c : List Char} (hfull : Requests dataDir full (rs ++ [c])) (exclusive : Bool)
    (turns : List UploadTurn) :
    ((storeUpload full exclusive turns).eval OsState.exec ⟨t, []⟩).2.Within t D := by
  have hplain := h.plain hfull
  have hpath := hfull.path
  rw [← List.append_assoc] at hplain hpath
  have hc : Plain c := hfull.plain c (List.mem_append_right _ List.mem_cons_self)
  have hmade := Posix.mkdirAll_made (h.top hin) fun d hd => hfull.plain d (List.mem_append_left _ hd)
  have hframe := Posix.mkdirAll_frame t (components dataDir.toList ++ rs).reverse
  rw [storeUpload, Prog.eval, OsState.exec, GoPath.components_dir hplain hpath]
  dsimp only
  generalize Posix.mkdirAll t (components dataDir.toList ++ rs).reverse = made at hmade hframe
  have hparents := (OsState.within_start t D).after hframe hmade.touched
  cases hreply : made.reply with
  | error err => exact hparents
  | ok u =>
    have hlookup : ∀ {t'}, Posix.Extends made.tree t' → ∀ follow, Posix.lookup t' follow full.toList =
        Posix.walk t' follow Posix.maxLinks [] (components dataDir.toList ++ rs ++ [c]) := by
      intro t' hlater follow
      rw [hpath, Posix.lookup_render (hlater.dir hmade.wf.root) hplain]
    refine openUpload_within hparents ?_ (fun t' hlater => ?_) turns
    · rw [OsState.after, hlookup (Posix.Extends.refl _)]
      exact hmade.walk_inside (h.top hin) hreply hfull.plain _
    · rw [hlookup hlater]
      exact hmade.walk_inside_later hreply hc hlater

/-! ### Whole requests -/

theorem onPath_within (h : AbsClean dataDir) {method : String} (payload : Payload)
    {go : String → Prog OsCmd.Reply FsReply}
    (hgo : ∀ full rs, Requests dataDir full rs → ((go full).eval OsState.exec ⟨t, []⟩).2.Within t D) :
    ((onPath method dataDir payload go).eval OsState.exec ⟨t, []⟩).2.Within t D := by
  unfold onPath
  split
  · exact OsState.within_start t D
  · split
    · exact OsState.within_start t D
    · next hok => exact hgo _ _ (requests_of_resolve h hok)

section Methods
variable (h : Site dataDir t D links) (hin : Posix.LinksInside t D links) (payload : Payload)
include h hin

theorem Site.statPath_within :
    ((statPath dataDir payload).eval OsState.exec ⟨t, []⟩).2.Within t D := by
  refine onPath_within h.clean payload fun full rs hfull => ?_
  rw [Prog.eval]
  split <;> exact h.stat_within hin hfull

theorem Site.listDir_within :
    ((listDir dataDir payload).eval OsState.exec ⟨t, []⟩).2.Within t D := by
  refine onPath_within h.clean payload fun full rs hfull => ?_
  have hlist := (OsState.within_start t D).readDir (h.lookup_inside hin hfull)
  rw [Prog.eval]
  split <;> exact hlist

theorem Site.readFile_within (turns : List ReadTurn) :
    ((readFile dataDir payload turns).eval OsState.exec ⟨t, []⟩).2.Within t D := by
  unfold readFile
  split
  · exact OsState.within_start t D
  · split
    · exact OsState.within_start t D
    · next hok =>
      have hfull := requests_of_resolve h.clean hok
      have hopen := (OsState.within_start t D).open (h.lookup_inside hin hfull)
      rw [Prog.eval]
      split <;> exact hopen

theorem Site.writeFile_within (exclusive : Bool) (turns : List UploadTurn) :
    ((writeFile dataDir payload exclusive turns).eval OsState.exec ⟨t, []⟩).2.Within t D := by
  refine onPath_within h.clean payload fun full rs hfull => ?_
  rcases List.eq_nil_or_concat' rs with rfl | ⟨rs, c, rfl⟩
  · rw [h.storeUpload_root hfull]
    exact OsState.within_start t D
  · exact h.storeUpload_within hin hfull exclusive turns

theorem Site.mkdir_within : ((mkdir dataDir payload).eval OsState.exec ⟨t, []⟩).2.Within t D := by
  refine onPath_within h.clean payload fun full rs hfull => ?_
  rw [Prog.eval]
  split
  · exact h.stat_within hin hfull
  · split
    · rw [Prog.eval]
      split <;> exact h.mkdirAll_within hin hfull
    · exact h.stat_within hin hfull

theorem Site.remove_within : ((remove dataDir payload).eval OsState.exec ⟨t, []⟩).2.Within t D := by
  refine onPath_within h.clean payload fun full rs hfull => ?_
  split
  · exact OsState.within_start t D
  · next hne =>
    rw [Prog.eval]
    split
    · exact h.stat_within hin hfull
    · rw [Prog.eval]
      split <;> exact h.removeAll_within hin hfull hne

theorem Site.serve_within (req : FsRequest) : (req.serve dataDir t).Within t D := by
  cases req with
  | stat payload => exact h.statPath_within hin payload
  | list payload => exact h.listDir_within hin payload
  | read payload turns => exact h.readFile_within hin payload turns
  | write payload exclusive turns => exact h.writeFile_within hin payload exclusive turns
  | mkdir payload => exact h.mkdir_within hin payload
  | remove payload => exact h.remove_within hin payload

end Methods

/-! ### A link that leads out -/

theorem requested_render {names : List (List Char)} (hnames : ∀ c ∈ names, Plain c) :
    requested (String.ofList (GoPath.render names)) = names := by
  rw [requested, String.toList_ofList, GoPath.normalize, GoPath.foldl_push_splitOn_render hnames,
    List.nil_append]

theorem Site.lookup_below (h : Site dataDir t D links) (hfull : Requests dataDir full rs)
    (hrs : rs ≠ []) : Posix.lookup t true full.toList = Posix.walk t true links D rs := by
  rw [hfull.path, Posix.lookup_render h.wf.root (h.plain hfull), Posix.walk_append _ _ _ _ _ hrs,
    h.walk, Posix.Walk.andThen]

theorem stat_touches {rel : String} {p : Path} {left : Nat} (hok : resolve dataDir rel = .ok full)
    (hlookup : Posix.lookup t true full.toList = .found p left) :
    p ∈ ((FsRequest.stat (.ok rel)).serve dataDir t).touched := by
  have hstat : ((OsState.mk t []).exec (.stat full)).2 = ⟨t, [p]⟩ := by
    have hresolve : Posix.resolve t full.toList = .ok p := by rw [Posix.resolve, hlookup]
    rw [OsState.exec, OsState.reading, hresolve]
    rfl
  have hmem : p ∈ ((OsState.mk t []).exec (.stat full)).2.touched := by
    rw [hstat]
    exact List.mem_singleton_self p
  rw [FsRequest.serve, statPath, onPath, hok]
  dsimp only
  rw [Prog.eval]
  split <;> exact hmem

theorem write_touches {rel : String} {p : Path} (hok : resolve dataDir rel = .ok full)
    (hlookup : Posix.lookup t true full.toList = .absent p)
    (hparent : Posix.mkdirAll t (components (GoPath.dir full).toList).reverse = ⟨.ok (), t, []⟩) :
    p ∈ ((FsRequest.write (.ok rel) false [.chunk ⟨[], true⟩ none none]).serve dataDir t).touched := by
  have hmkdir : (OsState.mk t []).exec (.mkdirAll (GoPath.dir full)) = (.ok (), ⟨t, []⟩) := by
    rw [OsState.exec, hparent]
    rfl
  have hopen : (OsState.mk t []).exec (.openFile full false) =
      (.ok p, ⟨t.insert p (.file []), [p]⟩) := by
    have hcreate : Posix.create t false full.toList = ⟨.ok p, t.insert p (.file []), [p]⟩ := by
      have hlookup' : Posix.lookup t (!false) full.toList = .absent p := hlookup
      rw [Posix.create, hlookup']
    rw [OsState.exec, hcreate]
    rfl
  rw [FsRequest.serve, writeFile, onPath, hok]
  dsimp only
  rw [storeUpload, Prog.eval, hmkdir]
  dsimp only
  rw [openUpload, Prog.eval, hopen]
  exact List.mem_singleton_self p

theorem Site.link_inside (h : Site dataDir t D links)
    (hserve : ∀ req : FsRequest, (req.serve dataDir t).Within t D) {names : List (List Char)}
    {target : List Char} (hlink : t.get (D ++ names) = some (.link target)) :
    (Posix.walk t true links D names).Inside D := by
  have hsome : t.get (D ++ names) ≠ none := by
    rw [hlink]
    exact Option.some_ne_none _
  have hplain : ∀ c ∈ names, Plain c := fun c hc => h.wf.names _ hsome c (List.mem_append_right _ hc)
  have hne : names ≠ [] := by
    rintro rfl
    rw [List.append_nil, h.dir] at hlink
    cases hlink
  rcases resolve_cases h.clean (String.ofList (GoPath.render names)) with
    ⟨rfl, -, -⟩ | ⟨-, full, hok, -⟩
  · -- everything is inside the root
    obtain ⟨rfl, -⟩ := Posix.Walk.found.inj h.walk
    cases Posix.walk t true links [] names with
    | found p left => exact List.nil_prefix
    | absent p => exact List.nil_prefix
    | failed err => trivial
  · have hfull := requests_of_resolve h.clean hok
    rw [requested_render hplain] at hfull
    have hlookup := h.lookup_below hfull hne
    cases hw : Posix.walk t true links D names with
    | found p left => exact (hserve _).touched p (stat_touches hok (hlookup.trans hw))
    | failed err => trivial
    | absent p =>
      refine (hserve _).touched p (write_touches hok (hlookup.trans hw) ?_)
      -- the directory with the link is there
      obtain ⟨up, c, rfl⟩ := (List.eq_nil_or_concat' names).resolve_left hne
      have hdir : t.get (D ++ up) = some .dir := by
        refine h.wf.parent (D ++ up) c ?_
        rwa [List.append_assoc]
      have hplain' := h.plain hfull
      have hpath := hfull.path
      rw [← List.append_assoc] at hplain' hpath
      have hwalk : Posix.walk t true Posix.maxLinks [] (components dataDir.toList ++ up) =
          .found (D ++ up) links := by
        by_cases hup : up = []
        · rw [hup, List.append_nil, List.append_nil]
          exact h.walk
        · rw [Posix.walk_append _ _ _ _ _ hup, h.walk, Posix.Walk.andThen, h.wf.walk_dir hdir]
      rw [GoPath.components_dir hplain' hpath]
      exact Posix.mkdirAll_of_found hwalk hdir

/-- All requests stay inside the data directory exactly when every link below it leads to a place inside. -/
theorem serve_within_iff (h : Site dataDir t D links) :
    (∀ req : FsRequest, (req.serve dataDir t).Within t D) ↔ Posix.LinksInside t D links :=
  ⟨fun hserve _ _ hlink => h.link_inside hserve hlink, fun hin req => h.serve_within hin req⟩

def linkTree (target : String) : Tree :=
  smallTree.insert ["srv".toList, "data".toList, "up".toList] (.link target.toList)

/-- A link that stays in the data directory, where a file can then be made. -/
theorem serve_within_iff_inner : ((FsRequest.write (.ok "up") false []).serve "/srv/data"
    (linkTree "./new")).Within (linkTree "./new") ["srv".toList, "data".toList] := by
  have h : Site "/srv/data" (linkTree "./new") ["srv".toList, "data".toList] 40 :=
    ⟨⟨by decide +kernel, by decide +kernel⟩, by decide +kernel, by decide +kernel, by decide +kernel⟩
  exact (serve_within_iff h).mpr (by decide +kernel) _

/-- With a link to `/etc` a file outside is read, and another request deletes it. -/
theorem serve_leaves_dir : Site "/srv/data" (linkTree "/etc") ["srv".toList, "data".toList] 40 ∧
    ["etc".toList, "passwd".toList] ∈
      ((FsRequest.read (.ok "up/passwd") []).serve "/srv/data" (linkTree "/etc")).touched ∧
    (linkTree "/etc").get ["etc".toList, "passwd".toList] = some (.file [0x72]) ∧
    ((FsRequest.remove (.ok "up/passwd")).serve "/srv/data" (linkTree "/etc")).tree.get
      ["etc".toList, "passwd".toList] = none :=
  ⟨⟨⟨by decide +kernel, by decide +kernel⟩, by decide +kernel, by decide +kernel, by decide +kernel⟩,
    by decide +kernel, by decide +kernel, by decide +kernel⟩

end Hostlink.Agent.Fs
