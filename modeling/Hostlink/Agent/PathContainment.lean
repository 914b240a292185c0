import Hostlink.Agent.Fs

/-! Where a request path leads before the operating system looks at it: the components of the data
directory, and behind them the normalised components of the request. -/

namespace Hostlink.Agent.Fs
open GoPath (Plain components normalize render)

structure AbsClean (dir : String) : Prop where
  rooted : GoPath.isAbs dir = true
  clean : GoPath.clean dir = dir

def requested (rel : String) : List (List Char) := normalize (rel.toList.splitOn '/')

variable {dataDir rel full : String}

theorem AbsClean.render (h : AbsClean dataDir) :
    GoPath.render (components dataDir.toList) = dataDir.toList ∧
      ∀ c ∈ components dataDir.toList, Plain c := by
  refine GoPath.render_components (of_decide_eq_true h.rooted) ?_
  rw [← String.toList_ofList (l := GoPath.cleanChars dataDir.toList)]
  exact congrArg String.toList h.clean

theorem AbsClean.ne_empty (h : AbsClean dataDir) : dataDir ≠ "" := by
  rintro rfl
  have hrooted := h.rooted
  cases hrooted

theorem plain_requested (rel : String) : ∀ c ∈ requested rel, Plain c :=
  GoPath.plain_normalize _

theorem clean_request (rel : String) :
    (GoPath.clean ("/" ++ rel)).toList = render (requested rel) := by
  rw [GoPath.clean, String.toList_ofList, String.toList_append]
  show GoPath.cleanChars ('/' :: rel.toList) = _
  rw [GoPath.cleanChars_rooted rfl, List.splitOn_cons_eq_if_modifyHead, if_pos (beq_self_eq_true _)]
  rfl

theorem AbsClean.join (h : AbsClean dataDir) (rel : String) :
    (GoPath.join dataDir (GoPath.clean ("/" ++ rel))).toList =
      GoPath.render (components dataDir.toList ++ requested rel) := by
  obtain ⟨hrender, hplain⟩ := h.render
  rw [GoPath.join, if_pos h.ne_empty, GoPath.clean, String.toList_ofList, String.toList_append,
    String.toList_append, clean_request, ← hrender]
  show GoPath.cleanChars (GoPath.render _ ++ ['/'] ++ _) = _
  rw [List.append_assoc, List.singleton_append, GoPath.components_render hplain]
  exact GoPath.cleanChars_append_render hplain (plain_requested rel)

def Escapes (dataDir full : String) : Prop :=
  full ≠ dataDir ∧ ¬ (dataDir ++ "/").toList.isPrefixOf full.toList

theorem prefix_of_ne_root (h : AbsClean dataDir) (hroot : dataDir ≠ "/") {rs : List (List Char)}
    (hrs : rs ≠ []) :
    (dataDir ++ "/").toList.isPrefixOf (GoPath.render (components dataDir.toList ++ rs)) = true := by
  obtain ⟨hrender, -⟩ := h.render
  have hcs : components dataDir.toList ≠ [] := by
    intro hnil
    rw [hnil] at hrender
    exact hroot (String.toList_inj.mp hrender.symm)
  obtain ⟨c, rest, rfl⟩ := List.exists_cons_of_ne_nil hrs
  have hfull : GoPath.render (components dataDir.toList ++ c :: rest) =
      dataDir.toList ++ '/' :: (c ++ rest.flatMap ('/' :: ·)) := by
    rw [GoPath.render, if_neg hcs] at hrender
    rw [GoPath.render, if_neg (List.append_ne_nil_of_left_ne_nil hcs _), List.flatMap_append, hrender,
      List.flatMap_cons]
    rfl
  rw [List.isPrefixOf_iff_prefix, String.toList_append, hfull]
  exact (List.prefix_append_right_inj _).mpr ⟨_, rfl⟩

theorem not_prefix_of_root {rs : List (List Char)} (hplain : ∀ c ∈ rs, Plain c) (hrs : rs ≠ []) :
    render rs ≠ ['/'] ∧ ¬ ("/" ++ "/").toList.isPrefixOf (render rs) = true := by
  obtain ⟨c, rest, rfl⟩ := List.exists_cons_of_ne_nil hrs
  have hc := hplain c List.mem_cons_self
  obtain ⟨a, c, rfl⟩ := List.exists_cons_of_ne_nil hc.ne_nil
  have ha : a ≠ '/' := by
    rintro rfl
    exact hc.noSlash List.mem_cons_self
  rw [render, if_neg hrs, List.flatMap_cons]
  constructor
  · intro heq
    cases heq
  · intro hpre
    rw [List.isPrefixOf_iff_prefix] at hpre
    obtain ⟨rest', hrest⟩ := hpre
    exact ha (List.cons.inj (List.cons.inj hrest).2).1.symm

theorem escapes_iff (h : AbsClean dataDir)
    (hfull : full.toList = GoPath.render (components dataDir.toList ++ requested rel)) :
    Escapes dataDir full ↔ dataDir = "/" ∧ requested rel ≠ [] := by
  obtain ⟨hrender, -⟩ := h.render
  constructor
  · rintro ⟨hne, hpre⟩
    have hrs : requested rel ≠ [] := by
      intro hnil
      rw [hnil, List.append_nil, hrender] at hfull
      exact hne (String.toList_inj.mp hfull)
    refine ⟨?_, hrs⟩
    by_contra hroot
    rw [hfull] at hpre
    exact hpre (prefix_of_ne_root h hroot hrs)
  · rintro ⟨rfl, hrs⟩
    have hfull' : full.toList = GoPath.render (requested rel) := hfull
    obtain ⟨hne, hpre⟩ := not_prefix_of_root (plain_requested rel) hrs
    rw [← hfull'] at hne hpre
    exact ⟨fun heq => hne (congrArg String.toList heq), hpre⟩

theorem resolve_cases (h : AbsClean dataDir) (rel : String) :
    (dataDir = "/" ∧ requested rel ≠ [] ∧ resolve dataDir rel = .error errPathEscapes) ∨
      ((dataDir ≠ "/" ∨ requested rel = []) ∧ ∃ full, resolve dataDir rel = .ok full ∧
        full.toList = GoPath.render (components dataDir.toList ++ requested rel)) := by
  have hjoin := h.join rel
  have hescapes := escapes_iff h hjoin
  rw [resolve, if_neg h.ne_empty]
  dsimp only
  by_cases he : dataDir = "/" ∧ requested rel ≠ []
  · exact .inl ⟨he.1, he.2, if_pos (hescapes.mpr he)⟩
  · refine .inr ⟨?_, _, if_neg (fun hc => he (hescapes.mp hc)), hjoin⟩
    rwa [not_and_or, not_not] at he

/-! ### Containment -/

theorem resolve_ok (h : AbsClean dataDir) (hok : resolve dataDir rel = .ok full) :
    full.toList = GoPath.render (components dataDir.toList ++ requested rel) := by
  rcases resolve_cases h rel with ⟨-, -, herr⟩ | ⟨-, full', hok', hfull⟩
  · rw [herr] at hok
    cases hok
  · rw [hok'] at hok
    rwa [← Except.ok.inj hok]

theorem AbsClean.plain (h : AbsClean dataDir) (rel : String) :
    ∀ c ∈ components dataDir.toList ++ requested rel, Plain c :=
  List.forall_mem_append.mpr ⟨h.render.2, plain_requested rel⟩

theorem components_resolve (h : AbsClean dataDir) (hok : resolve dataDir rel = .ok full) :
    components full.toList = components dataDir.toList ++ requested rel := by
  rw [resolve_ok h hok]
  exact GoPath.components_render (h.plain rel)

/-- The paths that a call deletes, if no link is on the way. -/
def OsCmd.Deletes : OsCmd → List (List Char) → Prop
  | .remove path, q | .removeAll path, q => components path.toList <+: q
  | _, _ => False

theorem remove_issues (h : AbsClean dataDir) (payload : Payload) :
    (remove dataDir payload).Issues fun c => ¬ c.Deletes (components dataDir.toList) := by
  unfold remove onPath
  cases payload with
  | error err => trivial
  | ok rel =>
    dsimp only
    cases hok : resolve dataDir rel with
    | error err => trivial
    | ok full =>
      dsimp only
      split
      · trivial
      · next hne =>
        refine ⟨fun hdel => hdel, fun r => ?_⟩
        cases r with
        | error err => trivial
        | ok info =>
          refine ⟨fun hdel => hne ?_, fun r => ?_⟩
          · have hpre : components full.toList <+: components dataDir.toList := hdel
            rw [components_resolve h hok] at hpre
            have hnil : requested rel = [] := by
              have hlen := hpre.length_le
              rw [List.length_append] at hlen
              exact List.eq_nil_of_length_eq_zero (by omega)
            have hfull := resolve_ok h hok
            rw [hnil, List.append_nil, h.render.1] at hfull
            exact String.toList_inj.mp hfull
          · cases r <;> trivial

/-- What `resolve` returns has the components of the data directory and then those of the request from
left to right, so it is in the data directory; and `remove` never deletes the data directory. -/
theorem resolve_contained {dataDir : String} (h : AbsClean dataDir) :
    (∀ rel full, resolve dataDir rel = .ok full →
      components full.toList = components dataDir.toList ++ requested rel ∧
        full.toList = GoPath.render (components full.toList) ∧
        ['.', '.'] ∉ components full.toList ∧
        components dataDir.toList <+: components full.toList) ∧
    ∀ payload, (remove dataDir payload).Issues fun c => ¬ c.Deletes (components dataDir.toList) := by
  refine ⟨fun rel full hok => ?_, remove_issues h⟩
  have hcomponents := components_resolve h hok
  refine ⟨hcomponents, ?_, ?_, ?_⟩
  · rw [hcomponents]
    exact resolve_ok h hok
  · rw [hcomponents]
    intro hmem
    exact (h.plain rel _ hmem).ne_dotdot rfl
  · rw [hcomponents]
    exact List.prefix_append _ _

theorem resolve_contained_srv : resolve "/srv/data" "a//./../b/../../etc" = .ok "/srv/data/etc" ∧
    components "/srv/data/etc".toList = components "/srv/data".toList ++
      requested "a//./../b/../../etc" := by
  have h : AbsClean "/srv/data" := ⟨by decide +kernel, by decide +kernel⟩
  have hok : resolve "/srv/data" "a//./../b/../../etc" = .ok "/srv/data/etc" := by decide +kernel
  exact ⟨hok, ((resolve_contained h).1 _ _ hok).1⟩

/-! ### Data directories -/

theorem absClean_clean {path : String} (h : GoPath.isAbs path = true) :
    AbsClean (GoPath.clean path) := by
  have hclean : (GoPath.clean path).toList = render (normalize (path.toList.splitOn '/')) := by
    rw [GoPath.clean, String.toList_ofList, GoPath.cleanChars_rooted (of_decide_eq_true h)]
  constructor
  · rw [GoPath.isAbs, hclean, GoPath.head?_render]
    rfl
  · refine String.toList_inj.mp ?_
    rw [GoPath.clean, String.toList_ofList, hclean,
      GoPath.cleanChars_render (GoPath.plain_normalize _)]

theorem isAbs_append {path : String} (h : GoPath.isAbs path = true) (tail : String) :
    GoPath.isAbs (path ++ tail) = true := by
  have hhead : path.toList.head? = some '/' := of_decide_eq_true h
  have hne : path.toList ≠ [] := by
    intro hnil
    rw [hnil] at hhead
    cases hhead
  rw [GoPath.isAbs, String.toList_append, List.head?_append_of_ne_nil _ hne, hhead]
  rfl

theorem absClean_absPath {wd path dir : String} (hwd : GoPath.isAbs wd = true)
    (h : absPath (.ok wd) path = .ok dir) : AbsClean dir := by
  have hne : wd ≠ "" := by
    rintro rfl
    cases hwd
  unfold absPath at h
  split at h
  · next habs =>
    rw [← Except.ok.inj h]
    exact absClean_clean habs
  · rw [← Except.ok.inj h]
    show AbsClean (GoPath.join wd path)
    rw [GoPath.join, if_pos hne]
    exact absClean_clean (isAbs_append (isAbs_append hwd _) _)

theorem checkDataDir_ok {quote : String → String} {dir : String} {answer : Except GoError FileInfo}
    (h : checkDataDir quote dir answer = .ok dataDir) : dataDir = dir := by
  cases answer with
  | error err => cases h
  | ok info =>
    rw [checkDataDir] at h
    split at h
    · exact (Except.ok.inj h).symm
    · cases h

theorem absClean_of_resolveDataDir {quote : String → String} {wd configured : String}
    {s : OsState} (hwd : GoPath.isAbs wd = true) (hne : configured ≠ "")
    (h : ((resolveDataDir quote (.ok wd) configured).eval OsState.exec s).1 = .ok dataDir) :
    AbsClean dataDir := by
  rw [resolveDataDir, if_neg hne] at h
  cases habs : absPath (.ok wd) configured with
  | error err =>
    rw [habs] at h
    cases h
  | ok dir =>
    rw [habs] at h
    rw [checkDataDir_ok h]
    exact absClean_absPath hwd habs

/-- A data directory serves every request path exactly if it is not the root of the file system: below
the root only the root itself is served. -/
theorem resolve_ok_iff {quote : String → String} {wd configured dataDir : String} {s : OsState}
    (hwd : GoPath.isAbs wd = true) (hne : configured ≠ "")
    (h : ((resolveDataDir quote (.ok wd) configured).eval OsState.exec s).1 = .ok dataDir)
    (rel : String) :
    (∃ full, resolve dataDir rel = .ok full) ↔ dataDir ≠ "/" ∨ requested rel = [] := by
  have hclean := absClean_of_resolveDataDir hwd hne h
  rcases resolve_cases hclean rel with ⟨hroot, hreq, herr⟩ | ⟨hserved, full, hok, -⟩
  · refine iff_of_false ?_ ?_
    · rintro ⟨full, hok⟩
      rw [herr] at hok
      cases hok
    · rintro (hne | hnil)
      · exact hne hroot
      · exact hreq hnil
  · exact iff_of_true ⟨full, hok⟩ hserved

def smallTree : Posix.Tree :=
  ((((GoMap.empty.insert [] .dir).insert ["etc".toList] .dir).insert ["srv".toList] .dir).insert
    ["srv".toList, "data".toList] .dir).insert ["etc".toList, "passwd".toList] (.file [0x72])

theorem resolve_ok_iff_srv : (∃ full, resolve "/srv/data" "../etc/passwd" = .ok full) ∧
    ((resolveDataDir id (.ok "/srv") "data").eval OsState.exec ⟨smallTree, []⟩).1 = .ok "/srv/data" := by
  have h : ((resolveDataDir id (.ok "/srv") "data").eval OsState.exec ⟨smallTree, []⟩).1 =
      .ok "/srv/data" := by decide +kernel
  exact ⟨(resolve_ok_iff (by decide +kernel) (by decide) h _).mpr (.inl (by decide)), h⟩

/-- Below the root of the file system nothing is served. -/
theorem resolve_refused_root :
    ((resolveDataDir id (.ok "/srv") "/").eval OsState.exec ⟨smallTree, []⟩).1 = .ok "/" ∧
      resolve "/" "etc/passwd" = .error errPathEscapes := by
  decide +kernel

end Hostlink.Agent.Fs
