import Mathlib.Data.List.DropRight
import Mathlib.Tactic.Common

/-! `path/filepath` where the separator is a slash: `Clean`, `Join`, `Dir` and `Base`. -/

namespace GoPath

/-! ### The functions -/

/-- What `Clean` has written, and how far a `..` may not go back. -/
structure Buf where
  out : List Char
  dotdot : Nat
  deriving DecidableEq, Repr

/-- Where a `..` leaves the buffer that was written up to `w`. -/
def backtrack (out : List Char) (dotdot : Nat) : Nat → Nat
  | 0 => 0
  | w + 1 => if dotdot < w ∧ out[w]? ≠ some '/' then backtrack out dotdot w else w

def element (rooted : Bool) (b : Buf) (elem : List Char) : Buf :=
  if elem = [] ∨ elem = ['.'] then b
  else if elem = ['.', '.'] then
    if b.dotdot < b.out.length then
      { b with out := b.out.take (backtrack b.out b.dotdot b.out.length) }
    else if rooted then b
    else
      let out := (if b.out = [] then [] else b.out ++ ['/']) ++ ['.', '.']
      ⟨out, out.length⟩
  else
    { b with out := (if b.out.length ≠ (if rooted then 1 else 0) then b.out ++ ['/'] else b.out) ++ elem }

def cleanChars (path : List Char) : List Char :=
  let rooted : Bool := path.head? = some '/'
  let start : Buf := if rooted then ⟨['/'], 1⟩ else ⟨[], 0⟩
  let out := ((path.splitOn '/').foldl (element rooted) start).out
  if out = [] then ['.'] else out

def clean (path : String) : String := String.ofList (cleanChars path.toList)

def join (a b : String) : String :=
  if a ≠ "" then clean (a ++ "/" ++ b) else if b ≠ "" then clean b else ""

def dir (path : String) : String := clean (String.ofList (path.toList.rdropWhile (· ≠ '/')))

def baseChars (path : List Char) : List Char := (path.rdropWhile (· = '/')).rtakeWhile (· ≠ '/')

def base (path : String) : String :=
  if path = "" then "."
  else if baseChars path.toList = [] then "/" else String.ofList (baseChars path.toList)

def isAbs (path : String) : Bool := path.toList.head? = some '/'

/-! ### Components -/

structure Plain (c : List Char) : Prop where
  ne_nil : c ≠ []
  ne_dot : c ≠ ['.']
  ne_dotdot : c ≠ ['.', '.']
  noSlash : '/' ∉ c

theorem plain_iff (c : List Char) : c ≠ [] ∧ c ≠ ['.'] ∧ c ≠ ['.', '.'] ∧ '/' ∉ c ↔ Plain c :=
  ⟨fun h => ⟨h.1, h.2.1, h.2.2.1, h.2.2.2⟩, fun h => ⟨h.ne_nil, h.ne_dot, h.ne_dotdot, h.noSlash⟩⟩

instance (c : List Char) : Decidable (Plain c) := decidable_of_iff _ (plain_iff c)

def push (cs : List (List Char)) (elem : List Char) : List (List Char) :=
  if elem = [] ∨ elem = ['.'] then cs
  else if elem = ['.', '.'] then cs.dropLast
  else cs ++ [elem]

/-- The elements from left to right: empty ones and `.` are dropped, and `..` takes back the component
before it if there is one. -/
def normalize (elems : List (List Char)) : List (List Char) := elems.foldl push []

def components (path : List Char) : List (List Char) := (path.splitOn '/').filter (· ≠ [])

def render (cs : List (List Char)) : List Char :=
  if cs = [] then ['/'] else cs.flatMap ('/' :: ·)

theorem push_plain {cs : List (List Char)} {c : List Char} (h : Plain c) : push cs c = cs ++ [c] := by
  rw [push, if_neg (not_or.mpr ⟨h.ne_nil, h.ne_dot⟩), if_neg h.ne_dotdot]

theorem foldl_push_plain {cs ds : List (List Char)} (h : ∀ d ∈ ds, Plain d) :
    ds.foldl push cs = cs ++ ds := by
  induction ds generalizing cs with
  | nil => exact (List.append_nil cs).symm
  | cons d ds ih =>
    rw [List.foldl_cons, push_plain (h d List.mem_cons_self),
      ih fun d' hd' => h d' (List.mem_cons_of_mem _ hd'), List.append_assoc, List.singleton_append]

theorem plain_push {cs : List (List Char)} {elem : List Char} (hcs : ∀ c ∈ cs, Plain c)
    (helem : '/' ∉ elem) : ∀ c ∈ push cs elem, Plain c := by
  intro c hc
  unfold push at hc
  split at hc
  · exact hcs c hc
  · next hskip =>
    split at hc
    · exact hcs c (List.dropLast_subset cs hc)
    · next hdotdot =>
      rcases List.mem_append.mp hc with hold | hnew
      · exact hcs c hold
      · rw [List.mem_singleton.mp hnew]
        exact ⟨fun h => hskip (.inl h), fun h => hskip (.inr h), hdotdot, helem⟩

theorem plain_foldl_push {elems cs : List (List Char)} (hcs : ∀ c ∈ cs, Plain c)
    (h : ∀ e ∈ elems, '/' ∉ e) : ∀ c ∈ elems.foldl push cs, Plain c := by
  induction elems generalizing cs with
  | nil => exact hcs
  | cons e elems ih =>
    exact ih (plain_push hcs (h e List.mem_cons_self)) fun e' he' => h e' (List.mem_cons_of_mem _ he')

theorem noSlash_of_mem_splitOn {path elem : List Char} (h : elem ∈ path.splitOn '/') :
    '/' ∉ elem := by
  induction path generalizing elem with
  | nil =>
    rw [List.splitOn_nil, List.mem_singleton] at h
    rw [h]
    exact List.not_mem_nil
  | cons c path ih =>
    rw [List.splitOn_cons_eq_if_modifyHead] at h
    split at h
    · rcases List.mem_cons.mp h with rfl | hrest
      · exact List.not_mem_nil
      · exact ih hrest
    · next hc =>
      cases hsplit : path.splitOn '/' with
      | nil => exact absurd hsplit (List.splitOn_ne_nil _ _)
      | cons first rest =>
        rw [hsplit] at h
        rcases List.mem_cons.mp h with rfl | hrest
        · intro hmem
          rcases List.mem_cons.mp hmem with rfl | hfirst
          · exact hc (beq_self_eq_true _)
          · exact ih (by rw [hsplit]; exact List.mem_cons_self) hfirst
        · exact ih (by rw [hsplit]; exact List.mem_cons_of_mem _ hrest)

theorem plain_normalize (path : List Char) : ∀ c ∈ normalize (path.splitOn '/'), Plain c :=
  plain_foldl_push (fun _ hc => absurd hc List.not_mem_nil) fun _ => noSlash_of_mem_splitOn

theorem splitOn_append_flatMap {c : List Char} {cs : List (List Char)} (hc : '/' ∉ c)
    (hcs : ∀ d ∈ cs, '/' ∉ d) : (c ++ cs.flatMap ('/' :: ·)).splitOn '/' = c :: cs := by
  induction cs generalizing c with
  | nil => rw [List.flatMap_nil, List.append_nil, List.splitOn_eq_singleton hc]
  | cons d cs ih =>
    rw [List.flatMap_cons, List.cons_append, List.splitOn_append_cons_self,
      List.splitOn_eq_singleton hc,
      ih (hcs d List.mem_cons_self) fun d' hd' => hcs d' (List.mem_cons_of_mem _ hd')]
    rfl

/-! ### Rooted paths -/

theorem render_concat {cs : List (List Char)} (hcs : cs ≠ []) (c : List Char) :
    render (cs ++ [c]) = render cs ++ '/' :: c := by
  rw [render, if_neg (List.concat_ne_nil c cs), render, if_neg hcs, List.flatMap_append,
    List.flatMap_singleton]

theorem length_render {cs : List (List Char)} (hcs : ∀ c ∈ cs, c ≠ []) (h : cs ≠ []) :
    1 < (render cs).length := by
  obtain ⟨c, rest, rfl⟩ := List.exists_cons_of_ne_nil h
  have hc := List.length_pos_iff.mpr (hcs c List.mem_cons_self)
  rw [render, if_neg h, List.flatMap_cons, List.length_append, List.length_cons]
  omega

theorem backtrack_mark (pre : List Char) {x : List Char} (hx : '/' ∉ x) (hne : x ≠ [])
    (y : List Char) : backtrack (pre ++ x ++ y) pre.length (pre.length + x.length) = pre.length := by
  induction x using List.reverseRecOn generalizing y with
  | nil => exact absurd rfl hne
  | append_singleton x a ih =>
    rw [List.length_append, List.length_singleton, ← Nat.add_assoc, backtrack]
    by_cases hnil : x = []
    · subst hnil
      rw [if_neg (fun h => Nat.lt_irrefl _ h.1)]
      rfl
    · have hlen := List.length_pos_iff.mpr hnil
      have hget : (pre ++ (x ++ [a]) ++ y)[pre.length + x.length]? = some a := by
        rw [← List.append_assoc, List.append_assoc (pre ++ x), ← List.length_append,
          List.getElem?_append_right (Nat.le_refl _), Nat.sub_self]
        rfl
      have ha : a ≠ '/' := by
        rintro rfl
        exact hx (List.mem_append_right _ List.mem_cons_self)
      rw [if_pos ⟨by omega, by rw [hget]; exact fun h => ha (Option.some.inj h)⟩]
      have hback := ih (fun h => hx (List.mem_append_left _ h)) hnil ([a] ++ y)
      rwa [← List.append_assoc, List.append_assoc pre x [a]] at hback

theorem backtrack_slash (pre : List Char) {dotdot : Nat} (hdotdot : dotdot ≤ pre.length)
    {x : List Char} (hx : '/' ∉ x) (y : List Char) :
    backtrack (pre ++ '/' :: x ++ y) dotdot (pre.length + 1 + x.length) = pre.length := by
  induction x using List.reverseRecOn generalizing y with
  | nil =>
    have hget : (pre ++ ['/'] ++ y)[pre.length]? = some '/' := by
      rw [List.append_assoc, List.getElem?_append_right (Nat.le_refl _), Nat.sub_self]
      rfl
    show backtrack _ _ (pre.length + 1) = _
    rw [backtrack, if_neg (fun h => h.2 hget)]
  | append_singleton x a ih =>
    have hget : (pre ++ '/' :: (x ++ [a]) ++ y)[pre.length + 1 + x.length]? = some a := by
      rw [show pre ++ '/' :: (x ++ [a]) ++ y = (pre ++ '/' :: x) ++ ([a] ++ y) by
        simp only [List.append_assoc, List.cons_append, List.nil_append]]
      rw [List.getElem?_append_right (by rw [List.length_append, List.length_cons]; omega)]
      rw [show pre.length + 1 + x.length - (pre ++ '/' :: x).length = 0 by
        rw [List.length_append, List.length_cons]; omega]
      rfl
    have ha : a ≠ '/' := by
      rintro rfl
      exact hx (List.mem_append_right _ List.mem_cons_self)
    rw [List.length_append, List.length_singleton, ← Nat.add_assoc, backtrack,
      if_pos ⟨by omega, by rw [hget]; exact fun h => ha (Option.some.inj h)⟩]
    have hback := ih (fun h => hx (List.mem_append_left _ h)) ([a] ++ y)
    rwa [show pre ++ '/' :: x ++ ([a] ++ y) = pre ++ '/' :: (x ++ [a]) ++ y by
      simp only [List.append_assoc, List.cons_append, List.nil_append]] at hback

theorem take_backtrack {cs : List (List Char)} {c : List Char} (hcs : ∀ d ∈ cs, Plain d)
    (hc : Plain c) : (render (cs ++ [c])).take
      (backtrack (render (cs ++ [c])) 1 (render (cs ++ [c])).length) = render cs := by
  by_cases hnil : cs = []
  · subst hnil
    have hback := backtrack_mark ['/'] hc.noSlash hc.ne_nil []
    rw [List.append_nil] at hback
    have hrender : render ([] ++ [c]) = ['/'] ++ c := by
      rw [List.nil_append, render, if_neg (List.cons_ne_nil _ _), List.flatMap_singleton]
      rfl
    rw [hrender, List.length_append]
    rw [List.length_singleton] at hback ⊢
    rw [hback]
    rfl
  · have hlen := length_render (fun d hd => (hcs d hd).ne_nil) hnil
    have hback := backtrack_slash (render cs) (Nat.le_of_lt hlen) hc.noSlash []
    rw [List.append_nil] at hback
    rw [render_concat hnil, List.length_append, List.length_cons]
    rw [show (render cs).length + (c.length + 1) = (render cs).length + 1 + c.length by omega, hback,
      List.take_left']
    rfl

theorem element_render {cs : List (List Char)} {elem : List Char} (hcs : ∀ c ∈ cs, Plain c) :
    element true ⟨render cs, 1⟩ elem = ⟨render (push cs elem), 1⟩ := by
  unfold element push
  split
  · rfl
  · next hskip =>
    split
    · rcases List.eq_nil_or_concat' cs with rfl | ⟨cs, c, rfl⟩
      · rfl
      · have hlen := length_render (fun d hd => (hcs d hd).ne_nil) (List.concat_ne_nil c cs)
        rw [if_pos hlen, List.dropLast_concat]
        exact congrArg (Buf.mk · 1) (take_backtrack (fun d hd => hcs d (List.mem_append_left _ hd))
          (hcs c (List.mem_append_right _ List.mem_cons_self)))
    · rw [if_pos rfl]
      by_cases hnil : cs = []
      · subst hnil
        rw [List.nil_append, show render [elem] = '/' :: elem by
          rw [render, if_neg (List.cons_ne_nil _ _), List.flatMap_singleton]]
        rfl
      · have hlen := length_render (fun d hd => (hcs d hd).ne_nil) hnil
        rw [if_pos (Nat.ne_of_gt hlen), render_concat hnil, List.append_assoc, List.singleton_append]

theorem foldl_element_render {elems cs : List (List Char)} (hcs : ∀ c ∈ cs, Plain c)
    (h : ∀ e ∈ elems, '/' ∉ e) :
    elems.foldl (element true) ⟨render cs, 1⟩ = ⟨render (elems.foldl push cs), 1⟩ := by
  induction elems generalizing cs with
  | nil => rfl
  | cons e elems ih =>
    rw [List.foldl_cons, element_render hcs, List.foldl_cons]
    exact ih (plain_push hcs (h e List.mem_cons_self)) fun e' he' => h e' (List.mem_cons_of_mem _ he')

theorem render_ne_nil (cs : List (List Char)) : render cs ≠ [] := by
  unfold render
  split
  · exact List.cons_ne_nil _ _
  · next h =>
    obtain ⟨c, rest, rfl⟩ := List.exists_cons_of_ne_nil h
    exact List.cons_ne_nil _ _

theorem cleanChars_rooted {path : List Char} (h : path.head? = some '/') :
    cleanChars path = render (normalize (path.splitOn '/')) := by
  have hfold : (path.splitOn '/').foldl (element true) ⟨['/'], 1⟩ =
      ⟨render ((path.splitOn '/').foldl push []), 1⟩ :=
    foldl_element_render (fun _ hc => absurd hc List.not_mem_nil) fun _ => noSlash_of_mem_splitOn
  rw [cleanChars, decide_eq_true h]
  rw [if_pos rfl, hfold, if_neg (render_ne_nil _)]
  rfl

theorem head?_render (cs : List (List Char)) : (render cs).head? = some '/' := by
  unfold render
  split
  · rfl
  · next h =>
    obtain ⟨c, rest, rfl⟩ := List.exists_cons_of_ne_nil h
    rfl

theorem splitOn_render {cs : List (List Char)} (hcs : ∀ c ∈ cs, Plain c) :
    (render cs).splitOn '/' = if cs = [] then [[], []] else [] :: cs := by
  unfold render
  split
  · rfl
  · exact splitOn_append_flatMap (c := []) List.not_mem_nil fun d hd => (hcs d hd).noSlash

theorem components_render {cs : List (List Char)} (hcs : ∀ c ∈ cs, Plain c) :
    components (render cs) = cs := by
  rw [components, splitOn_render hcs]
  split
  · next h => rw [h]; rfl
  · rw [List.filter_cons_of_neg (by simp), List.filter_eq_self.mpr]
    exact fun c hc => decide_eq_true (hcs c hc).ne_nil

theorem foldl_push_splitOn_render {cs ds : List (List Char)} (hcs : ∀ c ∈ cs, Plain c) :
    ((render cs).splitOn '/').foldl push ds = ds ++ cs := by
  rw [splitOn_render hcs]
  split
  · next h => rw [h, List.append_nil]; rfl
  · rw [List.foldl_cons, show push ds [] = ds from if_pos (.inl rfl), foldl_push_plain hcs]

theorem cleanChars_render {cs : List (List Char)} (hcs : ∀ c ∈ cs, Plain c) :
    cleanChars (render cs) = render cs := by
  rw [cleanChars_rooted (head?_render cs), normalize, foldl_push_splitOn_render hcs, List.nil_append]

theorem render_components {path : List Char} (hroot : path.head? = some '/')
    (hclean : cleanChars path = path) :
    render (components path) = path ∧ ∀ c ∈ components path, Plain c := by
  have hpath := cleanChars_rooted hroot
  rw [hclean] at hpath
  have hplain := plain_normalize path
  have hcomponents : components path = normalize (path.splitOn '/') := by
    conv_lhs => rw [hpath]
    exact components_render hplain
  rw [hcomponents]
  exact ⟨hpath.symm, hplain⟩

theorem cleanChars_append_render {cs ds : List (List Char)} (hcs : ∀ c ∈ cs, Plain c)
    (hds : ∀ d ∈ ds, Plain d) : cleanChars (render cs ++ '/' :: render ds) = render (cs ++ ds) := by
  have hroot : (render cs ++ '/' :: render ds).head? = some '/' := by
    rw [List.head?_append_of_ne_nil _ (render_ne_nil cs), head?_render]
  rw [cleanChars_rooted hroot, List.splitOn_append_cons_self, normalize, List.foldl_append,
    foldl_push_splitOn_render hcs, foldl_push_splitOn_render hds, List.nil_append]

theorem rdropWhile_slash (pre : List Char) {c : List Char} (hc : '/' ∉ c) :
    (pre ++ '/' :: c).rdropWhile (· ≠ '/') = pre ++ ['/'] := by
  induction c using List.reverseRecOn with
  | nil => exact List.rdropWhile_concat_neg _ _ _ (by simp)
  | append_singleton c a ih =>
    have ha : a ≠ '/' := by
      rintro rfl
      exact hc (List.mem_append_right _ List.mem_cons_self)
    rw [show pre ++ '/' :: (c ++ [a]) = (pre ++ '/' :: c) ++ [a] by
      simp only [List.append_assoc, List.cons_append]]
    rw [List.rdropWhile_concat_pos (fun x => decide (x ≠ '/')) _ a (decide_eq_true ha)]
    exact ih fun h => hc (List.mem_append_left _ h)

theorem cleanChars_rdropWhile_render {cs : List (List Char)} {c : List Char}
    (hcs : ∀ d ∈ cs, Plain d) (hc : Plain c) :
    cleanChars ((render (cs ++ [c])).rdropWhile (· ≠ '/')) = render cs := by
  by_cases hnil : cs = []
  · subst hnil
    have hdrop := rdropWhile_slash [] hc.noSlash
    rw [List.nil_append, List.nil_append] at hdrop
    rw [List.nil_append, show render [c] = '/' :: c by
      rw [render, if_neg (List.cons_ne_nil _ _), List.flatMap_singleton], hdrop]
    rfl
  · have hroot : (render cs ++ ['/']).head? = some '/' := by
      rw [List.head?_append_of_ne_nil _ (render_ne_nil cs), head?_render]
    rw [render_concat hnil, rdropWhile_slash _ hc.noSlash, cleanChars_rooted hroot,
      List.splitOn_append_cons_self, normalize, List.foldl_append, foldl_push_splitOn_render hcs]
    rfl

theorem components_dir {path : String} {cs : List (List Char)} {c : List Char}
    (hcs : ∀ d ∈ cs ++ [c], Plain d) (hpath : path.toList = render (cs ++ [c])) :
    components (dir path).toList = cs := by
  have hup : ∀ d ∈ cs, Plain d := fun d hd => hcs d (List.mem_append_left _ hd)
  have hc : Plain c := hcs c (List.mem_append_right _ List.mem_cons_self)
  rw [dir, clean, String.toList_ofList, String.toList_ofList, hpath,
    cleanChars_rdropWhile_render hup hc, components_render hup]

/-! ### The last element -/

theorem exists_last_slash {path : List Char} (h : '/' ∈ path) :
    ∃ before last, path = before ++ '/' :: last ∧ '/' ∉ last := by
  obtain ⟨last, before, hrev, hlast⟩ := List.eq_append_cons_of_mem (List.mem_reverse.mpr h)
  refine ⟨before.reverse, last.reverse, ?_, by rwa [List.mem_reverse]⟩
  rw [← List.reverse_reverse path, hrev, List.reverse_append, List.reverse_cons, List.append_assoc,
    List.singleton_append]

theorem getLast?_splitOn (path : List Char) :
    (path.splitOn '/').getLast? = some (path.rtakeWhile (· ≠ '/')) := by
  by_cases h : '/' ∈ path
  · obtain ⟨before, last, rfl, hlast⟩ := exists_last_slash h
    have hjoin : (before ++ '/' :: last).rdropWhile (· ≠ '/') ++
        (before ++ '/' :: last).rtakeWhile (· ≠ '/') = before ++ '/' :: last :=
      List.rdropWhile_append_rtakeWhile
    rw [rdropWhile_slash before hlast, List.append_assoc, List.append_cancel_left_eq,
      List.singleton_append] at hjoin
    rw [List.splitOn_append_cons_self, List.splitOn_eq_singleton hlast, List.getLast?_concat,
      List.tail_eq_of_cons_eq hjoin]
  · have htake : path.rtakeWhile (· ≠ '/') = path := by
      apply List.rtakeWhile_eq_self_iff.mpr
      exact fun c hc => decide_eq_true fun he => h (he ▸ hc)
    rw [List.splitOn_eq_singleton h, List.getLast?_singleton, htake]

theorem components_append_slash (path : List Char) : components (path ++ ['/']) = components path := by
  rw [components, List.splitOn_append_cons_self, List.splitOn_nil, List.filter_append, components]
  exact List.append_nil _

theorem getLast?_components (path : List Char) :
    (components path).getLast? = if baseChars path = [] then none else some (baseChars path) := by
  induction path using List.reverseRecOn with
  | nil => rfl
  | append_singleton path a ih =>
    by_cases ha : a = '/'
    · subst ha
      have hstrip : (path ++ ['/']).rdropWhile (· = '/') = path.rdropWhile (· = '/') :=
        List.rdropWhile_concat_pos _ _ _ (decide_eq_true rfl)
      rw [components_append_slash, ih, baseChars, baseChars, hstrip]
    · have hbase : baseChars (path ++ [a]) = path.rtakeWhile (· ≠ '/') ++ [a] := by
        have hstrip : (path ++ [a]).rdropWhile (· = '/') = path ++ [a] :=
          List.rdropWhile_concat_neg _ _ _ (by simpa using ha)
        rw [baseChars, hstrip]
        exact List.rtakeWhile_concat_pos _ _ _ (decide_eq_true ha)
      have hlast : ((path ++ [a]).splitOn '/').getLast? = some (baseChars (path ++ [a])) := by
        rw [getLast?_splitOn, hbase]
        exact congrArg some (List.rtakeWhile_concat_pos _ _ _ (decide_eq_true ha))
      have hne : baseChars (path ++ [a]) ≠ [] := hbase ▸ List.concat_ne_nil _ _
      obtain ⟨before, hsplit⟩ := List.getLast?_eq_some_iff.mp hlast
      have hkept : [baseChars (path ++ [a])].filter (· ≠ []) = [baseChars (path ++ [a])] := by
        simpa using hne
      rw [if_neg hne, components, hsplit, List.filter_append, hkept, List.getLast?_concat]

theorem normalize_rdropWhile (path : List Char) :
    normalize ((path.rdropWhile (· = '/')).splitOn '/') = normalize (path.splitOn '/') := by
  induction path using List.reverseRecOn with
  | nil => rfl
  | append_singleton path a ih =>
    by_cases ha : a = '/'
    · subst ha
      have hstrip : (path ++ ['/']).rdropWhile (· = '/') = path.rdropWhile (· = '/') :=
        List.rdropWhile_concat_pos _ _ _ (decide_eq_true rfl)
      rw [hstrip, ih, List.splitOn_append_cons_self, normalize, normalize, List.foldl_append]
      rfl
    · have hstrip : (path ++ [a]).rdropWhile (· = '/') = path ++ [a] :=
        List.rdropWhile_concat_neg _ _ _ (by simpa using ha)
      rw [hstrip]

end GoPath
