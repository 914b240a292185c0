import Hostlink.Lib.GoMap
import Hostlink.Lib.GoPath

/-! A tree of files with symbolic links, and how the operating system walks a path through it. A file
is known by the names that lead to it from the root without a link. -/

namespace Posix
open GoPath (Plain)

abbrev Name := List Char
abbrev Path := List Name

inductive Node where
  | dir
  | file (content : List UInt8)
  | link (target : List Char)
  deriving DecidableEq, Repr

inductive Errno where
  | noent
  | notdir
  | isdir
  | exist
  | notempty
  | loop
  deriving DecidableEq, Repr

abbrev Tree := GoMap Path Node

structure WellFormed (t : Tree) : Prop where
  root : t.get [] = some .dir
  parent : ∀ p c, t.get (p ++ [c]) ≠ none → t.get p = some .dir
  names : ∀ p, t.get p ≠ none → ∀ c ∈ p, Plain c

/-- Where a walk ends: at a file, with the number of links that may still be followed, or at a name that
its directory does not have. -/
inductive Walk where
  | found (p : Path) (links : Nat)
  | absent (p : Path)
  | failed (err : Errno)
  deriving DecidableEq, Repr

/-- What one name leads to; for a link also where the walk goes on. -/
inductive Entry where
  | next (p : Path)
  | missing (p : Path)
  | link (p base : Path) (names : List Name)
  | blocked
  deriving DecidableEq, Repr

def entry (t : Tree) (cur : Path) (c : Name) : Entry :=
  match t.get cur with
  | some .dir =>
    if c = [] ∨ c = ['.'] then .next cur
    else if c = ['.', '.'] then .next cur.dropLast
    else match t.get (cur ++ [c]) with
      | none => .missing (cur ++ [c])
      | some (.link target) =>
        .link (cur ++ [c]) (if target.head? = some '/' then [] else cur) (target.splitOn '/')
      | some .dir | some (.file _) => .next (cur ++ [c])
  | _ => .blocked

/-- The walk up to the next link, where it goes on as `jump`. -/
def walkFrom (t : Tree) (follow : Bool) (links : Nat) (jump : Path → List Name → Walk) :
    Path → List Name → Walk
  | cur, [] => .found cur links
  | cur, c :: rest =>
    match entry t cur c with
    | .next p => walkFrom t follow links jump p rest
    | .missing p => if rest = [] then .absent p else .failed .noent
    | .link p base names =>
      if rest = [] ∧ follow = false then .found p links else jump base (names ++ rest)
    | .blocked => .failed .notdir

/-- The walk from a directory along the given names; `follow` says whether a link in the last place is
followed. -/
def walk (t : Tree) (follow : Bool) : Nat → Path → List Name → Walk
  | 0 => walkFrom t follow 0 fun _ _ => .failed .loop
  | links + 1 => walkFrom t follow (links + 1) (walk t follow links)

/-- `MAXSYMLINKS`. -/
def maxLinks : Nat := 40

def lookup (t : Tree) (follow : Bool) (path : List Char) : Walk :=
  walk t follow maxLinks [] (path.splitOn '/')

variable {t : Tree} {follow : Bool} {links : Nat} {cur p : Path} {c : Name}

/-! ### Trees that can be checked -/

theorem wellFormed_iff (t : Tree) : (t.get [] = some .dir ∧ ∀ p ∈ t.keys, t.get p ≠ none →
    (p ≠ [] → t.get p.dropLast = some .dir) ∧ ∀ c ∈ p, Plain c) ↔ WellFormed t := by
  constructor
  · rintro ⟨hroot, hkeys⟩
    refine ⟨hroot, fun p c hp => ?_, fun p hp => (hkeys p (t.covers p hp) hp).2⟩
    have hparent := (hkeys _ (t.covers _ hp) hp).1 (List.append_ne_nil_of_right_ne_nil p (List.cons_ne_nil c []))
    rwa [List.dropLast_concat] at hparent
  · intro h
    refine ⟨h.root, fun p _ hp => ⟨fun hne => ?_, h.names p hp⟩⟩
    refine h.parent _ (p.getLast hne) ?_
    rwa [List.dropLast_append_getLast hne]

instance (t : Tree) : Decidable (WellFormed t) := decidable_of_iff _ (wellFormed_iff t)

/-! ### Walks that go on -/

def Walk.andThen (t : Tree) (follow : Bool) (names : List Name) : Walk → Walk
  | .found p links => walk t follow links p names
  | .absent _ => .failed .noent
  | .failed err => .failed err

def jump (t : Tree) (follow : Bool) : Nat → Path → List Name → Walk
  | 0 => fun _ _ => .failed .loop
  | links + 1 => walk t follow links

theorem walk_eq (t : Tree) (follow : Bool) (links : Nat) :
    walk t follow links = walkFrom t follow links (jump t follow links) := by
  cases links <;> rfl

theorem walk_nil (t : Tree) (follow : Bool) (links : Nat) (cur : Path) :
    walk t follow links cur [] = .found cur links := by
  rw [walk_eq]
  rfl

theorem walk_cons (t : Tree) (follow : Bool) (links : Nat) (cur : Path) (c : Name)
    (rest : List Name) : walk t follow links cur (c :: rest) = match entry t cur c with
      | .next p => walk t follow links p rest
      | .missing p => if rest = [] then .absent p else .failed .noent
      | .link p base names =>
        if rest = [] ∧ follow = false then .found p links else jump t follow links base (names ++ rest)
      | .blocked => .failed .notdir := by
  rw [walk_eq]
  rfl

theorem walk_next {rest : List Name} (h : entry t cur c = .next p) :
    walk t follow links cur (c :: rest) = walk t follow links p rest := by
  rw [walk_cons, h]

theorem walk_append_of_jump {ys : List Name} (hys : ys ≠ [])
    (hjump : ∀ base zs, jump t follow links base (zs ++ ys) =
      (jump t true links base zs).andThen t follow ys) (cur : Path) (xs : List Name) :
    walk t follow links cur (xs ++ ys) = (walk t true links cur xs).andThen t follow ys := by
  induction xs generalizing cur with
  | nil =>
    rw [walk_nil]
    rfl
  | cons c rest ih =>
    have hmore : rest ++ ys ≠ [] := List.append_ne_nil_of_right_ne_nil rest hys
    rw [List.cons_append, walk_cons, walk_cons]
    cases entry t cur c with
    | next p => exact ih p
    | missing p =>
      dsimp only
      rw [if_neg hmore]
      split <;> rfl
    | link p base names =>
      dsimp only
      rw [if_neg (fun h => hmore h.1), if_neg (fun h => Bool.true_eq_false.mp h.2),
        ← List.append_assoc]
      exact hjump base (names ++ rest)
    | blocked => rfl

theorem walk_append (t : Tree) (follow : Bool) (links : Nat) (cur : Path) (xs : List Name)
    {ys : List Name} (hys : ys ≠ []) :
    walk t follow links cur (xs ++ ys) = (walk t true links cur xs).andThen t follow ys := by
  induction links generalizing cur xs with
  | zero => exact walk_append_of_jump hys (fun _ _ => rfl) cur xs
  | succ links ih =>
    refine walk_append_of_jump hys ?_ cur xs
    exact ih

/-! ### How many links a walk may follow -/

def Walk.spare (k : Nat) : Walk → Walk
  | .found p links => .found p (links + k)
  | w => w

theorem walk_spare_of_jump (k : Nat)
    (hjump : ∀ base zs, jump t follow links base zs ≠ .failed .loop →
      jump t follow (links + k) base zs = (jump t follow links base zs).spare k)
    {cur : Path} {names : List Name} (h : walk t follow links cur names ≠ .failed .loop) :
    walk t follow (links + k) cur names = (walk t follow links cur names).spare k := by
  induction names generalizing cur with
  | nil =>
    rw [walk_nil, walk_nil]
    rfl
  | cons c rest ih =>
    rw [walk_cons] at h ⊢
    rw [walk_cons]
    cases hentry : entry t cur c with
    | next p =>
      rw [hentry] at h
      exact ih h
    | missing p =>
      dsimp only
      split <;> rfl
    | link p base zs =>
      rw [hentry] at h
      dsimp only at h ⊢
      split
      · rfl
      · next hgo =>
        rw [if_neg hgo] at h
        exact hjump base _ h
    | blocked => rfl

theorem walk_spare (k : Nat) {names : List Name}
    (h : walk t follow links cur names ≠ .failed .loop) :
    walk t follow (links + k) cur names = (walk t follow links cur names).spare k := by
  induction links generalizing cur names with
  | zero => exact walk_spare_of_jump k (fun _ _ hloop => absurd rfl hloop) h
  | succ links ih =>
    refine walk_spare_of_jump k (fun base zs hjump => ?_) h
    rw [Nat.add_right_comm]
    exact ih hjump

/-! ### How a walk can end -/

theorem walk_ends_of_jump {I : Nat → Walk → Prop} (hfound : ∀ p, I links (.found p links))
    (habsent : ∀ cur c p, entry t cur c = .missing p → I links (.absent p))
    (hfailed : ∀ err, I links (.failed err))
    (hjump : ∀ base zs, I links (jump t follow links base zs)) (cur : Path) (names : List Name) :
    I links (walk t follow links cur names) := by
  induction names generalizing cur with
  | nil =>
    rw [walk_nil]
    exact hfound cur
  | cons c rest ih =>
    rw [walk_cons]
    cases hentry : entry t cur c with
    | next p => exact ih p
    | missing p =>
      dsimp only
      split
      · exact habsent cur c p hentry
      · exact hfailed _
    | link p base zs =>
      dsimp only
      split
      · exact hfound p
      · exact hjump base _
    | blocked => exact hfailed _

theorem walk_ends {I : Nat → Walk → Prop} (hfound : ∀ links p, I links (.found p links))
    (habsent : ∀ links cur c p, entry t cur c = .missing p → I links (.absent p))
    (hfailed : ∀ links err, I links (.failed err)) (hlink : ∀ links w, I links w → I (links + 1) w)
    (links : Nat) (cur : Path) (names : List Name) : I links (walk t follow links cur names) := by
  induction links generalizing cur names with
  | zero => exact walk_ends_of_jump (hfound 0) (habsent 0) (hfailed 0) (fun _ _ => hfailed 0 _) cur names
  | succ links ih =>
    refine walk_ends_of_jump (hfound _) (habsent _) (hfailed _) (fun base zs => ?_) cur names
    exact hlink links _ (ih base zs)

theorem links_le {names : List Name} {left : Nat}
    (h : walk t follow links cur names = .found p left) : left ≤ links := by
  refine walk_ends (I := fun links w => ∀ p left, w = .found p left → left ≤ links) ?_ ?_ ?_ ?_
    links cur names p left h
  · intro links p q left hq
    exact Nat.le_of_eq (Walk.found.inj hq).2.symm
  · intro links cur c p _ q left hq
    cases hq
  · intro links err q left hq
    cases hq
  · intro links w ih q left hq
    exact Nat.le_succ_of_le (ih q left hq)

theorem get_of_missing (h : entry t cur c = .missing p) : t.get p = none := by
  unfold entry at h
  split at h
  · split at h
    · cases h
    · split at h
      · cases h
      · split at h
        · next hget =>
          rwa [← Entry.missing.inj h]
        · cases h
        · cases h
        · cases h
  · cases h

theorem get_of_absent {names : List Name} (h : walk t follow links cur names = .absent p) :
    t.get p = none := by
  refine walk_ends (I := fun _ w => ∀ p, w = .absent p → t.get p = none) ?_ ?_ ?_ ?_
    links cur names p h
  · intro links p q hq
    cases hq
  · intro links cur c p hentry q hq
    rw [← Walk.absent.inj hq]
    exact get_of_missing hentry
  · intro links err q hq
    cases hq
  · intro links w ih
    exact ih

/-! ### Walks without links -/

theorem WellFormed.dir_of_append (h : WellFormed t) {q : Path} (hq : q ≠ [])
    (hget : t.get (p ++ q) ≠ none) : t.get p = some .dir := by
  induction q using List.reverseRecOn with
  | nil => exact absurd rfl hq
  | append_singleton q c ih =>
    rw [← List.append_assoc] at hget
    have hparent := h.parent (p ++ q) c hget
    by_cases hnil : q = []
    · rwa [hnil, List.append_nil] at hparent
    · exact ih hnil (by rw [hparent]; exact Option.some_ne_none _)

theorem entry_blocked (hcur : t.get cur ≠ some .dir) : entry t cur c = .blocked := by
  unfold entry
  split
  · next hdir => exact absurd hdir hcur
  · rfl

theorem entry_missing (hcur : t.get cur = some .dir) (hc : Plain c)
    (hget : t.get (cur ++ [c]) = none) : entry t cur c = .missing (cur ++ [c]) := by
  simp only [entry, hcur, hget, if_neg (not_or.mpr ⟨hc.ne_nil, hc.ne_dot⟩), if_neg hc.ne_dotdot]

theorem entry_dir (hcur : t.get cur = some .dir) (hc : Plain c)
    (hget : t.get (cur ++ [c]) = some .dir) : entry t cur c = .next (cur ++ [c]) := by
  simp only [entry, hcur, hget, if_neg (not_or.mpr ⟨hc.ne_nil, hc.ne_dot⟩), if_neg hc.ne_dotdot]

theorem entry_file (hcur : t.get cur = some .dir) (hc : Plain c) {content : List UInt8}
    (hget : t.get (cur ++ [c]) = some (.file content)) : entry t cur c = .next (cur ++ [c]) := by
  simp only [entry, hcur, hget, if_neg (not_or.mpr ⟨hc.ne_nil, hc.ne_dot⟩), if_neg hc.ne_dotdot]

theorem entry_link (hcur : t.get cur = some .dir) (hc : Plain c) {target : List Char}
    (hget : t.get (cur ++ [c]) = some (.link target)) : entry t cur c =
      .link (cur ++ [c]) (if target.head? = some '/' then [] else cur) (target.splitOn '/') := by
  simp only [entry, hcur, hget, if_neg (not_or.mpr ⟨hc.ne_nil, hc.ne_dot⟩), if_neg hc.ne_dotdot]

theorem WellFormed.walk_dir (h : WellFormed t) {names : List Name}
    (hget : t.get (cur ++ names) = some .dir) :
    walk t follow links cur names = .found (cur ++ names) links := by
  induction names generalizing cur with
  | nil => rw [walk_nil, List.append_nil]
  | cons c rest ih =>
    have hne : t.get (cur ++ c :: rest) ≠ none := by
      rw [hget]
      exact Option.some_ne_none _
    have hcur := h.dir_of_append (List.cons_ne_nil c rest) hne
    have hc : Plain c := h.names _ hne c (List.mem_append_right _ List.mem_cons_self)
    rw [List.append_cons] at hget hne ⊢
    have hnext : t.get (cur ++ [c]) = some .dir := by
      by_cases hrest : rest = []
      · rwa [hrest, List.append_nil] at hget
      · exact h.dir_of_append hrest hne
    rw [walk_next (entry_dir hcur hc hnext)]
    exact ih hget

theorem entry_nil (hroot : t.get [] = some .dir) : entry t [] [] = .next [] := by
  rw [entry, hroot]
  rfl

theorem lookup_render (hroot : t.get [] = some .dir) {names : List Name}
    (hnames : ∀ c ∈ names, Plain c) :
    lookup t follow (GoPath.render names) = walk t follow maxLinks [] names := by
  rw [lookup, GoPath.splitOn_render hnames]
  split
  · next hnil => rw [hnil, walk_next (entry_nil hroot), walk_next (entry_nil hroot)]
  · exact walk_next (entry_nil hroot)

/-! ### Links that stay in a directory -/

def Walk.Inside (D : Path) : Walk → Prop
  | .found p _ | .absent p => D <+: p
  | .failed _ => True

instance (D : Path) : (w : Walk) → Decidable (w.Inside D)
  | .found p _ => inferInstanceAs (Decidable (D <+: p))
  | .absent p => inferInstanceAs (Decidable (D <+: p))
  | .failed _ => isTrue trivial

theorem Walk.inside_spare {D : Path} {k : Nat} {w : Walk} : (w.spare k).Inside D ↔ w.Inside D := by
  cases w <;> rfl

def LinksInside (t : Tree) (D : Path) (links : Nat) : Prop :=
  ∀ names target, t.get (D ++ names) = some (.link target) → (walk t true links D names).Inside D

def Node.isLink : Node → Bool
  | .link _ => true
  | _ => false

theorem linksInside_iff (t : Tree) (D : Path) (links : Nat) :
    (∀ p ∈ t.keys, D <+: p → (t.get p).any Node.isLink = true →
      (walk t true links D (p.drop D.length)).Inside D) ↔ LinksInside t D links := by
  constructor
  · intro h names target hget
    have hwalk := h (D ++ names) (t.covers _ (by rw [hget]; exact Option.some_ne_none _))
      (List.prefix_append D names) (by rw [hget]; rfl)
    rwa [List.drop_left] at hwalk
  · rintro h p - ⟨names, rfl⟩ hlink
    rw [List.drop_left]
    cases hget : t.get (D ++ names) with
    | none =>
      rw [hget] at hlink
      cases hlink
    | some node =>
      cases node with
      | dir =>
        rw [hget] at hlink
        cases hlink
      | file content =>
        rw [hget] at hlink
        cases hlink
      | link target => exact h names target hget

instance (t : Tree) (D : Path) (links : Nat) : Decidable (LinksInside t D links) :=
  decidable_of_iff _ (linksInside_iff t D links)

theorem LinksInside.jump {D : Path} {n m : Nat} (h : LinksInside t D n) (hwf : WellFormed t)
    (hcur : D <+: cur) (hdir : t.get cur = some .dir) (hc : Plain c) {target : List Char}
    (hget : t.get (cur ++ [c]) = some (.link target)) (hm : m + 1 ≤ n) :
    (walk t true m (if target.head? = some '/' then [] else cur) (target.splitOn '/')).Inside D := by
  obtain ⟨names, rfl⟩ := hcur
  obtain ⟨k, rfl⟩ := Nat.exists_eq_add_of_le hm
  have hlink := h (names ++ [c]) target (by rw [← List.append_assoc]; exact hget)
  rw [walk_append _ _ _ _ _ (List.cons_ne_nil c []), hwf.walk_dir hdir] at hlink
  have hstep : walk t true (m + 1 + k) (D ++ names) [c] =
      walk t true (m + k) (if target.head? = some '/' then [] else D ++ names)
        (target.splitOn '/') := by
    rw [walk_cons, entry_link hdir hc hget, Nat.add_right_comm]
    dsimp only
    rw [if_neg (fun hf => Bool.true_eq_false.mp hf.2), List.append_nil]
    rfl
  rw [Walk.andThen, hstep] at hlink
  by_cases hloop : walk t true m (if target.head? = some '/' then [] else D ++ names)
      (target.splitOn '/') = .failed .loop
  · rw [hloop]
    trivial
  · rwa [walk_spare k hloop, Walk.inside_spare] at hlink

theorem LinksInside.walk {D : Path} {n m : Nat} (h : LinksInside t D n) (hwf : WellFormed t)
    {names : List Name} (hnames : ∀ c ∈ names, Plain c) (hcur : D <+: cur) (hm : m ≤ n) :
    (walk t follow m cur names).Inside D := by
  induction names generalizing cur m with
  | nil =>
    rw [walk_nil]
    exact hcur
  | cons c rest ih =>
    have hc := hnames c List.mem_cons_self
    have hrest : ∀ d ∈ rest, Plain d := fun d hd => hnames d (List.mem_cons_of_mem _ hd)
    have hnext : D <+: cur ++ [c] := hcur.trans (List.prefix_append _ _)
    rw [walk_cons]
    by_cases hdir : t.get cur = some .dir
    · cases hget : t.get (cur ++ [c]) with
      | none =>
        rw [entry_missing hdir hc hget]
        dsimp only
        split
        · exact hnext
        · trivial
      | some node =>
        cases node with
        | dir =>
          rw [entry_dir hdir hc hget]
          exact ih hrest hnext hm
        | file content =>
          rw [entry_file hdir hc hget]
          exact ih hrest hnext hm
        | link target =>
          rw [entry_link hdir hc hget]
          dsimp only
          split
          · exact hnext
          · next hgo =>
            cases m with
            | zero => trivial
            | succ m =>
              have hjump := h.jump hwf hcur hdir hc hget hm
              show (Posix.walk t follow m _ _).Inside D
              by_cases hnil : rest = []
              · have hfollow : follow = true := by
                  cases hf : follow with
                  | false => exact absurd ⟨hnil, hf⟩ hgo
                  | true => rfl
                rw [hnil, List.append_nil, hfollow]
                exact hjump
              · rw [walk_append _ _ _ _ _ hnil]
                cases hw : Posix.walk t true m (if target.head? = some '/' then [] else cur)
                    (target.splitOn '/') with
                | found p left =>
                  rw [hw] at hjump
                  have hleft := links_le hw
                  exact ih hrest hjump (by omega)
                | absent p => trivial
                | failed err => trivial
    · rw [entry_blocked hdir]
      trivial

end Posix
