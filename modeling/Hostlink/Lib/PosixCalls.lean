import Mathlib.Data.List.Dedup
import Hostlink.Lib.Posix

/-! Calls that change a tree of files. Each says which files it reads, makes, changes or deletes. -/

namespace Posix
open GoPath (Plain)

structure Effect (α : Type) where
  reply : Except Errno α
  tree : Tree
  touched : List Path := []

variable {t t' : Tree} {D p : Path} {c : Name}

def resolve (t : Tree) (path : List Char) : Except Errno Path :=
  match lookup t true path with
  | .found p _ => .ok p
  | .absent _ => .error .noent
  | .failed err => .error err

def children (t : Tree) (p : Path) : List Path :=
  t.keys.dedup.filter fun q => q ≠ [] ∧ q.dropLast = p ∧ (t.get q).isSome

def below (t : Tree) (p : Path) : List Path := t.keys.dedup.filter fun q => p <+: q ∧ (t.get q).isSome

/-- `open` with `O_CREAT` and, unless it is to make the file itself, `O_TRUNC`. -/
def create (t : Tree) (exclusive : Bool) (path : List Char) : Effect Path :=
  match lookup t (!exclusive) path with
  | .found p _ =>
    if exclusive then ⟨.error .exist, t, []⟩
    else match t.get p with
      | some (.file _) => ⟨.ok p, t.insert p (.file []), [p]⟩
      | _ => ⟨.error .isdir, t, []⟩
  | .absent p => ⟨.ok p, t.insert p (.file []), [p]⟩
  | .failed err => ⟨.error err, t, []⟩

def append (t : Tree) (p : Path) (data : List UInt8) : Effect Unit :=
  match t.get p with
  | some (.file content) => ⟨.ok (), t.insert p (.file (content ++ data)), [p]⟩
  | _ => ⟨.ok (), t, []⟩

def remove (t : Tree) (path : List Char) : Effect Unit :=
  match lookup t false path with
  | .found p _ =>
    if t.get p = some .dir ∧ children t p ≠ [] then ⟨.error .notempty, t, []⟩
    else ⟨.ok (), t.erase p, [p]⟩
  | .absent _ => ⟨.error .noent, t, []⟩
  | .failed err => ⟨.error err, t, []⟩

/-- `os.RemoveAll`: links are deleted, not followed, and it is no error if there is nothing. -/
def removeAll (t : Tree) (path : List Char) : Effect Unit :=
  match lookup t false path with
  | .found p _ => ⟨.ok (), t.filterMap fun q node => if p <+: q then none else some node, below t p⟩
  | .absent _ | .failed .noent => ⟨.ok (), t, []⟩
  | .failed err => ⟨.error err, t, []⟩

/-- `os.MkdirAll`; the names of the path come last first. -/
def mkdirAll (t : Tree) : List Name → Effect Unit
  | [] => ⟨.ok (), t, []⟩
  | c :: up =>
    match walk t true maxLinks [] (up.reverse ++ [c]) with
    | .found p _ => ⟨if t.get p = some .dir then .ok () else .error .notdir, t, []⟩
    | _ =>
      let made := mkdirAll t up
      match made.reply with
      | .error err => { made with reply := .error err }
      | .ok _ =>
        match walk made.tree false maxLinks [] (up.reverse ++ [c]) with
        | .absent p => ⟨.ok (), made.tree.insert p .dir, made.touched ++ [p]⟩
        | .found p _ =>
          { made with reply := if made.tree.get p = some .dir then .ok () else .error .exist }
        | .failed err => { made with reply := .error err }

/-! ### Nothing but what is touched changes -/

def Effect.Frame {α : Type} (t : Tree) (e : Effect α) : Prop :=
  ∀ q, q ∉ e.touched → e.tree.get q = t.get q

theorem get_insert_of_not_mem {node : Node} {q : Path} (h : q ∉ [p]) :
    (t.insert p node).get q = t.get q :=
  GoMap.get_insert_of_ne _ (fun hq => h (List.mem_singleton.mpr hq)) _

theorem create_frame (t : Tree) (exclusive : Bool) (path : List Char) :
    (create t exclusive path).Frame t := by
  intro q hq
  unfold create at hq ⊢
  split
  · next hw =>
    rw [hw] at hq
    split
    · rfl
    · next hexcl =>
      dsimp only at hq
      rw [if_neg hexcl] at hq
      split
      · next hget =>
        rw [hget] at hq
        exact get_insert_of_not_mem hq
      · rfl
  · next hw =>
    rw [hw] at hq
    exact get_insert_of_not_mem hq
  · rfl

theorem append_frame (t : Tree) (p : Path) (data : List UInt8) : (append t p data).Frame t := by
  intro q hq
  unfold append at hq ⊢
  split
  · next hget =>
    rw [hget] at hq
    exact get_insert_of_not_mem hq
  · rfl

theorem remove_frame (t : Tree) (path : List Char) : (remove t path).Frame t := by
  intro q hq
  unfold remove at hq ⊢
  split
  · next hw =>
    rw [hw] at hq
    dsimp only at hq
    split
    · rfl
    · next hbusy =>
      rw [if_neg hbusy] at hq
      exact GoMap.get_erase_of_ne _ fun h => hq (List.mem_singleton.mpr h)
  · rfl
  · rfl

theorem mem_below {q : Path} : q ∈ below t p ↔ p <+: q ∧ (t.get q).isSome = true := by
  rw [below, List.mem_filter, List.mem_dedup, decide_eq_true_eq]
  refine and_iff_right_of_imp fun h => t.covers q ?_
  exact Option.isSome_iff_ne_none.mp h.2

theorem removeAll_frame (t : Tree) (path : List Char) : (removeAll t path).Frame t := by
  intro q hq
  unfold removeAll at hq ⊢
  split
  · next p _ hw =>
    rw [hw] at hq
    rw [GoMap.get_filterMap]
    cases hget : t.get q with
    | none => rfl
    | some node =>
      have hout : ¬ p <+: q := fun h => hq (mem_below.mpr ⟨h, by rw [hget]; rfl⟩)
      rw [Option.bind_some, if_neg hout]
  · rfl
  · rfl
  · rfl

inductive Mkdir (t : Tree) (names : List Name) (before : Effect Unit) : Effect Unit → Prop
  | found (p : Path) (links : Nat) (hw : walk t true maxLinks [] names = .found p links) :
      Mkdir t names before ⟨if t.get p = some .dir then .ok () else .error .notdir, t, []⟩
  | failed (err : Errno) : Mkdir t names before { before with reply := .error err }
  | taken (p : Path) (links : Nat) (hok : before.reply = .ok ())
      (hw : walk before.tree false maxLinks [] names = .found p links) :
      Mkdir t names before
        { before with reply := if before.tree.get p = some .dir then .ok () else .error .exist }
  | made (p : Path) (hok : before.reply = .ok ())
      (hw : walk before.tree false maxLinks [] names = .absent p) :
      Mkdir t names before ⟨.ok (), before.tree.insert p .dir, before.touched ++ [p]⟩

theorem mkdirAll_cases (t : Tree) (c : Name) (up : List Name) :
    Mkdir t (up.reverse ++ [c]) (mkdirAll t up) (mkdirAll t (c :: up)) := by
  rw [mkdirAll]
  split
  · next p links hw => exact .found p links hw
  · dsimp only
    split
    · next err _ => exact .failed err
    · next hok =>
      split
      · next p hw => exact .made p hok hw
      · next p links hw => exact .taken p links hok hw
      · next err _ => exact .failed err

theorem mkdirAll_frame (t : Tree) (names : List Name) : (mkdirAll t names).Frame t := by
  induction names with
  | nil => exact fun _ _ => rfl
  | cons c up ih =>
    intro q hq
    have hcases := mkdirAll_cases t c up
    generalize mkdirAll t (c :: up) = e at hcases hq ⊢
    cases hcases with
    | found p links hw => rfl
    | failed err => exact ih q hq
    | taken p links hok hw => exact ih q hq
    | made p hok hw =>
      have hne : q ∉ (mkdirAll t up).touched ∧ q ∉ [p] := not_or.mp fun h =>
        hq (List.mem_append.mpr h)
      exact (get_insert_of_not_mem hne.2).trans (ih q hne.1)

/-! ### Trees that grow -/

def Node.shape : Node → Node
  | .file _ => .file []
  | node => node

def Extends (t t' : Tree) : Prop :=
  ∀ p node, t.get p = some node → ∃ node', t'.get p = some node' ∧ node'.shape = node.shape

theorem Extends.refl (t : Tree) : Extends t t := fun _ node h => ⟨node, h, rfl⟩

theorem Extends.trans {t'' : Tree} (h : Extends t t') (h' : Extends t' t'') : Extends t t'' := by
  intro p node hp
  obtain ⟨node', hp', hshape⟩ := h p node hp
  obtain ⟨node'', hp'', hshape'⟩ := h' p node' hp'
  exact ⟨node'', hp'', hshape'.trans hshape⟩

theorem Extends.insert {node : Node} (hp : ∀ old, t.get p = some old → node.shape = old.shape) :
    Extends t (t.insert p node) := by
  intro q old hq
  by_cases hqp : q = p
  · subst hqp
    exact ⟨node, GoMap.get_insert_self .., hp old hq⟩
  · exact ⟨old, (GoMap.get_insert_of_ne _ hqp _).trans hq, rfl⟩

theorem Extends.insert_new {node : Node} (hp : t.get p = none) : Extends t (t.insert p node) :=
  Extends.insert fun old hold => by rw [hp] at hold; cases hold

theorem Extends.dir (h : Extends t t') (hp : t.get p = some .dir) : t'.get p = some .dir := by
  obtain ⟨node, hnode, hshape⟩ := h p .dir hp
  cases node with
  | dir => exact hnode
  | file content => cases hshape
  | link target => cases hshape

theorem Extends.entry {cur : Path} (h : Extends t t') (hentry : ∀ q, entry t cur c ≠ .missing q)
    (hblocked : entry t cur c ≠ .blocked) : entry t' cur c = entry t cur c := by
  unfold Posix.entry at hentry hblocked ⊢
  cases hcur : t.get cur with
  | none =>
    rw [hcur] at hblocked
    exact absurd rfl hblocked
  | some node =>
    rw [hcur] at hentry hblocked
    cases node with
    | file content => exact absurd rfl hblocked
    | link target => exact absurd rfl hblocked
    | dir =>
      rw [h.dir hcur]
      dsimp only at hentry ⊢
      split
      · rfl
      · next hskip =>
        split
        · rfl
        · next hdotdot =>
          cases hget : t.get (cur ++ [c]) with
          | none =>
            rw [if_neg hskip, if_neg hdotdot, hget] at hentry
            exact absurd rfl (hentry _)
          | some node =>
            obtain ⟨node', hget', hshape⟩ := h _ _ hget
            rw [hget']
            cases node <;> cases node' <;> cases hshape <;> rfl

theorem Extends.walk_of_jump {follow : Bool} {links left : Nat} (h : Extends t t')
    (hjump : ∀ base zs p left, jump t follow links base zs = .found p left →
      jump t' follow links base zs = .found p left)
    {cur : Path} {names : List Name} (hw : walk t follow links cur names = .found p left) :
    walk t' follow links cur names = .found p left := by
  induction names generalizing cur with
  | nil => rwa [walk_nil] at hw ⊢
  | cons c rest ih =>
    rw [walk_cons] at hw ⊢
    cases hentry : Posix.entry t cur c with
    | next q =>
      rw [hentry] at hw
      rw [h.entry (by rw [hentry]; rintro q ⟨⟩) (by rw [hentry]; rintro ⟨⟩), hentry]
      exact ih hw
    | missing q =>
      rw [hentry] at hw
      dsimp only at hw
      split at hw <;> cases hw
    | link q base zs =>
      rw [hentry] at hw
      rw [h.entry (by rw [hentry]; rintro q ⟨⟩) (by rw [hentry]; rintro ⟨⟩), hentry]
      dsimp only at hw ⊢
      split at hw
      · next hlast => rwa [if_pos hlast]
      · next hgo =>
        rw [if_neg hgo]
        exact hjump base _ p left hw
    | blocked =>
      rw [hentry] at hw
      cases hw

theorem Extends.walk {follow : Bool} {links left : Nat} {cur : Path} {names : List Name}
    (h : Extends t t') (hw : walk t follow links cur names = .found p left) :
    Posix.walk t' follow links cur names = .found p left := by
  induction links generalizing cur names p left with
  | zero => exact h.walk_of_jump (fun _ _ _ _ hjump => by cases hjump) hw
  | succ links ih =>
    refine h.walk_of_jump (fun _ _ _ _ hjump => ?_) hw
    exact ih hjump

theorem WellFormed.insert {node : Node} (h : WellFormed t) (hp : t.get p = some .dir) (hc : Plain c)
    (hnew : t.get (p ++ [c]) = none) : WellFormed (t.insert (p ++ [c]) node) := by
  have hold : ∀ q, q ≠ p ++ [c] → (t.insert (p ++ [c]) node).get q = t.get q :=
    fun q hq => GoMap.get_insert_of_ne _ hq _
  constructor
  · rw [hold [] (List.append_ne_nil_of_right_ne_nil p (List.cons_ne_nil c [])).symm]
    exact h.root
  · intro q d hq
    have hdir : t.get q = some .dir := by
      by_cases heq : q ++ [d] = p ++ [c]
      · rwa [(List.append_inj' heq rfl).1]
      · rw [hold _ heq] at hq
        exact h.parent q d hq
    have hne : q ≠ p ++ [c] := by
      rintro rfl
      rw [hnew] at hdir
      cases hdir
    rwa [hold q hne]
  · intro q hq d hd
    by_cases heq : q = p ++ [c]
    · subst heq
      rcases List.mem_append.mp hd with hp' | hc'
      · exact h.names p (by rw [hp]; exact Option.some_ne_none _) d hp'
      · rw [List.mem_singleton.mp hc']
        exact hc
    · rw [hold q heq] at hq
      exact h.names q hq d hd

theorem create_extends (t : Tree) (exclusive : Bool) (path : List Char) :
    Extends t (create t exclusive path).tree := by
  unfold create
  split
  · split
    · exact Extends.refl t
    · split
      · next hget =>
        refine Extends.insert fun old hold => ?_
        rw [hget] at hold
        rw [← Option.some.inj hold]
        rfl
      · exact Extends.refl t
  · next hw => exact Extends.insert_new (get_of_absent hw)
  · exact Extends.refl t

theorem append_extends (t : Tree) (p : Path) (data : List UInt8) :
    Extends t (append t p data).tree := by
  unfold append
  split
  · next hget =>
    refine Extends.insert fun old hold => ?_
    rw [hget] at hold
    rw [← Option.some.inj hold]
    rfl
  · exact Extends.refl t

/-! ### Calls that stay inside `D` -/

theorem create_inside {exclusive : Bool} {path : List Char}
    (h : (lookup t (!exclusive) path).Inside D) :
    (∀ q ∈ (create t exclusive path).touched, D <+: q) ∧
      ∀ p, (create t exclusive path).reply = .ok p → D <+: p := by
  unfold create
  split
  · next p links hw =>
    rw [hw] at h
    split
    · exact ⟨fun q hq => absurd hq List.not_mem_nil, fun p hp => by cases hp⟩
    · split
      · refine ⟨fun q hq => ?_, fun q hq => ?_⟩
        · rwa [List.mem_singleton.mp hq]
        · rwa [← Except.ok.inj hq]
      · exact ⟨fun q hq => absurd hq List.not_mem_nil, fun p hp => by cases hp⟩
  · next p hw =>
    rw [hw] at h
    refine ⟨fun q hq => ?_, fun q hq => ?_⟩
    · rwa [List.mem_singleton.mp hq]
    · rwa [← Except.ok.inj hq]
  · exact ⟨fun q hq => absurd hq List.not_mem_nil, fun p hp => by cases hp⟩

theorem append_inside (hp : D <+: p) (t : Tree) (data : List UInt8) :
    ∀ q ∈ (append t p data).touched, D <+: q := by
  intro q hq
  unfold append at hq
  split at hq
  · rwa [List.mem_singleton.mp hq]
  · exact absurd hq List.not_mem_nil

theorem remove_inside {path : List Char} (h : (lookup t false path).Inside D) :
    ∀ q ∈ (remove t path).touched, D <+: q := by
  intro q hq
  unfold remove at hq
  split at hq
  · next p links hw =>
    rw [hw] at h
    split at hq
    · exact absurd hq List.not_mem_nil
    · rwa [List.mem_singleton.mp hq]
  · exact absurd hq List.not_mem_nil
  · exact absurd hq List.not_mem_nil

theorem removeAll_inside {path : List Char} (h : (lookup t false path).Inside D) :
    ∀ q ∈ (removeAll t path).touched, D <+: q := by
  intro q hq
  unfold removeAll at hq
  split at hq
  · next p links hw =>
    rw [hw] at h
    exact h.trans (mem_below.mp hq).1
  · exact absurd hq List.not_mem_nil
  · exact absurd hq List.not_mem_nil
  · exact absurd hq List.not_mem_nil

theorem resolve_inside {path : List Char} (h : (lookup t true path).Inside D)
    (hp : resolve t path = .ok p) : D <+: p := by
  unfold resolve at hp
  split at hp
  · next q links hw =>
    rw [hw] at h
    rwa [← Except.ok.inj hp]
  · cases hp
  · cases hp

/-! ### Directories made inside `D` -/

/-- The names `top` lead to the directory `D`, from where `links` links may still be followed. -/
structure Top (t : Tree) (top : List Name) (D : Path) (links : Nat) : Prop where
  wf : WellFormed t
  walk : walk t true maxLinks [] top = .found D links
  dir : t.get D = some .dir
  inside : LinksInside t D links

theorem Top.walk_inside {top : List Name} {links : Nat} (h : Top t top D links) {names : List Name}
    (hnames : ∀ c ∈ names, Plain c) (hne : names ≠ []) (follow : Bool) :
    (Posix.walk t follow maxLinks [] (top ++ names)).Inside D := by
  rw [walk_append _ _ _ _ _ hne, h.walk]
  exact h.inside.walk h.wf hnames (List.prefix_refl D) (Nat.le_refl links)

/-- What `mkdirAll` leaves: all that it made is inside `D`, and if it made anything then the directory is
empty. -/
structure Made (t : Tree) (D : Path) (names : List Name) (e : Effect Unit) : Prop where
  touched : ∀ q ∈ e.touched, D <+: q
  wf : WellFormed e.tree
  place : e.reply = .ok () → ∃ p links, Posix.walk e.tree true maxLinks [] names = .found p links ∧
    D <+: p ∧ e.tree.get p = some .dir ∧ (e.tree = t ∨ ∀ d, e.tree.get (p ++ [d]) = none)

theorem walk_missing {follow : Bool} {links : Nat} (hp : t.get p = some .dir) (hc : Plain c)
    (hget : t.get (p ++ [c]) = none) : walk t follow links p [c] = .absent (p ++ [c]) := by
  rw [walk_cons, entry_missing hp hc hget]
  rfl

theorem walk_last (hp : t.get p = some .dir) (hc : Plain c) (links : Nat) :
    walk t false links p [c] =
      if t.get (p ++ [c]) = none then .absent (p ++ [c]) else .found (p ++ [c]) links := by
  cases hget : t.get (p ++ [c]) with
  | none => rw [walk_missing hp hc hget, if_pos rfl]
  | some node =>
    cases node with
    | dir => rw [walk_next (entry_dir hp hc hget), walk_nil, if_neg (Option.some_ne_none _)]
    | file content => rw [walk_next (entry_file hp hc hget), walk_nil, if_neg (Option.some_ne_none _)]
    | link target =>
      rw [walk_cons, entry_link hp hc hget]
      rfl

theorem walk_last_dir {follow : Bool} (hp : t.get p = some .dir) (hc : Plain c)
    (hget : t.get (p ++ [c]) = some .dir) (links : Nat) :
    walk t follow links p [c] = .found (p ++ [c]) links := by
  rw [walk_next (entry_dir hp hc hget), walk_nil]

theorem Made.step {top names : List Name} {links : Nat} {before e : Effect Unit} (htop : Top t top D links)
    (hnames : ∀ d ∈ names ++ [c], Plain d) (h : Made t D (top ++ names) before)
    (hcases : Mkdir t (top ++ names ++ [c]) before e) : Made t D (top ++ names ++ [c]) e := by
  have hc : Plain c := hnames c (List.mem_append_right _ List.mem_cons_self)
  cases hcases with
  | found p l hw =>
    refine ⟨fun q hq => absurd hq List.not_mem_nil, htop.wf, fun hok => ?_⟩
    have hinside := htop.walk_inside hnames (List.append_ne_nil_of_right_ne_nil _ (List.cons_ne_nil c []))
      true
    rw [← List.append_assoc, hw] at hinside
    refine ⟨p, l, hw, hinside, ?_, .inl rfl⟩
    by_contra hdir
    rw [if_neg hdir] at hok
    cases hok
  | failed err =>
    refine ⟨h.touched, h.wf, fun hok => ?_⟩
    cases hok
  | taken p l hok hw =>
    refine ⟨h.touched, h.wf, fun hreply => ?_⟩
    obtain ⟨q, l', hq, hinside, hdir, hempty⟩ := h.place hok
    rw [walk_append _ _ _ _ _ (List.cons_ne_nil c []), hq, Walk.andThen, walk_last hdir hc] at hw
    split at hw
    · cases hw
    · next hsome =>
      obtain ⟨rfl, rfl⟩ := Walk.found.inj hw
      have hget : before.tree.get (q ++ [c]) = some .dir := by
        by_contra hnot
        rw [if_neg hnot] at hreply
        cases hreply
      refine ⟨q ++ [c], l', ?_, hinside.trans (List.prefix_append _ _), hget, .inl ?_⟩
      · rw [walk_append _ _ _ _ _ (List.cons_ne_nil c []), hq, Walk.andThen, walk_last_dir hdir hc hget]
      · exact hempty.resolve_right fun hnone => hsome (hnone c)
  | made p hok hw =>
    obtain ⟨q, l, hq, hinside, hdir, -⟩ := h.place hok
    rw [walk_append _ _ _ _ _ (List.cons_ne_nil c []), hq, Walk.andThen, walk_last hdir hc] at hw
    split at hw
    · next hnone =>
      obtain rfl := Walk.absent.inj hw
      have hplace : D <+: q ++ [c] := hinside.trans (List.prefix_append _ _)
      have hnew : Extends before.tree (before.tree.insert (q ++ [c]) .dir) := Extends.insert_new hnone
      refine ⟨?_, h.wf.insert hdir hc hnone, fun _ => ?_⟩
      · intro p hp
        rcases List.mem_append.mp hp with hold | hlast
        · exact h.touched p hold
        · rwa [List.mem_singleton.mp hlast]
      · have hget : (before.tree.insert (q ++ [c]) Node.dir).get (q ++ [c]) = some .dir :=
          GoMap.get_insert_self ..
        refine ⟨q ++ [c], l, ?_, hplace, hget, .inr fun d => ?_⟩
        · rw [walk_append _ _ _ _ _ (List.cons_ne_nil c []), hnew.walk hq, Walk.andThen,
            walk_last_dir (hnew.dir hdir) hc hget]
        · have hne : q ++ [c] ++ [d] ≠ q ++ [c] := fun heq => by
            have hlen := congrArg List.length heq
            rw [List.length_append, List.length_singleton] at hlen
            omega
          show (before.tree.insert (q ++ [c]) Node.dir).get (q ++ [c] ++ [d]) = none
          rw [GoMap.get_insert_of_ne _ hne]
          by_contra hsome
          rw [h.wf.parent _ d hsome] at hnone
          cases hnone
    · cases hw

theorem mkdirAll_of_found {names : List Name} {links : Nat}
    (hw : walk t true maxLinks [] names = .found p links) (hdir : t.get p = some .dir) :
    mkdirAll t names.reverse = ⟨.ok (), t, []⟩ := by
  rcases List.eq_nil_or_concat' names with rfl | ⟨up, c, rfl⟩
  · rfl
  · rw [List.reverse_append, List.reverse_singleton, List.singleton_append, mkdirAll,
      List.reverse_reverse, hw]
    dsimp only
    rw [if_pos hdir]

theorem mkdirAll_made {top names : List Name} {links : Nat} (htop : Top t top D links)
    (hnames : ∀ c ∈ names, Plain c) : Made t D (top ++ names) (mkdirAll t (top ++ names).reverse) := by
  induction names using List.reverseRecOn with
  | nil =>
    rw [List.append_nil, mkdirAll_of_found htop.walk htop.dir]
    exact ⟨fun q hq => absurd hq List.not_mem_nil, htop.wf,
      fun _ => ⟨D, links, htop.walk, List.prefix_refl D, htop.dir, .inl rfl⟩⟩
  | append_singleton names c ih =>
    have hcases := mkdirAll_cases t c (top ++ names).reverse
    rw [List.reverse_reverse] at hcases
    rw [← List.append_assoc, List.reverse_append, List.reverse_singleton, List.singleton_append]
    exact (ih fun d hd => hnames d (List.mem_append_left _ hd)).step htop hnames hcases

theorem Made.walk_inside {top names : List Name} {links : Nat} {e : Effect Unit} (htop : Top t top D links)
    (h : Made t D (top ++ names) e) (hok : e.reply = .ok ()) (hnames : ∀ d ∈ names ++ [c], Plain d)
    (follow : Bool) : (walk e.tree follow maxLinks [] (top ++ names ++ [c])).Inside D := by
  have hc : Plain c := hnames c (List.mem_append_right _ List.mem_cons_self)
  obtain ⟨p, left, hp, hinside, hdir, hsame | hempty⟩ := h.place hok
  · rw [hsame, List.append_assoc]
    exact htop.walk_inside hnames (List.append_ne_nil_of_right_ne_nil _ (List.cons_ne_nil c [])) follow
  · rw [walk_append _ _ _ _ _ (List.cons_ne_nil c []), hp, Walk.andThen, walk_missing hdir hc (hempty c)]
    exact hinside.trans (List.prefix_append _ _)

theorem Made.walk_inside_later {top names : List Name} {e : Effect Unit}
    (h : Made t D (top ++ names) e) (hok : e.reply = .ok ()) (hc : Plain c) (hlater : Extends e.tree t') :
    (walk t' false maxLinks [] (top ++ names ++ [c])).Inside D := by
  obtain ⟨p, left, hp, hinside, hdir, -⟩ := h.place hok
  rw [walk_append _ _ _ _ _ (List.cons_ne_nil c []), hlater.walk hp, Walk.andThen,
    walk_last (hlater.dir hdir) hc]
  split
  · exact hinside.trans (List.prefix_append _ _)
  · exact hinside.trans (List.prefix_append _ _)

theorem parent_of_found {follow : Bool} {links left : Nat} {cur : Path} {names : List Name}
    (hw : walk t follow links cur (names ++ [c]) = .found p left) :
    ∃ q l, walk t true links cur names = .found q l ∧ t.get q = some .dir ∧
      walk t follow l q [c] = .found p left := by
  rw [walk_append _ _ _ _ _ (List.cons_ne_nil c [])] at hw
  cases hq : walk t true links cur names with
  | found q l =>
    rw [hq, Walk.andThen] at hw
    refine ⟨q, l, rfl, ?_, hw⟩
    by_contra hdir
    rw [walk_cons, entry_blocked hdir] at hw
    cases hw
  | absent q =>
    rw [hq] at hw
    cases hw
  | failed err =>
    rw [hq] at hw
    cases hw

theorem found_of_follow {links left : Nat} {cur : Path} {names : List Name}
    (hw : walk t true links cur names = .found p left) :
    ∃ q l, walk t false links cur names = .found q l := by
  rcases List.eq_nil_or_concat' names with rfl | ⟨names, c, rfl⟩
  · exact ⟨cur, links, walk_nil ..⟩
  · obtain ⟨q, l, hq, hdir, hlast⟩ := parent_of_found hw
    rw [walk_append _ _ _ _ _ (List.cons_ne_nil c []), hq, Walk.andThen]
    rw [walk_cons] at hlast ⊢
    cases hentry : entry t q c with
    | next r => exact ⟨r, l, walk_nil ..⟩
    | missing r =>
      rw [hentry] at hlast
      cases hlast
    | link r base zs => exact ⟨r, l, rfl⟩
    | blocked =>
      rw [hentry] at hlast
      cases hlast

theorem create_of_dir {path : List Char} {links : Nat} (exclusive : Bool)
    (hw : lookup t true path = .found p links) (hdir : t.get p = some .dir) :
    ∃ err, create t exclusive path = ⟨.error err, t, []⟩ := by
  cases exclusive with
  | true =>
    obtain ⟨q, l, hq⟩ := found_of_follow hw
    refine ⟨.exist, ?_⟩
    have hq' : lookup t (!true) path = .found q l := hq
    rw [create, hq']
    rfl
  | false =>
    refine ⟨.isdir, ?_⟩
    have hw' : lookup t (!false) path = .found p links := hw
    rw [create, hw']
    simp only [hdir, Bool.false_eq_true, if_false]

end Posix
