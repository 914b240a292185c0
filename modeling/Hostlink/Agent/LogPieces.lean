import Mathlib.Data.List.Forall2
import Hostlink.Agent.LogLines

/-! Lines above the limit of `logLineWriter`. At the end of a `Write` an open line that has reached
the limit is cut, and where it is cut depends on how the bytes were written. -/

namespace Hostlink.Agent

/-- A line arrives as pieces that make it up, without the carriage return at its end. Only an empty
line arrives as an empty piece. -/
structure PiecesOf (pieces : List Bytes) (segment : Bytes) : Prop where
  joined : pieces.flatten = trimReturn segment
  visible : pieces = [[]] ∨ pieces ≠ [] ∧ [] ∉ pieces

structure Delivered (bytes : Bytes) (lines : List Bytes) : Prop where
  bounded : ∀ line ∈ lines, line.length ≤ maxLogLineBytes
  whole : ∃ pieces : List (List Bytes), pieces.flatten = lines ∧
    List.Forall₂ PiecesOf pieces (segments bytes)

def GoesOn (rest : Bytes) : Prop := trimReturn ((rest.splitOn newline).headD []) ≠ []

/-- A cut behind `piece`, with `rest` still to be written: within the limit, and either the input
is over or the cut takes no carriage return and leaves some of the line. -/
structure CutFits (piece rest : Bytes) : Prop where
  bounded : (trimReturn piece).length ≤ maxLogLineBytes
  inside : rest = [] ∨ piece.getLast? ≠ some carriageReturn ∧ GoesOn rest

/-- The writes `chunks` suit the limit; `carried` is what was written of the line since it began or
was last cut. Lines that end in a write are within the limit, and so are the cuts. -/
def Fits : Bytes → List Bytes → Prop
  | _, [] => True
  | carried, p :: ps =>
    let parts := (carried ++ p).splitOn newline
    let opened := parts.getLastD []
    (∀ line ∈ parts.dropLast, (trimReturn line).length ≤ maxLogLineBytes) ∧
      if opened.length ≥ maxLogLineBytes then CutFits opened ps.flatten ∧ Fits [] ps
      else Fits opened ps

def expected (bytes : Bytes) : List Bytes := (segments bytes).map trimReturn

/-! ### Carriage returns -/

theorem trimReturn_eq_self {line : Bytes} (h : line.getLast? ≠ some carriageReturn) :
    trimReturn line = line := if_neg h

theorem trimReturn_append {line : Bytes} (h : line ≠ []) (before : Bytes) :
    trimReturn (before ++ line) = before ++ trimReturn line := by
  rw [trimReturn, trimReturn, List.getLast?_append_of_ne_nil _ h, List.dropLast_append_of_ne_nil h]
  split
  · rfl
  · rfl

theorem length_trimReturn_le (line : Bytes) : (trimReturn line).length ≤ line.length := by
  unfold trimReturn
  split
  · rw [List.length_dropLast]
    exact Nat.sub_le _ _
  · exact Nat.le_refl _

theorem length_le_trimReturn (line : Bytes) : line.length ≤ (trimReturn line).length + 1 := by
  unfold trimReturn
  split
  · rw [List.length_dropLast]
    omega
  · exact Nat.le_succ _

theorem getLast?_ne_of_length {line : Bytes} (h : line.length ≤ (trimReturn line).length)
    (hne : line ≠ []) : line.getLast? ≠ some carriageReturn := by
  intro hlast
  rw [trimReturn, if_pos hlast, List.length_dropLast] at h
  have hpos := List.length_pos_iff.mpr hne
  omega

theorem nil_below_limit : ([] : Bytes).length < maxLogLineBytes := by decide

theorem trimReturn_ne_nil {line : Bytes} (h : maxLogLineBytes ≤ line.length) :
    trimReturn line ≠ [] := by
  intro hnil
  have hle := length_le_trimReturn line
  rw [hnil] at hle
  have hmax : maxLogLineBytes = 65536 := rfl
  rw [List.length_nil] at hle
  omega

theorem ne_nil_of_long {line : Bytes} (h : maxLogLineBytes ≤ line.length) : line ≠ [] := by
  rintro rfl
  exact Nat.not_lt_of_le h nil_below_limit

/-! ### Segments -/

theorem segments_nil : segments [] = [] := rfl

theorem segments_line {line : Bytes} (h : newline ∉ line) (rest : Bytes) :
    segments (line ++ newline :: rest) = line :: segments rest := by
  have hsplit : (line ++ newline :: rest).splitOn newline = [line] ++ rest.splitOn newline :=
    List.splitOn_append_cons_self_of_not_mem h rest
  exact segments_append hsplit

theorem segments_lengthen {piece rest : Bytes} (hpiece : newline ∉ piece) (hrest : rest ≠ []) :
    ∃ first others, segments rest = first :: others ∧
      segments (piece ++ rest) = (piece ++ first) :: others ∧
      (rest.splitOn newline).headD [] = first := by
  by_cases h : newline ∈ rest
  · obtain ⟨first, after, rfl, hfirst⟩ := List.eq_append_cons_of_mem h
    have hlong : newline ∉ piece ++ first := List.not_mem_append hpiece hfirst
    refine ⟨first, segments after, segments_line hfirst after, ?_, ?_⟩
    · rw [← List.append_assoc, segments_line hlong after]
    · rw [List.splitOn_append_cons_self_of_not_mem hfirst after]
      rfl
  · have hlong : newline ∉ piece ++ rest := List.not_mem_append hpiece h
    refine ⟨rest, [], ?_, ?_, ?_⟩
    · rw [segments_of_not_mem h, if_neg hrest]
    · rw [segments_of_not_mem hlong, if_neg (List.append_ne_nil_of_right_ne_nil _ hrest)]
    · rw [List.splitOn_eq_singleton h]
      rfl

structure Opens (buf : Bytes) (lines : List Bytes) (opened : Bytes) : Prop where
  parts : buf.splitOn newline = lines ++ [opened]
  unended : newline ∉ opened
  continued : ∀ rest, segments (buf ++ rest) = lines ++ segments (opened ++ rest)

theorem fits_cons {carried p opened : Bytes} {lines : List Bytes}
    (h : Opens (carried ++ p) lines opened) (ps : List Bytes) :
    Fits carried (p :: ps) ↔ (∀ line ∈ lines, (trimReturn line).length ≤ maxLogLineBytes) ∧
      if opened.length ≥ maxLogLineBytes then CutFits opened ps.flatten ∧ Fits [] ps
      else Fits opened ps := by
  simp only [Fits, h.parts, List.dropLast_concat, List.getLastD_concat]

namespace LogLineWriter

theorem opens_takeLines (buf : Bytes) : Opens buf (takeLines buf).1 (takeLines buf).2 := by
  have hspec := takeLines_spec buf
  refine ⟨?_, (hspec []).2, fun rest => segments_append (hspec rest).1⟩
  have hparts := (hspec []).1
  rwa [List.append_nil, List.append_nil, List.splitOn_eq_singleton (hspec []).2] at hparts

def emitted (w : LogLineWriter) (chunks : List Bytes) : List Bytes :=
  ((w.writeAll chunks).2 ++ (w.writeAll chunks).1.flush.2).map LogFrame.line

theorem emitted_nil {w : LogLineWriter} (h : newline ∉ w.buf) : w.emitted [] = expected w.buf := by
  have hflush : w.emitted [] = w.flush.2.map LogFrame.line := rfl
  rw [hflush, w.flush_frames h, List.map_map, expected]
  rfl

theorem emitted_cons (w : LogLineWriter) (p : Bytes) (ps : List Bytes) :
    ∃ lines opened, Opens (w.buf ++ p) lines opened ∧
      (maxLogLineBytes ≤ opened.length ∧ w.emitted (p :: ps) =
          lines.map trimReturn ++ trimReturn opened :: { w with buf := [] }.emitted ps ∨
        opened.length < maxLogLineBytes ∧ w.emitted (p :: ps) =
          lines.map trimReturn ++ { w with buf := opened }.emitted ps) := by
  have hopens := opens_takeLines (w.buf ++ p)
  have hall : w.emitted (p :: ps) = (w.write p).2.map LogFrame.line ++ (w.write p).1.emitted ps := by
    simp only [emitted, writeAll, List.map_append, List.append_assoc]
  have hlines : ((takeLines (w.buf ++ p)).1.map w.emitLine).map LogFrame.line =
      (takeLines (w.buf ++ p)).1.map trimReturn := by
    rw [List.map_map]
    rfl
  refine ⟨_, _, hopens, ?_⟩
  rcases Nat.lt_or_ge (takeLines (w.buf ++ p)).2.length maxLogLineBytes with hlt | hge
  · refine .inr ⟨hlt, ?_⟩
    rw [hall, write_of_lt hlt, hlines]
  · refine .inl ⟨hge, ?_⟩
    have hwrite : w.write p = ({ w with buf := [] },
        (takeLines (w.buf ++ p)).1.map w.emitLine ++ [w.emitLine (takeLines (w.buf ++ p)).2]) := by
      rw [write]
      exact if_pos hge
    rw [hall, hwrite, List.map_append, hlines, List.append_assoc]
    rfl

end LogLineWriter

/-! ### Writes that fit -/

theorem Delivered.nil : Delivered [] [] :=
  ⟨fun _ h => absurd h List.not_mem_nil, [], rfl, .nil⟩

theorem piecesOf_singleton (segment : Bytes) : PiecesOf [trimReturn segment] segment := by
  refine ⟨List.flatten_singleton, ?_⟩
  by_cases h : trimReturn segment = []
  · exact .inl (congrArg (fun line => [line]) h)
  · refine .inr ⟨List.cons_ne_nil _ _, ?_⟩
    rw [List.mem_singleton]
    exact fun he => h he.symm

theorem Delivered.lines {bytes rest : Bytes} {lines out : List Bytes}
    (hsegments : segments bytes = lines ++ segments rest)
    (hbounded : ∀ line ∈ lines, (trimReturn line).length ≤ maxLogLineBytes)
    (h : Delivered rest out) : Delivered bytes (lines.map trimReturn ++ out) := by
  obtain ⟨hout, pieces, hflat, hpieces⟩ := h
  have hwhole : List.Forall₂ PiecesOf (lines.map fun line => [trimReturn line]) lines := by
    rw [List.forall₂_map_left_iff]
    exact List.forall₂_same.mpr fun line _ => piecesOf_singleton line
  refine ⟨?_, lines.map (fun line => [trimReturn line]) ++ pieces, ?_, ?_⟩
  · intro line hline
    rcases List.mem_append.mp hline with hline | hline
    · obtain ⟨line', hmem, rfl⟩ := List.mem_map.mp hline
      exact hbounded line' hmem
    · exact hout line hline
  · rw [List.flatten_append, hflat]
    congr 1
    rw [← List.flatMap_def]
    exact (List.map_eq_flatMap).symm
  · rw [hsegments]
    exact List.rel_append hwhole hpieces

theorem Delivered.cut {piece rest : Bytes} {out : List Bytes} (hpiece : newline ∉ piece)
    (hne : piece ≠ []) (hbounded : piece.length ≤ maxLogLineBytes) (hrest : rest ≠ [])
    (hgoesOn : GoesOn rest) (h : Delivered rest out) : Delivered (piece ++ rest) (piece :: out) := by
  obtain ⟨hout, pieces, hflat, hpieces⟩ := h
  obtain ⟨first, others, hsegments, hlong, hhead⟩ := segments_lengthen hpiece hrest
  rw [hsegments] at hpieces
  obtain ⟨group, groups, hgroup, hgroups, rfl⟩ := List.forall₂_cons_right_iff.mp hpieces
  have hfirst : trimReturn first ≠ [] := by
    rw [← hhead]
    exact hgoesOn
  have hnonempty : first ≠ [] := by
    rintro rfl
    exact hfirst rfl
  have hvisible : [] ∉ group := by
    rcases hgroup.visible with heq | ⟨-, hnot⟩
    · have hjoined := hgroup.joined
      rw [heq] at hjoined
      exact absurd hjoined.symm hfirst
    · exact hnot
  refine ⟨List.forall_mem_cons.mpr ⟨hbounded, hout⟩, (piece :: group) :: groups, ?_, ?_⟩
  · rw [← hflat]
    rfl
  · rw [hlong]
    refine .cons ⟨?_, .inr ⟨List.cons_ne_nil _ _, ?_⟩⟩ hgroups
    · rw [List.flatten_cons, hgroup.joined, trimReturn_append hnonempty]
    · rw [List.mem_cons]
      exact not_or.mpr ⟨fun he => hne he.symm, hvisible⟩

theorem Delivered.eq_nil {out : List Bytes} (h : Delivered [] out) : out = [] := by
  obtain ⟨-, pieces, rfl, hpieces⟩ := h
  rw [segments_nil, List.forall₂_nil_right_iff] at hpieces
  rw [hpieces]
  rfl

theorem Delivered.cut_of_fits {opened rest : Bytes} {out : List Bytes} (hopened : newline ∉ opened)
    (hlong : maxLogLineBytes ≤ opened.length) (hcut : CutFits opened rest) (h : Delivered rest out) :
    Delivered (opened ++ rest) (trimReturn opened :: out) := by
  have hne : opened ≠ [] := ne_nil_of_long hlong
  rcases eq_or_ne rest [] with rfl | hrest
  · rw [h.eq_nil]
    have hsegments : segments (opened ++ []) = [opened] ++ segments [] := by
      rw [List.append_nil, segments_of_not_mem hopened, if_neg hne]
      rfl
    exact Delivered.lines hsegments (List.forall_mem_singleton.mpr hcut.bounded) Delivered.nil
  · obtain ⟨hreturn, hgoesOn⟩ := hcut.inside.resolve_left hrest
    have hwhole : trimReturn opened = opened := trimReturn_eq_self hreturn
    have hbounded := hcut.bounded
    rw [hwhole] at hbounded ⊢
    exact Delivered.cut hopened hne hbounded hrest hgoesOn h

namespace LogLineWriter

theorem delivered_of_fits {w : LogLineWriter} {chunks : List Bytes} (hbuf : newline ∉ w.buf)
    (hlt : w.buf.length < maxLogLineBytes) (h : Fits w.buf chunks) :
    Delivered (w.buf ++ chunks.flatten) (w.emitted chunks) := by
  induction chunks generalizing w with
  | nil =>
    have hwhole : segments w.buf = segments w.buf ++ segments [] := (List.append_nil _).symm
    have hbounded : ∀ line ∈ segments w.buf, (trimReturn line).length ≤ maxLogLineBytes := by
      intro line hline
      rw [segments_of_not_mem hbuf] at hline
      split at hline
      · exact absurd hline List.not_mem_nil
      · rw [List.mem_singleton.mp hline]
        exact Nat.le_trans (length_trimReturn_le _) (Nat.le_of_lt hlt)
    have hdelivered := Delivered.lines hwhole hbounded Delivered.nil
    rw [List.append_nil] at hdelivered
    rw [List.flatten_nil, List.append_nil, emitted_nil hbuf]
    exact hdelivered
  | cons p ps ih =>
    obtain ⟨lines, opened, hopens, hemitted⟩ := w.emitted_cons p ps
    obtain ⟨hlines, hrest⟩ := (fits_cons hopens ps).mp h
    rw [List.flatten_cons, ← List.append_assoc]
    rcases hemitted with ⟨hlong, hout⟩ | ⟨hshort, hout⟩
    · rw [if_pos hlong] at hrest
      have hlater := ih (w := { w with buf := [] }) List.not_mem_nil nil_below_limit hrest.2
      rw [hout]
      apply Delivered.lines (hopens.continued ps.flatten) hlines
      exact Delivered.cut_of_fits hopens.unended hlong hrest.1 hlater
    · rw [if_neg (Nat.not_le.mpr hshort)] at hrest
      rw [hout]
      apply Delivered.lines (hopens.continued ps.flatten) hlines
      exact ih (w := { w with buf := opened }) hopens.unended hshort hrest

end LogLineWriter

/-! ### What does not fit

Cuts lose carriage returns and leave empty pieces behind. The bytes that arrive and the empty lines
among them are counted: no write makes the first too many or the second too few. -/

theorem expected_append {bytes rest : Bytes} {lines : List Bytes}
    (h : segments bytes = lines ++ segments rest) :
    expected bytes = lines.map trimReturn ++ expected rest := by
  rw [expected, h, List.map_append, expected]

theorem expected_piece {piece : Bytes} (hpiece : newline ∉ piece) (hne : piece ≠ []) :
    expected (piece ++ []) = [trimReturn piece] := by
  rw [List.append_nil, expected, segments_of_not_mem hpiece, if_neg hne, List.map_singleton]

structure Exact (bytes : Bytes) (lines : List Bytes) : Prop where
  length : lines.flatten.length = (expected bytes).flatten.length
  blanks : lines.count [] = (expected bytes).count []

theorem PiecesOf.count {pieces : List Bytes} {segment : Bytes} (h : PiecesOf pieces segment) :
    pieces.count [] = [trimReturn segment].count [] := by
  rw [← h.joined]
  rcases h.visible with rfl | ⟨hne, hvisible⟩
  · rfl
  · have hjoined : [] ∉ [pieces.flatten] := by
      rw [List.mem_singleton]
      intro hnil
      obtain ⟨piece, rest, rfl⟩ := List.exists_cons_of_ne_nil hne
      have hempty := (List.append_eq_nil_iff.mp (List.flatten_cons ▸ hnil.symm)).1
      exact hvisible (hempty ▸ List.mem_cons_self)
    rw [List.count_eq_zero_of_not_mem hvisible, List.count_eq_zero_of_not_mem hjoined]

theorem counts_of_pieces {pieces : List (List Bytes)} {segs : List Bytes}
    (h : List.Forall₂ PiecesOf pieces segs) :
    pieces.flatten.flatten.length = (segs.map trimReturn).flatten.length ∧
      pieces.flatten.count [] = (segs.map trimReturn).count [] := by
  induction h with
  | nil => exact ⟨rfl, rfl⟩
  | @cons group segment groups others hgroup _ ih =>
    have hcount := hgroup.count
    constructor
    · rw [List.flatten_cons, List.flatten_append, hgroup.joined, List.map_cons, List.flatten_cons,
        List.length_append, List.length_append, ih.1]
    · rw [List.flatten_cons, List.count_append, hcount, ih.2, List.map_cons, ← List.count_append]
      rfl

theorem Delivered.exact {bytes : Bytes} {lines : List Bytes} (h : Delivered bytes lines) :
    Exact bytes lines := by
  obtain ⟨-, pieces, rfl, hpieces⟩ := h
  obtain ⟨hlength, hblanks⟩ := counts_of_pieces hpieces
  exact ⟨hlength, hblanks⟩

theorem count_long {piece : Bytes} (h : maxLogLineBytes ≤ piece.length) (lines : List Bytes) :
    (trimReturn piece :: lines).count [] = lines.count [] := by
  rw [List.count_cons, beq_false_of_ne (trimReturn_ne_nil h)]
  rfl

theorem length_flatten_cons (line : Bytes) (lines : List Bytes) :
    (line :: lines).flatten.length = line.length + lines.flatten.length := by
  rw [List.flatten_cons, List.length_append]

theorem counts_lengthen {opened rest : Bytes} (hopened : newline ∉ opened)
    (hlong : maxLogLineBytes ≤ opened.length) (hrest : rest ≠ []) :
    ∃ first others, expected rest = trimReturn first :: others ∧
      (rest.splitOn newline).headD [] = first ∧
      (expected (opened ++ rest)).flatten.length =
        (trimReturn (opened ++ first)).length + others.flatten.length ∧
      (expected (opened ++ rest)).count [] = others.count [] := by
  obtain ⟨first, others, hsegments, hcut, hhead⟩ := segments_lengthen hopened hrest
  have hlong' : maxLogLineBytes ≤ (opened ++ first).length := by
    rw [List.length_append]
    exact Nat.le_add_right_of_le hlong
  have hexpected : expected (opened ++ rest) =
      trimReturn (opened ++ first) :: others.map trimReturn := by
    rw [expected, hcut, List.map_cons]
  refine ⟨first, others.map trimReturn, ?_, hhead, ?_, ?_⟩
  · rw [expected, hsegments, List.map_cons]
  · rw [hexpected, length_flatten_cons]
  · rw [hexpected, count_long hlong']

theorem length_trimReturn_append (piece first : Bytes) :
    (trimReturn piece).length + (trimReturn first).length ≤ (trimReturn (piece ++ first)).length := by
  rcases eq_or_ne first [] with rfl | hne
  · rw [List.append_nil]
    exact Nat.le_refl _
  · rw [trimReturn_append hne, List.length_append]
    exact Nat.add_le_add_right (length_trimReturn_le piece) _

structure Balanced (bytes : Bytes) (lines : List Bytes) : Prop where
  length : lines.flatten.length ≤ (expected bytes).flatten.length
  blanks : (expected bytes).count [] ≤ lines.count []

theorem Balanced.lines {bytes rest : Bytes} {lines out : List Bytes}
    (hsegments : segments bytes = lines ++ segments rest) (h : Balanced rest out) :
    Balanced bytes (lines.map trimReturn ++ out) := by
  obtain ⟨hlength, hblanks⟩ := h
  constructor
  · rw [expected_append hsegments, List.flatten_append, List.flatten_append, List.length_append,
      List.length_append]
    exact Nat.add_le_add_left hlength _
  · rw [expected_append hsegments, List.count_append, List.count_append]
    exact Nat.add_le_add_left hblanks _

theorem Balanced.cut {opened rest : Bytes} {out : List Bytes} (hopened : newline ∉ opened)
    (hlong : maxLogLineBytes ≤ opened.length) (h : Balanced rest out) :
    Balanced (opened ++ rest) (trimReturn opened :: out) := by
  obtain ⟨hlength, hblanks⟩ := h
  have hne : opened ≠ [] := ne_nil_of_long hlong
  rcases eq_or_ne rest [] with rfl | hrest
  · rw [expected, segments_nil, List.map_nil] at hlength
    constructor
    · rw [expected_piece hopened hne, length_flatten_cons, length_flatten_cons]
      exact Nat.add_le_add_left hlength _
    · rw [expected_piece hopened hne, count_long hlong, List.count_nil]
      exact Nat.zero_le _
  · obtain ⟨first, others, hexpected, -, hcutLength, hcutBlanks⟩ :=
      counts_lengthen hopened hlong hrest
    constructor
    · rw [hexpected, length_flatten_cons] at hlength
      rw [hcutLength, length_flatten_cons]
      have htrim := length_trimReturn_append opened first
      omega
    · rw [hcutBlanks, count_long hlong]
      rw [hexpected] at hblanks
      exact Nat.le_trans (List.count_le_count_cons) hblanks

theorem Exact.cutFits {opened rest : Bytes} {out : List Bytes} (hopened : newline ∉ opened)
    (hlong : maxLogLineBytes ≤ opened.length)
    (hbounded : (trimReturn opened).length ≤ maxLogLineBytes) (hbalanced : Balanced rest out)
    (h : Exact (opened ++ rest) (trimReturn opened :: out)) : CutFits opened rest ∧ Exact rest out := by
  have hne : opened ≠ [] := ne_nil_of_long hlong
  have hlength := h.length
  have hblanks := h.blanks
  rw [length_flatten_cons] at hlength
  rw [count_long hlong] at hblanks
  rcases eq_or_ne rest [] with rfl | hrest
  · rw [expected_piece hopened hne, length_flatten_cons] at hlength
    rw [expected_piece hopened hne, count_long hlong] at hblanks
    exact ⟨⟨hbounded, .inl rfl⟩, Nat.add_left_cancel hlength, hblanks⟩
  · obtain ⟨first, others, hexpected, hhead, hcutLength, hcutBlanks⟩ :=
      counts_lengthen hopened hlong hrest
    rw [hcutLength] at hlength
    rw [hcutBlanks] at hblanks
    have hmost := hbalanced.length
    have hleast := hbalanced.blanks
    rw [hexpected, length_flatten_cons] at hmost
    rw [hexpected] at hleast
    -- an empty rest of the line would be one empty line too many
    have hfirst : trimReturn first ≠ [] := by
      intro hnil
      rw [hnil, List.count_cons_self] at hleast
      omega
    have hnonempty : first ≠ [] := by
      rintro rfl
      exact hfirst rfl
    rw [trimReturn_append hnonempty, List.length_append] at hlength
    have hreturn : opened.getLast? ≠ some carriageReturn := by
      apply getLast?_ne_of_length _ hne
      omega
    have hwhole : trimReturn opened = opened := trimReturn_eq_self hreturn
    rw [hwhole] at hlength
    refine ⟨⟨hbounded, .inr ⟨hreturn, ?_⟩⟩, ?_, ?_⟩
    · rw [GoesOn, hhead]
      exact hfirst
    · rw [hexpected, length_flatten_cons]
      omega
    · rw [hexpected, List.count_cons, beq_false_of_ne hfirst]
      exact hblanks

theorem Exact.lines {bytes rest : Bytes} {lines out : List Bytes}
    (hsegments : segments bytes = lines ++ segments rest)
    (h : Exact bytes (lines.map trimReturn ++ out)) : Exact rest out := by
  obtain ⟨hlength, hblanks⟩ := h
  rw [expected_append hsegments, List.flatten_append, List.flatten_append, List.length_append,
    List.length_append] at hlength
  rw [expected_append hsegments, List.count_append, List.count_append] at hblanks
  exact ⟨Nat.add_left_cancel hlength, Nat.add_left_cancel hblanks⟩

namespace LogLineWriter

theorem balanced_emitted {w : LogLineWriter} (chunks : List Bytes) (hbuf : newline ∉ w.buf) :
    Balanced (w.buf ++ chunks.flatten) (w.emitted chunks) := by
  induction chunks generalizing w with
  | nil =>
    rw [List.flatten_nil, List.append_nil, emitted_nil hbuf]
    exact ⟨Nat.le_refl _, Nat.le_refl _⟩
  | cons p ps ih =>
    obtain ⟨lines, opened, hopens, hemitted⟩ := w.emitted_cons p ps
    rw [List.flatten_cons, ← List.append_assoc]
    rcases hemitted with ⟨hlong, hout⟩ | ⟨-, hout⟩
    · rw [hout]
      apply Balanced.lines (hopens.continued ps.flatten)
      exact Balanced.cut hopens.unended hlong (ih (w := { w with buf := [] }) List.not_mem_nil)
    · rw [hout]
      apply Balanced.lines (hopens.continued ps.flatten)
      exact ih (w := { w with buf := opened }) hopens.unended

theorem fits_of_exact {w : LogLineWriter} {chunks : List Bytes} (hbuf : newline ∉ w.buf)
    (hbounded : ∀ line ∈ w.emitted chunks, line.length ≤ maxLogLineBytes)
    (h : Exact (w.buf ++ chunks.flatten) (w.emitted chunks)) : Fits w.buf chunks := by
  induction chunks generalizing w with
  | nil => trivial
  | cons p ps ih =>
    obtain ⟨lines, opened, hopens, hemitted⟩ := w.emitted_cons p ps
    rw [List.flatten_cons, ← List.append_assoc] at h
    rcases hemitted with ⟨hlong, hout⟩ | ⟨hshort, hout⟩
    · rw [hout] at h hbounded
      obtain ⟨hlines, hlater⟩ := List.forall_mem_append.mp hbounded
      obtain ⟨hpiece, hrest⟩ := List.forall_mem_cons.mp hlater
      have hbalanced := balanced_emitted (w := { w with buf := [] }) ps List.not_mem_nil
      obtain ⟨hcut, hexact⟩ := Exact.cutFits hopens.unended hlong hpiece hbalanced
        (h.lines (hopens.continued ps.flatten))
      rw [fits_cons hopens, if_pos hlong]
      exact ⟨fun line hline => hlines _ (List.mem_map_of_mem hline), hcut,
        ih (w := { w with buf := [] }) List.not_mem_nil hrest hexact⟩
    · rw [hout] at h hbounded
      obtain ⟨hlines, hrest⟩ := List.forall_mem_append.mp hbounded
      rw [fits_cons hopens, if_neg (Nat.not_le.mpr hshort)]
      exact ⟨fun line hline => hlines _ (List.mem_map_of_mem hline),
        ih (w := { w with buf := opened }) hopens.unended hrest
          (h.lines (hopens.continued ps.flatten))⟩

theorem fits_of_delivered {stream : String} {chunks : List Bytes}
    (h : Delivered chunks.flatten ((frames stream chunks).map LogFrame.line)) : Fits [] chunks :=
  fits_of_exact (w := { stream }) List.not_mem_nil h.bounded h.exact

end LogLineWriter

theorem opens_of_not_mem {buf : Bytes} (h : newline ∉ buf) : Opens buf [] buf :=
  ⟨List.splitOn_eq_singleton h, h, fun _ => rfl⟩

theorem fits_cut {carried p : Bytes} (hopen : newline ∉ carried ++ p)
    (hlong : maxLogLineBytes ≤ (carried ++ p).length) (ps : List Bytes) :
    Fits carried (p :: ps) ↔ CutFits (carried ++ p) ps.flatten ∧ Fits [] ps := by
  rw [fits_cons (opens_of_not_mem hopen), if_pos hlong]
  exact and_iff_right fun line hline => absurd hline List.not_mem_nil

theorem fits_open {carried p : Bytes} (hopen : newline ∉ carried ++ p)
    (hshort : (carried ++ p).length < maxLogLineBytes) (ps : List Bytes) :
    Fits carried (p :: ps) ↔ Fits (carried ++ p) ps := by
  rw [fits_cons (opens_of_not_mem hopen), if_neg (Nat.not_le.mpr hshort)]
  exact and_iff_right fun line hline => absurd hline List.not_mem_nil

def letters (n : Nat) : Bytes := List.replicate n 97

theorem length_letters (n : Nat) : (letters n).length = n := List.length_replicate

theorem newline_not_mem_letters (n : Nat) : newline ∉ letters n := by
  intro hmem
  have heq := List.eq_of_mem_replicate hmem
  cases heq

theorem getLast?_letters (n : Nat) : (letters n).getLast? ≠ some carriageReturn := by
  intro hlast
  have heq := List.eq_of_mem_replicate (List.mem_of_getLast? hlast)
  cases heq

theorem letters_append (m n : Nat) : letters m ++ letters n = letters (m + n) :=
  List.replicate_append_replicate

theorem newline_not_mem_letters_append (m n : Nat) : newline ∉ letters m ++ letters n := by
  rw [letters_append]
  exact newline_not_mem_letters (m + n)

theorem length_letters_append (m n : Nat) : (letters m ++ letters n).length = m + n := by
  rw [letters_append, length_letters]

namespace LogLineWriter

/-- The lines arrive whole and in pieces within the limit exactly if the writes fit. -/
theorem frames_delivered_iff (stream : String) (chunks : List Bytes) :
    Delivered chunks.flatten ((frames stream chunks).map LogFrame.line) ↔ Fits [] chunks := by
  constructor
  · exact fits_of_delivered
  · exact delivered_of_fits (w := { stream }) List.not_mem_nil nil_below_limit

/-- The first write ends where the limit is reached, and the line goes on. -/
theorem frames_delivered_iff_two_pieces : Delivered [letters 65536, [98, 13, 10]].flatten
    ((frames "stdout" [letters 65536, [98, 13, 10]]).map LogFrame.line) := by
  apply (frames_delivered_iff "stdout" [letters 65536, [98, 13, 10]]).mpr
  have hlong : maxLogLineBytes ≤ ([] ++ letters 65536).length := Nat.le_of_eq (length_letters _).symm
  apply (fits_cut (newline_not_mem_letters 65536) hlong [[98, 13, 10]]).mpr
  refine ⟨⟨?_, .inr ⟨getLast?_letters 65536, ?_⟩⟩, ?_⟩
  · exact Nat.le_trans (length_trimReturn_le _) (Nat.le_of_eq (length_letters 65536))
  · unfold GoesOn
    decide
  · have hreturn : newline ∉ [98, 13] := by decide
    have hopens : Opens ([] ++ [98, 13, 10]) [[98, 13]] [] :=
      ⟨by decide, by decide, segments_line hreturn⟩
    rw [fits_cons hopens, if_neg (Nat.not_le.mpr nil_below_limit)]
    exact ⟨by decide, trivial⟩

/-- Reads with the 32 KiB buffer of `io.Copy`, the first one byte short: below the limit after the
second, the piece is too long after the third. And a carriage return that is not the end of its line
but of a write. -/
theorem frames_not_delivered :
    ¬ Delivered [letters 32767, letters 32768, letters 32768].flatten
      ((frames "stdout" [letters 32767, letters 32768, letters 32768]).map LogFrame.line) ∧
    ¬ Delivered [letters 65535 ++ [13], [98, 10]].flatten
      ((frames "stdout" [letters 65535 ++ [13], [98, 10]]).map LogFrame.line) := by
  constructor
  · intro h
    have hfits : Fits (letters 0) [letters 32767, letters 32768, letters 32768] := fits_of_delivered h
    have hfirst : (letters 0 ++ letters 32767).length < maxLogLineBytes := by
      rw [length_letters_append]
      decide
    have hsecond : (letters 32767 ++ letters 32768).length < maxLogLineBytes := by
      rw [length_letters_append]
      decide
    have hthird : maxLogLineBytes ≤ (letters 65535 ++ letters 32768).length := by
      rw [length_letters_append]
      decide
    rw [fits_open (newline_not_mem_letters_append _ _) hfirst, letters_append,
      fits_open (newline_not_mem_letters_append _ _) hsecond, letters_append,
      fits_cut (newline_not_mem_letters_append _ _) hthird, letters_append] at hfits
    have hbounded := hfits.1.bounded
    rw [trimReturn_eq_self (getLast?_letters _), length_letters] at hbounded
    exact absurd hbounded (by decide)
  · intro h
    have hopen : newline ∉ [] ++ (letters 65535 ++ [13]) := by
      rw [List.nil_append, List.mem_append]
      exact not_or.mpr ⟨newline_not_mem_letters 65535, by decide⟩
    have hlong : maxLogLineBytes ≤ ([] ++ (letters 65535 ++ [13])).length := by
      rw [List.nil_append, List.length_append, length_letters]
      decide
    have hcut := ((fits_cut hopen hlong _).mp (fits_of_delivered h)).1
    rcases hcut.inside with hnil | ⟨hreturn, -⟩
    · cases hnil
    · exact hreturn (by rw [List.nil_append, List.getLast?_concat]; rfl)

end LogLineWriter
end Hostlink.Agent
