import Mathlib.Data.List.Basic
import Hostlink.Lib.Strconv

/-! `strings.HasPrefix`, `strings.TrimPrefix` and `strings.Split`, the order of strings, and slices
taken in batches. -/

namespace GoStrings

def hasPrefix (s p : String) : Bool := p.toList.isPrefixOf s.toList

def trimPrefix (s p : String) : String :=
  if hasPrefix s p then String.ofList (s.toList.drop p.toList.length) else s

theorem hasPrefix_append (p s : String) : hasPrefix (p ++ s) p = true := by
  simp [hasPrefix]

theorem trimPrefix_append (p s : String) : trimPrefix (p ++ s) p = s := by
  simp [trimPrefix, hasPrefix_append]

theorem append_trimPrefix {s p : String} (h : hasPrefix s p = true) : p ++ trimPrefix s p = s := by
  obtain ⟨rest, hrest⟩ := List.isPrefixOf_iff_prefix.mp h
  obtain rfl : p ++ String.ofList rest = s := by
    apply String.toList_inj.mp
    rw [String.toList_append, String.toList_ofList, hrest]
  rw [trimPrefix_append]

/-- `strings.Split` at a separator of one character. -/
def split (s : String) (sep : Char) : List String := (s.toList.splitOn sep).map String.ofList

theorem split_ne_nil (s : String) (sep : Char) : split s sep ≠ [] := by
  rw [split, ne_eq, List.map_eq_nil_iff]
  exact List.splitOn_ne_nil sep s.toList

theorem split_eq_singleton {s : String} {sep : Char} (h : sep ∉ s.toList) : split s sep = [s] := by
  rw [split, List.splitOn_eq_singleton h, List.map_singleton, String.ofList_toList]

theorem split_append {a b : String} {sep : Char} (ha : sep ∉ a.toList) (hb : sep ∉ b.toList) :
    split (a ++ sep.toString ++ b) sep = [a, b] := by
  have htext : (a ++ sep.toString ++ b).toList = a.toList ++ sep :: b.toList := by
    simp [Char.toString]
  rw [split, htext, List.splitOn_append_cons_self_of_not_mem ha, List.splitOn_eq_singleton hb]
  simp

theorem intercalate_split (s : String) (sep : Char) :
    [sep].intercalate ((split s sep).map String.toList) = s.toList := by
  have hparts : (split s sep).map String.toList = s.toList.splitOn sep := by
    rw [split, List.map_map]
    exact List.map_id'' (fun part => String.toList_ofList) _
  rw [hparts, List.intercalate_splitOn]

theorem eq_of_split_singleton {s a : String} {sep : Char} (h : split s sep = [a]) : s = a := by
  have hjoin := intercalate_split s sep
  rw [h] at hjoin
  exact String.toList_inj.mp (by simpa using hjoin.symm)

theorem eq_of_split_pair {s a b : String} {sep : Char} (h : split s sep = [a, b]) :
    s = a ++ sep.toString ++ b := by
  have hjoin := intercalate_split s sep
  rw [h] at hjoin
  apply String.toList_inj.mp
  simpa [Char.toString, List.intercalate] using hjoin.symm

/-- `<=` on strings. The bytes of UTF-8 are ordered as the characters are. -/
def le (s t : String) : Bool := go s.toList t.toList
where
  go : List Char → List Char → Bool
    | [], _ => true
    | _ :: _, [] => false
    | a :: s, b :: t => if a = b then go s t else a.toNat < b.toNat

def lt (s t : String) : Bool := le s t && s != t

theorem le_total (s t : String) : le s t = true ∨ le t s = true := by
  unfold le
  generalize s.toList = l, t.toList = m
  induction l generalizing m with
  | nil => exact .inl rfl
  | cons a l ih =>
    cases m with
    | nil => exact .inr rfl
    | cons b m =>
      rcases eq_or_ne a b with rfl | hne
      · simpa only [le.go, if_true] using ih m
      · have hcode : a.toNat ≠ b.toNat := fun h => hne (Char.toNat_inj.mp h)
        simp only [le.go, hne, hne.symm, if_false, decide_eq_true_eq]
        omega

theorem le_trans {s t u : String} (hst : le s t = true) (htu : le t u = true) : le s u = true := by
  revert hst htu
  unfold le
  generalize s.toList = l, t.toList = m, u.toList = n
  induction l generalizing m n with
  | nil => exact fun _ _ => rfl
  | cons a l ih =>
    rcases m with _ | ⟨b, m⟩
    · rintro ⟨⟩
    rcases n with _ | ⟨c, n⟩
    · rintro - ⟨⟩
    simp only [le.go]
    rcases eq_or_ne a b with rfl | hab
    · rcases eq_or_ne a c with rfl | hac
      · simpa only [if_true] using ih m n
      · simp only [hac, if_true, if_false]
        exact fun _ h => h
    · rcases eq_or_ne b c with rfl | hbc
      · simp only [hab, if_true, if_false]
        exact fun h _ => h
      · simp only [hab, hbc, if_false, decide_eq_true_eq]
        intro h h'
        have hac : a ≠ c := by
          rintro rfl
          omega
        rw [if_neg hac, decide_eq_true_eq]
        omega

theorem le_antisymm {s t : String} (hst : le s t = true) (hts : le t s = true) : s = t := by
  apply String.toList_inj.mp
  revert hst hts
  unfold le
  generalize s.toList = l, t.toList = m
  induction l generalizing m with
  | nil =>
    cases m with
    | nil => exact fun _ _ => rfl
    | cons b m => rintro - ⟨⟩
  | cons a l ih =>
    cases m with
    | nil => rintro ⟨⟩
    | cons b m =>
      simp only [le.go]
      rcases eq_or_ne a b with rfl | hne
      · simp only [if_true]
        exact fun h h' => congrArg _ (ih m h h')
      · simp only [hne, hne.symm, if_false, decide_eq_true_eq]
        omega

theorem formatUint_append_inj {m n : Nat} {c : Char} {s t : List Char} (hc : c.isDigit = false)
    (h : (Strconv.formatUint m).toList ++ c :: s = (Strconv.formatUint n).toList ++ c :: t) :
    m = n ∧ s = t := by
  have htake : ∀ (k : Nat) (l : List Char),
      ((Strconv.formatUint k).toList ++ c :: l).takeWhile Char.isDigit =
        (Strconv.formatUint k).toList := by
    intro k l
    have hdigits : ∀ d ∈ (Strconv.formatUint k).toList, d.isDigit = true := by
      intro d hd
      rw [Strconv.toList_formatUint] at hd
      exact Nat.isDigit_of_mem_toDigits (by decide) (by decide) hd
    rw [List.takeWhile_append_of_pos hdigits, List.takeWhile_cons_of_neg (by simp [hc]),
      List.append_nil]
  have hnum : (Strconv.formatUint m).toList = (Strconv.formatUint n).toList := by
    rw [← htake m s, h, htake n t]
  refine ⟨Strconv.formatUint_injective (String.toList_inj.mp hnum), ?_⟩
  rw [hnum, List.append_cancel_left_eq] at h
  exact List.tail_eq_of_cons_eq h

end GoStrings

/-- `for start := 0; start < len(l); start += n`; the fuel is the length of `l`. -/
def List.batches {α : Type*} (n : Nat) : Nat → List α → List (List α)
  | 0, _ => []
  | _ + 1, [] => []
  | fuel + 1, a :: l => (a :: l).take n :: List.batches n fuel ((a :: l).drop n)

theorem List.flatten_batches {α : Type*} {n : Nat} (hn : 0 < n) {fuel : Nat} {l : List α}
    (h : l.length ≤ fuel) : (l.batches n fuel).flatten = l := by
  induction fuel generalizing l with
  | zero => exact (List.eq_nil_of_length_eq_zero (Nat.le_zero.mp h)).symm
  | succ fuel ih =>
    cases l with
    | nil => rfl
    | cons a l =>
      have hlen : ((a :: l).drop n).length ≤ fuel := by
        rw [List.length_drop]
        omega
      rw [List.batches, List.flatten_cons, ih hlen, List.take_append_drop]
