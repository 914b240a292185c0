import Mathlib.Tactic.Common
import Hostlink.Lib.Utf8

/-! How `encoding/json` writes a string: quotes, backslashes and control characters are
escaped, and so are the characters that are unsafe in HTML or JavaScript. What it writes for a flat
object can be read back. -/

namespace GoJson

def hexDigit (n : Nat) : Char := "0123456789abcdef".toList.getD n '0'

def escapeRune (c : Char) : List Char :=
  let n := c.toNat
  if c = '"' ∨ c = '\\' then ['\\', c]
  else if n = 8 then ['\\', 'b']
  else if n = 12 then ['\\', 'f']
  else if n = 10 then ['\\', 'n']
  else if n = 13 then ['\\', 'r']
  else if n = 9 then ['\\', 't']
  else if n < 32 ∨ c = '<' ∨ c = '>' ∨ c = '&' ∨ n = 0x2028 ∨ n = 0x2029 then
    ['\\', 'u', hexDigit (n / 4096), hexDigit (n / 256 % 16), hexDigit (n / 16 % 16),
      hexDigit (n % 16)]
  else [c]

def quote (s : String) : String :=
  "\"" ++ String.ofList (s.toList.flatMap escapeRune) ++ "\""

def hexValue (c : Char) : Option Nat :=
  if '0' ≤ c ∧ c ≤ '9' then some (c.toNat - '0'.toNat)
  else if 'a' ≤ c ∧ c ≤ 'f' then some (c.toNat - 'a'.toNat + 10)
  else if 'A' ≤ c ∧ c ≤ 'F' then some (c.toNat - 'A'.toNat + 10)
  else none

def unescape : Char → Option Char
  | 'b' => some (.ofNat 8)
  | 'f' => some (.ofNat 12)
  | 'n' => some '\n'
  | 'r' => some '\r'
  | 't' => some '\t'
  | c => if c = '"' ∨ c = '\\' ∨ c = '/' then some c else none

def readString : List Char → Option (List Char × List Char)
  | [] => none
  | '"' :: rest => some ([], rest)
  | '\\' :: 'u' :: a :: b :: c :: d :: rest =>
    match hexValue a, hexValue b, hexValue c, hexValue d with
    | some a, some b, some c, some d =>
      (readString rest).map fun r => (Char.ofNat (a * 4096 + b * 256 + c * 16 + d) :: r.1, r.2)
    | _, _, _, _ => none
  | '\\' :: c :: rest =>
    match unescape c with
    | some c => (readString rest).map fun r => (c :: r.1, r.2)
    | none => none
  | c :: rest =>
    if c.toNat < 32 ∨ c = '\\' then none else (readString rest).map fun r => (c :: r.1, r.2)

inductive Scalar where
  | text (s : String)
  | flag (b : Bool)
  deriving DecidableEq, Repr

def readScalar : List Char → Option (Scalar × List Char)
  | '"' :: rest => (readString rest).map fun r => (.text (.ofList r.1), r.2)
  | 't' :: 'r' :: 'u' :: 'e' :: rest => some (.flag true, rest)
  | 'f' :: 'a' :: 'l' :: 's' :: 'e' :: rest => some (.flag false, rest)
  | _ => none

/-- The members of an object up to its closing brace, which ends the text. -/
def readMembers : Nat → List Char → Option (List (String × Scalar))
  | fuel + 1, '"' :: rest =>
    (readString rest).bind fun key =>
      match key.2 with
      | ':' :: rest =>
        (readScalar rest).bind fun value =>
          match value.2 with
          | ',' :: rest => (readMembers fuel rest).map ((.ofList key.1, value.1) :: ·)
          | ['\x7d'] => some [(.ofList key.1, value.1)]
          | _ => none
      | _ => none
  | _, _ => none

theorem hexValue_hexDigit : ∀ n < 16, hexValue (hexDigit n) = some n := by decide

theorem readString_unicode {n : Nat} (hn : n < 65536) (rest : List Char) :
    readString ('\\' :: 'u' :: hexDigit (n / 4096) :: hexDigit (n / 256 % 16) ::
      hexDigit (n / 16 % 16) :: hexDigit (n % 16) :: rest) =
      (readString rest).map fun r => (Char.ofNat n :: r.1, r.2) := by
  have hsum : n / 4096 * 4096 + n / 256 % 16 * 256 + n / 16 % 16 * 16 + n % 16 = n := by omega
  rw [readString, hexValue_hexDigit _ (by omega), hexValue_hexDigit _ (by omega),
    hexValue_hexDigit _ (by omega), hexValue_hexDigit _ (by omega)]
  simp only [hsum]

theorem readString_plain {c : Char} (hquote : c ≠ '"') (hslash : c ≠ '\\') (h32 : ¬c.toNat < 32)
    (rest : List Char) :
    readString (c :: rest) = (readString rest).map fun r => (c :: r.1, r.2) := by
  rw [readString.eq_def]
  split
  · next heq => cases heq
  · next heq => exact absurd (List.cons.inj heq).1 hquote
  · next heq => exact absurd (List.cons.inj heq).1 hslash
  · next heq => exact absurd (List.cons.inj heq).1 hslash
  · next heq =>
    obtain ⟨rfl, rfl⟩ := List.cons.inj heq
    rw [if_neg (not_or.mpr ⟨h32, hslash⟩)]

theorem readString_escapeRune (c : Char) (rest : List Char) :
    readString (escapeRune c ++ rest) = (readString rest).map fun r => (c :: r.1, r.2) := by
  have hchar : ∀ {n : Nat}, c.toNat = n → c = Char.ofNat n := fun h => by
    rw [← h, Char.ofNat_toNat]
  unfold escapeRune
  dsimp only
  split_ifs with hescape hb hf hn hr ht hunicode
  · obtain rfl | rfl := hescape <;> rfl
  · rw [hchar hb]
    rfl
  · rw [hchar hf]
    rfl
  · rw [hchar hn]
    rfl
  · rw [hchar hr]
    rfl
  · rw [hchar ht]
    rfl
  · have hlt : c.toNat < 65536 := by
      obtain h | rfl | rfl | rfl | h | h := hunicode
      · omega
      · decide
      · decide
      · decide
      · omega
      · omega
    have hread := readString_unicode hlt rest
    rwa [Char.ofNat_toNat] at hread
  · obtain ⟨hquote, hslash⟩ := not_or.mp hescape
    exact readString_plain hquote hslash (not_or.mp hunicode).1 rest

theorem readString_escape (s rest : List Char) :
    readString (s.flatMap escapeRune ++ '"' :: rest) = some (s, rest) := by
  induction s with
  | nil => rfl
  | cons c s ih =>
    rw [List.flatMap_cons, List.append_assoc, readString_escapeRune, ih]
    rfl

/-! ### Text from bytes -/

def replacement : Char := Char.ofNat 0xFFFD

/-- A byte that is no part of a character is written as the replacement character. -/
def escapeText : Option Char → List Char
  | some c => escapeRune c
  | none => ['\\', 'u', 'f', 'f', 'f', 'd']

def readable (runes : List (Option Char)) : List Char := runes.map fun c => c.getD replacement

theorem readable_some (chars : List Char) : readable (chars.map some) = chars := by
  rw [readable, List.map_map]
  exact List.map_id chars

theorem readString_escapeText (text : List (Option Char)) (rest : List Char) :
    readString (text.flatMap escapeText ++ '"' :: rest) = some (readable text, rest) := by
  induction text with
  | nil => rfl
  | cons c text ih =>
    rw [List.flatMap_cons, List.append_assoc]
    cases c with
    | some c =>
      rw [escapeText, readString_escapeRune, ih]
      rfl
    | none =>
      have hread := readString_unicode (n := 0xFFFD) (by decide) (text.flatMap escapeText ++ '"' :: rest)
      rw [ih] at hread
      exact hread

def member (name : String) (value : List (Option Char)) : List Char :=
  '"' :: (name.toList.flatMap escapeRune ++ '"' :: ':' :: '"' :: (value.flatMap escapeText ++ ['"']))

theorem member_append (name : String) (value : List (Option Char)) (rest : List Char) :
    member name value ++ rest = '"' :: (name.toList.flatMap escapeRune ++
      '"' :: ':' :: '"' :: (value.flatMap escapeText ++ '"' :: rest)) := by
  simp [member]

theorem readMembers_comma (fuel : Nat) (name : String) (value : List (Option Char)) (rest : List Char) :
    readMembers (fuel + 1) (member name value ++ ',' :: rest) =
      (readMembers fuel rest).map ((name, .text (.ofList (readable value))) :: ·) := by
  rw [member_append, readMembers, readString_escape, Option.bind_some]
  simp only [readScalar, readString_escapeText, Option.map_some, Option.bind_some, String.ofList_toList]

theorem readMembers_close (fuel : Nat) (name : String) (value : List (Option Char)) :
    readMembers (fuel + 1) (member name value ++ ['\x7d']) =
      some [(name, .text (.ofList (readable value)))] := by
  rw [member_append, readMembers, readString_escape, Option.bind_some]
  simp only [readScalar, readString_escapeText, Option.map_some, Option.bind_some, String.ofList_toList]

/-! ### No control characters -/

def Printable (text : List Char) : Prop := (text.all fun c => 32 ≤ c.toNat) = true

instance (text : List Char) : Decidable (Printable text) := inferInstanceAs (Decidable (_ = true))

theorem printable_iff {text : List Char} : Printable text ↔ ∀ c ∈ text, 32 ≤ c.toNat := by
  simp only [Printable, List.all_eq_true, decide_eq_true_eq]

theorem printable_append {text text' : List Char} (h : Printable text) (h' : Printable text') :
    Printable (text ++ text') := by
  rw [printable_iff] at h h' ⊢
  exact List.forall_mem_append.mpr ⟨h, h'⟩

theorem printable_flatMap {α : Type*} {f : α → List Char} (h : ∀ a, Printable (f a)) (l : List α) :
    Printable (l.flatMap f) := by
  rw [printable_iff]
  intro c hc
  obtain ⟨a, -, hc⟩ := List.mem_flatMap.mp hc
  exact printable_iff.mp (h a) c hc

theorem printable_hexDigit (n : Nat) : 32 ≤ (hexDigit n).toNat := by
  have hdigits : Printable "0123456789abcdef".toList := by decide
  rw [hexDigit, List.getD_eq_getElem?_getD]
  cases hget : "0123456789abcdef".toList[n]? with
  | none => decide
  | some c => exact printable_iff.mp hdigits c (List.mem_of_getElem? hget)

theorem printable_escapeRune (c : Char) : Printable (escapeRune c) := by
  unfold escapeRune
  dsimp only
  split_ifs with hescape hb hf hn hr ht hunicode
  · rcases hescape with rfl | rfl
    · decide
    · decide
  · decide
  · decide
  · decide
  · decide
  · decide
  · rw [printable_iff]
    intro d hd
    simp only [List.mem_cons, List.not_mem_nil, or_false] at hd
    rcases hd with rfl | rfl | rfl | rfl | rfl | rfl
    · decide
    · decide
    · exact printable_hexDigit _
    · exact printable_hexDigit _
    · exact printable_hexDigit _
    · exact printable_hexDigit _
  · rw [printable_iff]
    intro d hd
    obtain rfl := List.mem_singleton.mp hd
    exact Nat.le_of_not_lt (not_or.mp hunicode).1

theorem printable_escapeText (c : Option Char) : Printable (escapeText c) := by
  cases c with
  | some c => exact printable_escapeRune c
  | none => decide

theorem printable_member (name : String) (value : List (Option Char)) : Printable (member name value) := by
  have hname := printable_flatMap printable_escapeRune name.toList
  have hquote : Printable ['"'] := by decide
  have hcolon : Printable ['"', ':', '"'] := by decide
  have hvalue := printable_append (printable_flatMap printable_escapeText value) hquote
  show Printable (['"'] ++ (name.toList.flatMap escapeRune ++ (['"', ':', '"'] ++ (_ ++ ['"']))))
  exact printable_append hquote (printable_append hname (printable_append hcolon hvalue))

end GoJson
