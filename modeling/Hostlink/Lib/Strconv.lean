import Mathlib.Tactic.Common
import Hostlink.Lib.GoError

/-! Decimal text of unsigned integers. -/

namespace Strconv

def formatUint (n : Nat) : String := toString n

theorem toList_formatUint (n : Nat) : (formatUint n).toList = Nat.toDigits 10 n := by
  rw [formatUint, Nat.toString_eq_repr, Nat.toList_repr]

theorem formatUint_injective : Function.Injective formatUint := by
  intro m n h
  have hd : Nat.toDigits 10 m = Nat.toDigits 10 n := by
    rw [← toList_formatUint, ← toList_formatUint, h]
  calc m = Nat.ofDigitChars 10 (Nat.toDigits 10 m) 0 := Nat.ofDigitChars_ten_toDigits.symm
    _ = Nat.ofDigitChars 10 (Nat.toDigits 10 n) 0 := by rw [hd]
    _ = n := Nat.ofDigitChars_ten_toDigits

def errSyntax : GoError := .new "invalid syntax"
def errRange : GoError := .new "value out of range"

def parseDigits (maxVal : Nat) : List Char → Nat → Except GoError Nat
  | [], n => .ok n
  | c :: cs, n =>
    if c.isDigit then
      let n := 10 * n + (c.toNat - '0'.toNat)
      if n > maxVal then .error errRange else parseDigits maxVal cs n
    else .error errSyntax

def parseUint (s : String) (bitSize : Nat) : Except GoError Nat :=
  (if s = "" then .error errSyntax else parseDigits (1 <<< bitSize - 1) s.toList 0).mapError
    (.wrap ("strconv.ParseUint: parsing \"" ++ s ++ "\""))

theorem le_ofDigitChars (cs : List Char) (n : Nat) : n ≤ Nat.ofDigitChars 10 cs n := by
  induction cs generalizing n with
  | nil => exact Nat.le_refl n
  | cons c cs ih =>
    rw [Nat.ofDigitChars_cons]
    exact Nat.le_trans (by omega) (ih _)

theorem parseDigits_eq {maxVal : Nat} {cs : List Char} {n : Nat}
    (hdigits : ∀ c ∈ cs, c.isDigit = true) (hle : Nat.ofDigitChars 10 cs n ≤ maxVal) :
    parseDigits maxVal cs n = .ok (Nat.ofDigitChars 10 cs n) := by
  induction cs generalizing n with
  | nil => rfl
  | cons c cs ih =>
    rw [Nat.ofDigitChars_cons] at hle ⊢
    have hn := Nat.le_trans (le_ofDigitChars cs _) hle
    rw [parseDigits, if_pos (hdigits c List.mem_cons_self)]
    simp only [if_neg (Nat.not_lt_of_le hn)]
    exact ih (fun d hd => hdigits d (List.mem_cons_of_mem _ hd)) hle

structure IsDecimal (s : String) : Prop where
  ne_empty : s ≠ ""
  digits : ∀ c ∈ s.toList, c.isDigit = true

theorem isDecimal_iff (s : String) :
    (s ≠ "" ∧ s.toList.all Char.isDigit = true) ↔ IsDecimal s := by
  rw [List.all_eq_true]
  exact ⟨fun h => ⟨h.1, h.2⟩, fun h => ⟨h.ne_empty, h.digits⟩⟩

instance (s : String) : Decidable (IsDecimal s) := decidable_of_iff _ (isDecimal_iff s)

theorem IsDecimal.not_mem {s : String} (h : IsDecimal s) {c : Char} (hc : c.isDigit = false) :
    c ∉ s.toList := by
  intro hmem
  have hdigit := h.digits c hmem
  rw [hc] at hdigit
  cases hdigit

def value (s : String) : Nat := Nat.ofDigitChars 10 s.toList 0

theorem digits_of_parseDigits {maxVal : Nat} {cs : List Char} {n v : Nat} (hn : n ≤ maxVal)
    (h : parseDigits maxVal cs n = .ok v) :
    (∀ c ∈ cs, c.isDigit = true) ∧ Nat.ofDigitChars 10 cs n = v ∧ v ≤ maxVal := by
  induction cs generalizing n with
  | nil =>
    have hv : n = v := Except.ok.inj h
    exact ⟨fun c hc => absurd hc List.not_mem_nil, hv, hv ▸ hn⟩
  | cons c cs ih =>
    simp only [parseDigits] at h
    split at h
    · next hc =>
      split at h
      · cases h
      · next hle =>
        obtain ⟨hdigits, hvalue, hmax⟩ := ih (Nat.le_of_not_lt hle) h
        refine ⟨fun d hd => ?_, ?_, hmax⟩
        · rcases List.mem_cons.mp hd with rfl | hd
          · exact hc
          · exact hdigits d hd
        · rw [Nat.ofDigitChars_cons]
          exact hvalue
    · cases h

theorem parseUint_eq_ok_iff {s : String} {bitSize n : Nat} :
    parseUint s bitSize = .ok n ↔ IsDecimal s ∧ value s = n ∧ n < 1 <<< bitSize := by
  have hpos : 0 < 1 <<< bitSize := by
    rw [Nat.one_shiftLeft]
    exact Nat.two_pow_pos bitSize
  rw [parseUint, GoError.mapError_eq_ok]
  constructor
  · intro h
    split at h
    · cases h
    · next hne =>
      obtain ⟨hdigits, hvalue, hmax⟩ := digits_of_parseDigits (Nat.zero_le _) h
      exact ⟨⟨hne, hdigits⟩, hvalue, by omega⟩
  · rintro ⟨hdecimal, rfl, hlt⟩
    rw [if_neg hdecimal.ne_empty]
    apply parseDigits_eq hdecimal.digits
    exact Nat.le_sub_one_of_lt hlt

theorem parseUint_formatUint {n bitSize : Nat} (h : n < 1 <<< bitSize) :
    parseUint (formatUint n) bitSize = .ok n := by
  have hne : formatUint n ≠ "" := by
    intro he
    have hnil := toList_formatUint n
    rw [he] at hnil
    exact Nat.toDigits_ne_nil hnil.symm
  have hvalue : Nat.ofDigitChars 10 (Nat.toDigits 10 n) 0 = n := Nat.ofDigitChars_ten_toDigits
  have hdigits : ∀ c ∈ Nat.toDigits 10 n, c.isDigit = true := fun c hc =>
    Nat.isDigit_of_mem_toDigits (by decide) (by decide) hc
  rw [parseUint, if_neg hne, toList_formatUint, parseDigits_eq hdigits (by omega), hvalue]
  rfl

end Strconv
