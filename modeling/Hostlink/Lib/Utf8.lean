import Mathlib.Tactic.Common

/-! UTF-8 as package `unicode/utf8` reads it: a byte that begins no character stands for itself alone. -/

namespace Utf8

/-- Length and range of the second byte of a character of several bytes, by its first byte. -/
structure Lead where
  size : Nat
  low : Nat := 0x80
  high : Nat := 0xBF

def lead (b : Nat) : Option Lead :=
  if b < 0xC2 then none
  else if b ≤ 0xDF then some { size := 2 }
  else if b = 0xE0 then some { size := 3, low := 0xA0 }
  else if b = 0xED then some { size := 3, high := 0x9F }
  else if b ≤ 0xEF then some { size := 3 }
  else if b = 0xF0 then some { size := 4, low := 0x90 }
  else if b ≤ 0xF3 then some { size := 4 }
  else if b = 0xF4 then some { size := 4, high := 0x8F }
  else none

def continues (b : UInt8) : Bool := 0x80 ≤ b.toNat && b.toNat ≤ 0xBF

def Lead.accepts (x : Lead) (b : UInt8) : Bool := x.low ≤ b.toNat && b.toNat ≤ x.high

/-- `DecodeRune`: the first character and its length; without one the length is 1. -/
def decodeRune : List UInt8 → Option Char × Nat
  | [] => (none, 0)
  | b :: rest =>
    if b.toNat < 0x80 then (some (Char.ofNat b.toNat), 1)
    else match lead b.toNat, rest with
      | some ⟨2, low, high⟩, b₁ :: _ =>
        if Lead.accepts ⟨2, low, high⟩ b₁ then
          (some (Char.ofNat (b.toNat % 32 * 64 + b₁.toNat % 64)), 2)
        else (none, 1)
      | some ⟨3, low, high⟩, b₁ :: b₂ :: _ =>
        if Lead.accepts ⟨3, low, high⟩ b₁ && continues b₂ then
          (some (Char.ofNat (b.toNat % 16 * 4096 + b₁.toNat % 64 * 64 + b₂.toNat % 64)), 3)
        else (none, 1)
      | some ⟨4, low, high⟩, b₁ :: b₂ :: b₃ :: _ =>
        if Lead.accepts ⟨4, low, high⟩ b₁ && continues b₂ && continues b₃ then
          (some (Char.ofNat (b.toNat % 8 * 262144 + b₁.toNat % 64 * 4096 + b₂.toNat % 64 * 64 +
            b₃.toNat % 64)), 4)
        else (none, 1)
      | _, _ => (none, 1)

/-- `range` over the bytes, the first ones of which belong to a character that was read already. -/
def runesFrom : Nat → List UInt8 → List (Option Char)
  | _, [] => []
  | skip + 1, _ :: rest => runesFrom skip rest
  | 0, b :: rest => (decodeRune (b :: rest)).1 :: runesFrom ((decodeRune (b :: rest)).2 - 1) rest

/-- The characters of a text; `none` is a byte that is no part of a character. -/
def runes (bytes : List UInt8) : List (Option Char) := runesFrom 0 bytes

def encode (chars : List Char) : List UInt8 := chars.flatMap String.utf8EncodeChar

theorem toNat_valid (c : Char) : c.toNat < 0xD800 ∨ 0xDFFF < c.toNat ∧ c.toNat < 0x110000 := c.valid

theorem toNat_ofNat {n : Nat} (h : n < 256) : (UInt8.ofNat n).toNat = n := UInt8.toNat_ofNat_of_lt h

theorem decodeRune_two {b b₁ : UInt8} (h : 0xC2 ≤ b.toNat ∧ b.toNat ≤ 0xDF) (h₁ : continues b₁ = true)
    (rest : List UInt8) :
    decodeRune (b :: b₁ :: rest) = (some (Char.ofNat (b.toNat % 32 * 64 + b₁.toNat % 64)), 2) := by
  have hlead : lead b.toNat = some ⟨2, 0x80, 0xBF⟩ := by
    rw [lead, if_neg (by omega), if_pos h.2]
  have haccepts : Lead.accepts ⟨2, 0x80, 0xBF⟩ b₁ = true := h₁
  simp only [decodeRune, hlead, haccepts, if_true]
  rw [if_neg (by omega)]

theorem decodeRune_three {b b₁ b₂ : UInt8} (h : 0xE0 ≤ b.toNat ∧ b.toNat ≤ 0xEF) (h₁ : continues b₁ = true)
    (hlow : b.toNat = 0xE0 → 0xA0 ≤ b₁.toNat) (hhigh : b.toNat = 0xED → b₁.toNat ≤ 0x9F)
    (h₂ : continues b₂ = true) (rest : List UInt8) : decodeRune (b :: b₁ :: b₂ :: rest) =
      (some (Char.ofNat (b.toNat % 16 * 4096 + b₁.toNat % 64 * 64 + b₂.toNat % 64)), 3) := by
  simp only [continues, Bool.and_eq_true, decide_eq_true_eq] at h₁
  have hlead : ∃ low high, lead b.toNat = some ⟨3, low, high⟩ ∧ Lead.accepts ⟨3, low, high⟩ b₁ = true := by
    simp only [Lead.accepts, Bool.and_eq_true, decide_eq_true_eq]
    rw [lead, if_neg (by omega), if_neg (by omega)]
    split
    · next h0 => exact ⟨_, _, rfl, hlow h0, h₁.2⟩
    · split
      · next hD => exact ⟨_, _, rfl, h₁.1, hhigh hD⟩
      · rw [if_pos h.2]
        exact ⟨_, _, rfl, h₁⟩
  obtain ⟨low, high, hlead, haccepts⟩ := hlead
  simp only [decodeRune, hlead, haccepts, h₂, Bool.and_self, if_true]
  rw [if_neg (by omega)]

theorem decodeRune_four {b b₁ b₂ b₃ : UInt8} (h : 0xF0 ≤ b.toNat ∧ b.toNat ≤ 0xF4) (h₁ : continues b₁ = true)
    (hlow : b.toNat = 0xF0 → 0x90 ≤ b₁.toNat) (hhigh : b.toNat = 0xF4 → b₁.toNat ≤ 0x8F)
    (h₂ : continues b₂ = true) (h₃ : continues b₃ = true) (rest : List UInt8) :
    decodeRune (b :: b₁ :: b₂ :: b₃ :: rest) = (some (Char.ofNat (b.toNat % 8 * 262144 +
      b₁.toNat % 64 * 4096 + b₂.toNat % 64 * 64 + b₃.toNat % 64)), 4) := by
  simp only [continues, Bool.and_eq_true, decide_eq_true_eq] at h₁
  have hlead : ∃ low high, lead b.toNat = some ⟨4, low, high⟩ ∧ Lead.accepts ⟨4, low, high⟩ b₁ = true := by
    simp only [Lead.accepts, Bool.and_eq_true, decide_eq_true_eq]
    rw [lead, if_neg (by omega), if_neg (by omega), if_neg (by omega), if_neg (by omega), if_neg (by omega)]
    split
    · next h0 => exact ⟨_, _, rfl, hlow h0, h₁.2⟩
    · split
      · exact ⟨_, _, rfl, h₁⟩
      · have h4 : b.toNat = 0xF4 := by omega
        rw [if_pos h4]
        exact ⟨_, _, rfl, h₁.1, hhigh h4⟩
  obtain ⟨low, high, hlead, haccepts⟩ := hlead
  simp only [decodeRune, hlead, haccepts, h₂, h₃, Bool.and_self, if_true]
  rw [if_neg (by omega)]

theorem continues_ofNat {n : Nat} (h : n < 64) : continues (UInt8.ofNat (n + 128)) = true := by
  simp only [continues, toNat_ofNat (show n + 128 < 256 by omega), Bool.and_eq_true, decide_eq_true_eq]
  omega

theorem decodeRune_encode (c : Char) (rest : List UInt8) :
    decodeRune (String.utf8EncodeChar c ++ rest) = (some c, (String.utf8EncodeChar c).length) := by
  have hvalid := toNat_valid c
  have hchar : ∀ {n : Nat}, n = c.toNat → some (Char.ofNat n) = some c := by
    rintro n rfl
    rw [Char.ofNat_toNat]
  generalize hv : c.toNat = v at hvalid hchar
  have hencode : String.utf8EncodeChar c = _ := String.utf8EncodeChar.eq_1 c
  rw [show c.val.toNat = v from hv] at hencode
  rw [hencode]
  split
  · next hle =>
    have hb := toNat_ofNat (show v < 256 by omega)
    simp only [List.cons_append, List.nil_append, decodeRune, hb, List.length_singleton]
    rw [if_pos (by omega), hchar rfl]
  · split
    · have hb := toNat_ofNat (show v / 64 % 32 + 192 < 256 by omega)
      have hb₁ := toNat_ofNat (show v % 64 + 128 < 256 by omega)
      have hread := decodeRune_two (b := UInt8.ofNat (v / 64 % 32 + 192)) (by omega)
        (continues_ofNat (show v % 64 < 64 by omega)) rest
      rw [hb, hb₁, hchar (by omega)] at hread
      exact hread
    · split
      · have hb := toNat_ofNat (show v / 4096 % 16 + 224 < 256 by omega)
        have hb₁ := toNat_ofNat (show v / 64 % 64 + 128 < 256 by omega)
        have hb₂ := toNat_ofNat (show v % 64 + 128 < 256 by omega)
        have hread := decodeRune_three (b := UInt8.ofNat (v / 4096 % 16 + 224)) (by omega)
          (continues_ofNat (show v / 64 % 64 < 64 by omega)) (by omega) (by omega)
          (continues_ofNat (show v % 64 < 64 by omega)) rest
        rw [hb, hb₁, hb₂, hchar (by omega)] at hread
        exact hread
      · have hb := toNat_ofNat (show v / 262144 % 8 + 240 < 256 by omega)
        have hb₁ := toNat_ofNat (show v / 4096 % 64 + 128 < 256 by omega)
        have hb₂ := toNat_ofNat (show v / 64 % 64 + 128 < 256 by omega)
        have hb₃ := toNat_ofNat (show v % 64 + 128 < 256 by omega)
        have hread := decodeRune_four (b := UInt8.ofNat (v / 262144 % 8 + 240)) (by omega)
          (continues_ofNat (show v / 4096 % 64 < 64 by omega)) (by omega) (by omega)
          (continues_ofNat (show v / 64 % 64 < 64 by omega)) (continues_ofNat (show v % 64 < 64 by omega)) rest
        rw [hb, hb₁, hb₂, hb₃, hchar (by omega)] at hread
        exact hread

theorem runesFrom_append (skipped rest : List UInt8) : runesFrom skipped.length (skipped ++ rest) = runes rest := by
  induction skipped with
  | nil => rfl
  | cons b skipped ih => exact ih

theorem runes_encode (chars : List Char) : runes (encode chars) = chars.map some := by
  induction chars with
  | nil => rfl
  | cons c chars ih =>
    have hread := decodeRune_encode c (encode chars)
    have hencode : encode (c :: chars) = String.utf8EncodeChar c ++ encode chars := rfl
    rw [hencode]
    cases hbytes : String.utf8EncodeChar c with
    | nil => exact absurd hbytes String.utf8EncodeChar_ne_nil
    | cons b bytes =>
      rw [hbytes] at hread
      rw [List.cons_append] at hread ⊢
      show (decodeRune (b :: (bytes ++ encode chars))).1 ::
        runesFrom ((decodeRune (b :: (bytes ++ encode chars))).2 - 1) (bytes ++ encode chars) = _
      rw [hread]
      exact congrArg (some c :: ·) ((runesFrom_append bytes (encode chars)).trans ih)

theorem mem_encode_of_lt {chars : List Char} {b : UInt8} (hb : b ∈ encode chars) (hlt : b.toNat < 0x80) :
    ∃ c ∈ chars, c.toNat = b.toNat := by
  obtain ⟨c, hc, hmem⟩ := List.mem_flatMap.mp hb
  refine ⟨c, hc, ?_⟩
  have hhigh : ∀ n < 256, 128 ≤ n → b ≠ UInt8.ofNat n := by
    rintro n hn hle rfl
    rw [toNat_ofNat hn] at hlt
    omega
  have hencode : String.utf8EncodeChar c = _ := String.utf8EncodeChar.eq_1 c
  rw [hencode] at hmem
  split at hmem
  · next hle =>
    obtain rfl := List.mem_singleton.mp hmem
    exact (toNat_ofNat (show c.val.toNat < 256 by omega)).symm
  · exfalso
    split_ifs at hmem
    all_goals simp only [List.mem_cons, List.not_mem_nil, or_false] at hmem
    · rcases hmem with h | h <;> exact hhigh _ (by omega) (by omega) h
    · rcases hmem with h | h | h <;> exact hhigh _ (by omega) (by omega) h
    · rcases hmem with h | h | h | h <;> exact hhigh _ (by omega) (by omega) h

end Utf8
