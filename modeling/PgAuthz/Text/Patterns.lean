import Mathlib.Computability.RegularExpressions
import Mathlib.Data.List.DropRight

/-!
# Patterns and padded numbers

Regular expressions over characters, as a regular expression of a library writes them: classes, words,
options and repetitions. Numbers in decimal, padded with zeros on the left or cut of them on the right.

## Main definitions

* `oneOf`, `word`, `many1`, `maybe`, `anyOf`: regular expressions
* `alphabet`: the characters that a regular expression mentions
* `padded`: a number with a least number of digits
* `trimZeros`: digits without the zeros at their end

## Main results

* `mem_alphabet`: a text that matches has characters of the alphabet only
* `ofDigitChars_padded`: reading a padded number
* `rightpad_trimZeros`: filling up what has been cut
-/

namespace Patterns

open RegularExpression

/-! ## Regular expressions -/

/-- A class of characters. -/
def oneOf (cs : List Char) : RegularExpression Char := cs.foldr (fun c P => char c + P) 0

/-- A word. -/
def word (cs : List Char) : RegularExpression Char := cs.foldr (fun c P => char c * P) 1

/-- One of several patterns. -/
def anyOf (Ps : List (RegularExpression Char)) : RegularExpression Char := Ps.foldr (· + ·) 0

/-- `P+` -/
def many1 (P : RegularExpression Char) : RegularExpression Char := P * P.star

/-- `P?` -/
def maybe (P : RegularExpression Char) : RegularExpression Char := 1 + P

/-- The characters that a regular expression mentions. -/
def alphabet : RegularExpression Char → List Char
  | .zero => []
  | .epsilon => []
  | .char c => [c]
  | .plus P Q => alphabet P ++ alphabet Q
  | .comp P Q => alphabet P ++ alphabet Q
  | .star P => alphabet P

variable {P Q : RegularExpression Char} {w : List Char} {cs : List Char} {c : Char}

/-- A text that matches has characters of the alphabet only. -/
theorem mem_alphabet (h : w ∈ P.matches') : ∀ c ∈ w, c ∈ alphabet P := by
  induction P generalizing w with
  | zero => exact absurd h id
  | epsilon =>
    obtain rfl := (Language.mem_one w).mp h
    nofun
  | char a =>
    obtain rfl : w = [a] := h
    exact fun c hc => hc
  | plus P Q ihP ihQ =>
    intro c hc
    rcases (Language.mem_add _ _ w).mp h with h | h
    · exact List.mem_append_left _ (ihP h c hc)
    · exact List.mem_append_right _ (ihQ h c hc)
  | comp P Q ihP ihQ =>
    obtain ⟨a, ha, b, hb, rfl⟩ := Language.mem_mul.mp h
    intro c hc
    rcases List.mem_append.mp hc with hc | hc
    · exact List.mem_append_left _ (ihP ha c hc)
    · exact List.mem_append_right _ (ihQ hb c hc)
  | star P ih =>
    obtain ⟨L, rfl, hL⟩ := Language.mem_kstar.mp h
    intro c hc
    obtain ⟨a, ha, hc⟩ := List.mem_flatten.mp hc
    exact ih (hL a ha) c hc

theorem matches_oneOf : w ∈ (oneOf cs).matches' ↔ ∃ c ∈ cs, w = [c] := by
  induction cs with
  | nil => simp [oneOf, matches']
  | cons a cs ih =>
    have hcons : w ∈ (oneOf (a :: cs)).matches' ↔ w = [a] ∨ w ∈ (oneOf cs).matches' := Iff.rfl
    simp [hcons, ih]

theorem matches_word : w ∈ (word cs).matches' ↔ w = cs := by
  induction cs generalizing w with
  | nil => exact Language.mem_one w
  | cons a cs ih =>
    have hcons : w ∈ (word (a :: cs)).matches' ↔ ∃ u, u = [a] ∧ ∃ v ∈ (word cs).matches', u ++ v = w :=
      Language.mem_mul
    simp [hcons, ih, eq_comm]

theorem matches_maybe : w ∈ (maybe P).matches' ↔ w = [] ∨ w ∈ P.matches' := Iff.rfl

theorem matches_mul : w ∈ (P * Q).matches' ↔ ∃ a ∈ P.matches', ∃ b ∈ Q.matches', a ++ b = w :=
  Language.mem_mul

/-- A repetition of a class. -/
theorem matches_star_oneOf (h : ∀ c ∈ w, c ∈ cs) : w ∈ (oneOf cs).star.matches' := by
  refine Language.mem_kstar.mpr ⟨w.map ([·]), by simp [List.flatten_eq_flatMap, List.flatMap_map], ?_⟩
  intro y hy
  obtain ⟨c, hc, rfl⟩ := List.mem_map.mp hy
  exact matches_oneOf.mpr ⟨c, h c hc, rfl⟩

/-- A repetition of a class, at least once. -/
theorem matches_many1_oneOf (hne : w ≠ []) (h : ∀ c ∈ w, c ∈ cs) :
    w ∈ (many1 (oneOf cs)).matches' := by
  cases w with
  | nil => exact absurd rfl hne
  | cons a w =>
    exact matches_mul.mpr ⟨[a], matches_oneOf.mpr ⟨a, h a (.head _), rfl⟩, w,
      matches_star_oneOf fun c hc => h c (.tail _ hc), rfl⟩

/-! ## Decimal numbers -/

/-- The digits of a number, filled up with zeros on the left. -/
def padded (width n : ℕ) : List Char := (Nat.toDigits 10 n).leftpad width '0'

/-- Digits without the zeros at their end. -/
def trimZeros (ds : List Char) : List Char := ds.rdropWhile (· = '0')

theorem ofDigitChars_padded (width n : ℕ) : Nat.ofDigitChars 10 (padded width n) 0 = n := by
  rw [padded, List.leftpad, Nat.ofDigitChars_append, Nat.ofDigitChars_replicate_zero, Nat.mul_zero,
    Nat.ofDigitChars_ten_toDigits]

theorem isDigit_of_mem_toDigits {n : ℕ} (h : c ∈ Nat.toDigits 10 n) : c.isDigit = true :=
  Nat.isDigit_of_mem_toDigits (by decide) (by decide) h

theorem isDigit_of_mem_padded {width n : ℕ} (h : c ∈ padded width n) : c.isDigit = true := by
  rcases List.mem_append.mp h with h | h
  · obtain rfl := List.eq_of_mem_replicate h
    rfl
  · exact isDigit_of_mem_toDigits h

theorem length_padded {width n : ℕ} (hw : 0 < width) (h : n < 10 ^ width) :
    (padded width n).length = width := by
  have hle := (Nat.length_toDigits_le_iff (by decide : 1 < 10) hw).mpr h
  rw [padded, List.length_leftpad]
  exact Nat.max_eq_left hle

/-- Filling up what has been cut. -/
theorem rightpad_trimZeros (ds : List Char) : (trimZeros ds).rightpad ds.length '0' = ds := by
  induction ds using List.reverseRecOn with
  | nil => rfl
  | append_singleton ds d ih =>
    rw [trimZeros]
    by_cases hd : d = '0'
    · subst hd
      rw [List.rdropWhile_concat_pos _ _ _ (by decide)]
      have hle : (ds.rdropWhile (· = '0')).length ≤ ds.length := (List.rdropWhile_prefix _ _).length_le
      rw [trimZeros, List.rightpad] at ih
      rw [List.rightpad, List.length_append, List.length_singleton, Nat.succ_sub hle,
        List.replicate_succ', ← List.append_assoc, ih]
    · rw [List.rdropWhile_concat_neg _ _ _ (by simpa using hd), List.rightpad, Nat.sub_self]
      simp

end Patterns
