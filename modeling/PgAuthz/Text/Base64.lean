import Mathlib.Tactic.Common
import Mathlib.Data.List.Basic

/-!
# Base64 for URLs

Bytes as text in the alphabet of URLs, without padding. Three bytes are four digits, and a rest of one byte
or two is two digits or three. A reader skips line breaks and does not look at the bits of the last digit
that no byte takes up, so that a few texts may stand for the same bytes; but every byte string can be read
back from its text.

## Main definitions

* `encode`, `decode`: the text of bytes, and the bytes of a text

## Main results

* `decode_encode`: bytes are read back
* `isDigit_of_mem_encode`: a text has digits of the alphabet only
-/

namespace Base64

/-- The digit of a value below 64. -/
def ofValue (v : ℕ) : Char :=
  if v < 26 then Char.ofNat ('A'.toNat + v)
  else if v < 52 then Char.ofNat ('a'.toNat + (v - 26))
  else if v < 62 then Char.ofNat ('0'.toNat + (v - 52))
  else if v = 62 then '-'
  else '_'

/-- The value of a digit. -/
def value (c : Char) : Option ℕ :=
  if 'A' ≤ c ∧ c ≤ 'Z' then some (c.toNat - 'A'.toNat)
  else if 'a' ≤ c ∧ c ≤ 'z' then some (c.toNat - 'a'.toNat + 26)
  else if '0' ≤ c ∧ c ≤ '9' then some (c.toNat - '0'.toNat + 52)
  else if c = '-' then some 62
  else if c = '_' then some 63
  else none

/-- The digits of bytes. -/
def digits : List UInt8 → List ℕ
  | a :: b :: c :: rest =>
    a.toNat / 4 :: (16 * (a.toNat % 4) + b.toNat / 16) :: (4 * (b.toNat % 16) + c.toNat / 64) ::
      c.toNat % 64 :: digits rest
  | [a, b] => [a.toNat / 4, 16 * (a.toNat % 4) + b.toNat / 16, 4 * (b.toNat % 16)]
  | [a] => [a.toNat / 4, 16 * (a.toNat % 4)]
  | [] => []

/-- The bytes of digits. A rest of one digit is no byte. -/
def bytes : List ℕ → Option (List UInt8)
  | a :: b :: c :: d :: rest =>
    (bytes rest).map
      ([UInt8.ofNat (4 * a + b / 16), UInt8.ofNat (16 * b + c / 4), UInt8.ofNat (64 * c + d)] ++ ·)
  | [a, b, c] => some [UInt8.ofNat (4 * a + b / 16), UInt8.ofNat (16 * b + c / 4)]
  | [a, b] => some [UInt8.ofNat (4 * a + b / 16)]
  | [_] => none
  | [] => some []

/-- The text of bytes. -/
def encode (bs : List UInt8) : String := String.ofList ((digits bs).map ofValue)

/-- The bytes of a text. -/
def decode (s : String) : Option (List UInt8) :=
  ((s.toList.filter fun c => c ≠ '\r' ∧ c ≠ '\n').mapM value).bind bytes

theorem value_ofValue : ∀ v < 64, value (ofValue v) = some v := by decide

theorem lt_of_mem_digits {d : ℕ} {bs : List UInt8} (h : d ∈ digits bs) : d < 64 := by
  induction bs using digits.induct with
  | case1 a b c rest ih =>
    have ha := a.toNat_lt
    have hb := b.toNat_lt
    have hc := c.toNat_lt
    simp only [digits, List.mem_cons] at h
    rcases h with rfl | rfl | rfl | rfl | h
    · omega
    · omega
    · omega
    · omega
    · exact ih h
  | case2 a b =>
    have ha := a.toNat_lt
    have hb := b.toNat_lt
    simp only [digits, List.mem_cons, List.not_mem_nil, or_false] at h
    omega
  | case3 a =>
    have ha := a.toNat_lt
    simp only [digits, List.mem_cons, List.not_mem_nil, or_false] at h
    omega
  | case4 => cases h

/-- A byte that a number is congruent to. -/
theorem ofNat_eq {n : ℕ} {b : UInt8} (h : n % 256 = b.toNat) : UInt8.ofNat n = b := by
  apply UInt8.toNat_inj.mp
  rw [UInt8.toNat_ofNat']
  exact h

theorem bytes_digits (bs : List UInt8) : bytes (digits bs) = some bs := by
  induction bs using digits.induct with
  | case1 a b c rest ih =>
    have ha := a.toNat_lt
    have hb := b.toNat_lt
    have hc := c.toNat_lt
    have h₁ : UInt8.ofNat (4 * (a.toNat / 4) + (16 * (a.toNat % 4) + b.toNat / 16) / 16) = a :=
      ofNat_eq (by omega)
    have h₂ : UInt8.ofNat (16 * (16 * (a.toNat % 4) + b.toNat / 16) + (4 * (b.toNat % 16) + c.toNat / 64) / 4) =
        b := ofNat_eq (by omega)
    have h₃ : UInt8.ofNat (64 * (4 * (b.toNat % 16) + c.toNat / 64) + c.toNat % 64) = c := ofNat_eq (by omega)
    simp only [digits, bytes, ih, h₁, h₂, h₃]
    rfl
  | case2 a b =>
    have ha := a.toNat_lt
    have hb := b.toNat_lt
    have h₁ : UInt8.ofNat (4 * (a.toNat / 4) + (16 * (a.toNat % 4) + b.toNat / 16) / 16) = a :=
      ofNat_eq (by omega)
    have h₂ : UInt8.ofNat (16 * (16 * (a.toNat % 4) + b.toNat / 16) + 4 * (b.toNat % 16) / 4) = b :=
      ofNat_eq (by omega)
    simp only [digits, bytes, h₁, h₂]
  | case3 a =>
    have ha := a.toNat_lt
    have h₁ : UInt8.ofNat (4 * (a.toNat / 4) + 16 * (a.toNat % 4) / 16) = a := ofNat_eq (by omega)
    simp only [digits, bytes, h₁]
  | case4 => rfl

/-- A text has digits of the alphabet only. -/
theorem isDigit_of_mem_encode {c : Char} {bs : List UInt8} (h : c ∈ (encode bs).toList) :
    (value c).isSome = true := by
  rw [encode, String.toList_ofList] at h
  obtain ⟨v, hv, rfl⟩ := List.mem_map.mp h
  rw [value_ofValue v (lt_of_mem_digits hv)]
  rfl

/-- The values of digits that were written. -/
theorem mapM_value {l : List ℕ} (h : ∀ v ∈ l, v < 64) : (l.map ofValue).mapM value = some l := by
  induction l with
  | nil => rfl
  | cons v l ih =>
    have hv := value_ofValue v (h v (List.mem_cons_self ..))
    have hl := ih fun w hw => h w (List.mem_cons_of_mem v hw)
    rw [List.map_cons, List.mapM_cons, hv, hl]
    rfl

/-- **Bytes are read back from their text.** -/
theorem decode_encode (bs : List UInt8) : decode (encode bs) = some bs := by
  -- no digit is a line break
  have hfilter : ((encode bs).toList.filter fun c => c ≠ '\r' ∧ c ≠ '\n') = (digits bs).map ofValue := by
    rw [List.filter_eq_self.mpr, encode, String.toList_ofList]
    intro c hc
    have hdigit := isDigit_of_mem_encode hc
    apply decide_eq_true
    constructor
    · rintro rfl
      cases hdigit
    · rintro rfl
      cases hdigit
  rw [decode, hfilter, mapM_value fun v hv => lt_of_mem_digits hv]
  exact bytes_digits bs

end Base64
